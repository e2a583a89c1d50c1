import MetadataGraph.Execution.Attempts

namespace MetadataGraph.Execution

open Runs

/-- The instant that a call is given. -/
def Request.time (request : Request) : Option ℚ :=
  match request.call with
  | .claimNext _ now _ | .renewLease _ _ now _ | .complete _ _ now | .fail _ _ now | .cancel _ now
  | .recoverStale now => some now
  | .enqueue _ | .get _ | .listJobs _ _ _ _ | .reopen => none

/-- The lease of a worker on a job after a call: granted by `claim_next` and `renew_lease`, given up
by the worker's own `complete` or `fail`, lost by `cancel`. -/
def noteLease (worker id : String) (held : Option ℚ) (event : Request × Reply) : Option ℚ :=
  match event.1.call, event.2 with
  | .claimNext workerId now leaseSeconds, .job (some job) =>
    if workerId = worker ∧ job.id = id then some (now + leaseSeconds) else held
  | .renewLease jobId workerId now leaseSeconds, .flag true =>
    if workerId = worker ∧ jobId = id then some (now + leaseSeconds) else held
  | .complete jobId _ _, .job _ => if event.1.caller = worker ∧ jobId = id then none else held
  | .fail jobId _ _, .job _ => if event.1.caller = worker ∧ jobId = id then none else held
  | .cancel jobId _, .flag true => if jobId = id then none else held
  | _, _ => held

/-- When the lease runs out that a worker has on a job. -/
def leaseOf (worker id : String) (history : History) : Option ℚ := history.foldl (noteLease worker id) none

/-- The worker was handed the job at some time. -/
def claimedBy (worker id : String) (history : History) : Bool :=
  history.any fun event => match event.1.call, event.2 with
    | .claimNext workerId _ _, .job (some job) => workerId = worker && job.id = id
    | _, _ => false

/-- Not before anything that has happened. -/
def NotBefore (history : History) (now : ℚ) : Prop := ∀ event ∈ history, ∀ t ∈ event.1.time, t ≤ now

/-- A worker reports on jobs that it has claimed, jobs are offered as pending, and the clock does not
go back. -/
def Disciplined (history : History) (request : Request) : Prop :=
  (∀ now ∈ request.time, NotBefore history now) ∧
  match request.call with
  | .enqueue job => job.state = .pending
  | .renewLease jobId workerId _ _ => claimedBy workerId jobId history = true
  | .complete jobId _ _ | .fail jobId _ _ => claimedBy request.caller jobId history = true
  | _ => True

/-- No attempt is failed that another worker is at, on a lease that still runs: its job would be due
again. -/
def SparesOwner (retry : RetryPolicy) (s : Store) (request : Request) : Prop :=
  match request.call with
  | .fail jobId _ now => match s.get? jobId with
    | some job => job.state = .running → job.leaseOwner ≠ some request.caller → job.leaseExpired now = false →
        retry.maxAttempts ≤ job.attempts
    | none => True
  | _ => True

/-- Over at any time that is not before the history. -/
def Past (history : History) (expiry : ℚ) : Prop := ∀ now, NotBefore history now → expiry ≤ now

/-- The leases on a job that still run are the one that the job shows. -/
structure Guarded (id : String) (history : History) (job : Option ExecutionJob) : Prop where
  absent : job = none → ∀ worker, leaseOf worker id history = none
  named : ∀ j, job = some j → j.id = id
  pending : ∀ j, job = some j → j.state = .pending →
    ∀ worker expiry, leaseOf worker id history = some expiry → Past history expiry
  running : ∀ j, job = some j → j.state = .running →
    ∀ worker expiry, leaseOf worker id history = some expiry →
      Past history expiry ∨ (j.leaseOwner = some worker ∧ j.leaseExpiry = some expiry)

instance (history : History) (now : ℚ) : Decidable (NotBefore history now) := by
  unfold NotBefore
  infer_instance

/-- What is asked of a call beside its time. -/
def Request.Claimed (history : History) (request : Request) : Prop :=
  match request.call with
  | .enqueue job => job.state = .pending
  | .renewLease jobId workerId _ _ => claimedBy workerId jobId history = true
  | .complete jobId _ _ | .fail jobId _ _ => claimedBy request.caller jobId history = true
  | _ => True

instance (history : History) (request : Request) : Decidable (request.Claimed history) :=
  match request with
  | ⟨_, .enqueue job, _⟩ => inferInstanceAs (Decidable (job.state = .pending))
  | ⟨_, .renewLease jobId workerId _ _, _⟩ => inferInstanceAs (Decidable (claimedBy workerId jobId history = true))
  | ⟨caller, .complete jobId _ _, _⟩ | ⟨caller, .fail jobId _ _, _⟩ =>
    inferInstanceAs (Decidable (claimedBy caller jobId history = true))
  | ⟨_, .claimNext .., _⟩ | ⟨_, .cancel .., _⟩ | ⟨_, .recoverStale .., _⟩ | ⟨_, .get .., _⟩ | ⟨_, .listJobs .., _⟩
  | ⟨_, .reopen, _⟩ => isTrue trivial

instance (history : History) (request : Request) : Decidable (Disciplined history request) :=
  inferInstanceAs (Decidable ((∀ now ∈ request.time, NotBefore history now) ∧ request.Claimed history))

/-- What is asked of the job that an attempt is failed for. -/
def ExecutionJob.Spared (retry : RetryPolicy) (caller : String) (now : ℚ) : Option ExecutionJob → Prop
  | some job => job.state = .running → job.leaseOwner ≠ some caller → job.leaseExpired now = false →
      retry.maxAttempts ≤ job.attempts
  | none => True

instance (retry : RetryPolicy) (caller : String) (now : ℚ) (job : Option ExecutionJob) :
    Decidable (ExecutionJob.Spared retry caller now job) :=
  match job with
  | some job => inferInstanceAs (Decidable (job.state = .running → job.leaseOwner ≠ some caller →
      job.leaseExpired now = false → retry.maxAttempts ≤ job.attempts))
  | none => isTrue trivial

instance (retry : RetryPolicy) (s : Store) (request : Request) : Decidable (SparesOwner retry s request) :=
  match request with
  | ⟨caller, .fail jobId _ now, _⟩ => inferInstanceAs (Decidable (ExecutionJob.Spared retry caller now (s.get? jobId)))
  | ⟨_, .enqueue .., _⟩ | ⟨_, .claimNext .., _⟩ | ⟨_, .renewLease .., _⟩ | ⟨_, .complete .., _⟩ | ⟨_, .cancel .., _⟩
  | ⟨_, .recoverStale .., _⟩ | ⟨_, .get .., _⟩ | ⟨_, .listJobs .., _⟩ | ⟨_, .reopen, _⟩ => isTrue trivial

variable {retry : RetryPolicy} {worker id : String} {history : History} {request : Request} {reply : Reply}

theorem leaseOf_snoc :
    leaseOf worker id (history ++ [(request, reply)]) = noteLease worker id (leaseOf worker id history) (request, reply) := by
  rw [leaseOf, leaseOf, List.foldl_append]
  rfl

theorem NotBefore.of_snoc {now : ℚ} (later : NotBefore (history ++ [(request, reply)]) now) : NotBefore history now :=
  fun event member => later event (List.mem_append_left _ member)

theorem Past.snoc {expiry : ℚ} (past : Past history expiry) : Past (history ++ [(request, reply)]) expiry :=
  fun now later => past now later.of_snoc

/-- What has run out when a call is made is over afterwards. -/
theorem Past.of_le {expiry now : ℚ} (time : request.time = some now) (le : expiry ≤ now) :
    Past (history ++ [(request, reply)]) expiry := by
  intro later after
  exact le.trans (after (request, reply) (List.mem_append_right _ List.mem_cons_self) now time)

/-- A lease is there after a call only if it was there before, or the call grants it. -/
theorem noteLease_cases {held : Option ℚ} {expiry : ℚ} (kept : noteLease worker id held (request, reply) = some expiry) :
    held = some expiry ∨
      (∃ now leaseSeconds job, request.call = .claimNext worker now leaseSeconds ∧ reply = .job (some job) ∧
        job.id = id ∧ expiry = now + leaseSeconds) ∨
      (∃ now leaseSeconds, request.call = .renewLease id worker now leaseSeconds ∧ reply = .flag true ∧
        expiry = now + leaseSeconds) := by
  unfold noteLease at kept
  split at kept
  · rename_i workerId now leaseSeconds job call handed
    split at kept
    · rename_i own
      obtain ⟨rfl, named⟩ := own
      cases kept
      exact .inr (.inl ⟨now, leaseSeconds, job, call, handed, named, rfl⟩)
    · exact .inl kept
  · rename_i jobId workerId now leaseSeconds call done
    split at kept
    · rename_i own
      obtain ⟨rfl, rfl⟩ := own
      cases kept
      exact .inr (.inr ⟨now, leaseSeconds, call, done, rfl⟩)
    · exact .inl kept
  · split at kept
    · cases kept
    · exact .inl kept
  · split at kept
    · cases kept
    · exact .inl kept
  · split at kept
    · cases kept
    · exact .inl kept
  · exact .inl kept

/-- A quiet call grants no lease. -/
theorem noteLease_quiet (quiet : Quiet request reply id) (unrenewed : request.renewed reply ≠ some id) {held : Option ℚ}
    {expiry : ℚ} (kept : noteLease worker id held (request, reply) = some expiry) : held = some expiry := by
  rcases noteLease_cases kept with before | ⟨now, leaseSeconds, job, call, handed, named, _⟩ | ⟨now, leaseSeconds, call, done, _⟩
  · exact before
  · exact absurd named (quiet.handedOut job (by simp only [Request.handedOut, call, handed]))
  · exact absurd (by simp only [Request.renewed, call, done]) unrenewed

/-- A lease on a job that can be claimed is over, or runs out no later than the claim. -/
theorem Guarded.runs_out {job : ExecutionJob} (guarded : Guarded id history (some job)) {now : ℚ}
    (ready : job.runnable now = true) {expiry : ℚ} (held : leaseOf worker id history = some expiry) :
    Past history expiry ∨ expiry ≤ now := by
  simp only [ExecutionJob.runnable, Bool.or_eq_true, Bool.and_eq_true, decide_eq_true_eq] at ready
  rcases ready with ⟨pending, _⟩ | ⟨running, expired⟩
  · exact .inl (guarded.pending job rfl pending worker expiry held)
  · rcases guarded.running job rfl running worker expiry held with past | ⟨_, shown⟩
    · exact .inl past
    · rw [ExecutionJob.leaseExpired, shown] at expired
      exact .inr (of_decide_eq_true expired)

/-- A job that has ended guards nothing. -/
theorem guarded_of_terminal {job : ExecutionJob} (named : job.id = id) (terminal : job.state.isTerminal = true) :
    Guarded id history (some job) where
  absent none := nomatch none
  named := by
    rintro j ⟨⟩
    exact named
  pending := by
    rintro j ⟨⟩ pending
    rw [pending] at terminal
    cases terminal
  running := by
    rintro j ⟨⟩ running
    exact absurd running (ExecutionState.not_running_of_terminal terminal)

/-- A job that is due again, all of whose leases ran out. -/
theorem guarded_of_pending {job : ExecutionJob} (named : job.id = id) (pending : job.state = .pending)
    (ranOut : ∀ worker expiry, leaseOf worker id history = some expiry → Past history expiry) :
    Guarded id history (some job) where
  absent none := nomatch none
  named := by
    rintro j ⟨⟩
    exact named
  pending := by
    rintro j ⟨⟩ _
    exact ranOut
  running := by
    rintro j ⟨⟩ running
    rw [pending] at running
    cases running

/-- One call keeps the leases on a job those that the job shows. -/
theorem Guarded.step {before after : Option ExecutionJob} (guarded : Guarded id history before)
    (moves : Moves retry request reply id before after)
    (offered : ∀ job, request.call = .enqueue job → job.state = .pending)
    (spares : ∀ error now job, request.call = .fail id error now → before = some job → job.state = .running →
      job.leaseOwner ≠ some request.caller → job.leaseExpired now = false → retry.maxAttempts ≤ job.attempts) :
    Guarded id (history ++ [(request, reply)]) after := by
  cases moves with
  | kept quiet unrenewed =>
    have same : ∀ worker expiry, leaseOf worker id (history ++ [(request, reply)]) = some expiry →
        leaseOf worker id history = some expiry := by
      intro worker expiry held
      rw [leaseOf_snoc] at held
      exact noteLease_quiet quiet unrenewed held
    refine ⟨?_, guarded.named, ?_, ?_⟩
    · intro none worker
      rw [Option.eq_none_iff_forall_ne_some]
      intro expiry held
      have earlier := same worker expiry held
      rw [guarded.absent none worker] at earlier
      cases earlier
    · intro j stored pending worker expiry held
      exact (guarded.pending j stored pending worker expiry (same worker expiry held)).snoc
    · intro j stored running worker expiry held
      exact (guarded.running j stored running worker expiry (same worker expiry held)).imp_left Past.snoc
  | @enqueued job call named =>
    refine guarded_of_pending named (offered job call) ?_
    intro worker expiry held
    have same : noteLease worker id (leaseOf worker id history) (request, reply) = leaseOf worker id history := by
      simp only [noteLease, call]
    rw [leaseOf_snoc, same, guarded.absent rfl worker] at held
    cases held
  | @claimed job workerId now leaseSeconds call ready budget out =>
    have time : request.time = some now := by simp only [Request.time, call]
    refine ⟨nofun, ?_, ?_, ?_⟩
    · rintro j ⟨⟩
      exact guarded.named job rfl
    · rintro j ⟨⟩ pending
      cases pending
    · rintro j ⟨⟩ _ worker expiry held
      rw [leaseOf_snoc] at held
      rcases noteLease_cases held with earlier | ⟨now', lease', out', call', _, _, rfl⟩ | ⟨now', lease', call', _⟩
      · exact .inl ((guarded.runs_out ready earlier).elim Past.snoc (Past.of_le time))
      · rw [call] at call'
        cases call'
        exact .inr ⟨rfl, rfl⟩
      · rw [call] at call'
        cases call'
  | @exceeded job workerId now leaseSeconds call ready spent quiet =>
    exact guarded_of_terminal (guarded.named job rfl) rfl
  | @renewed job workerId now leaseSeconds call running owned done =>
    refine ⟨nofun, ?_, ?_, ?_⟩
    · rintro j ⟨⟩
      exact guarded.named job rfl
    · rintro j ⟨⟩ pending
      exact absurd (running.symm.trans pending) (by decide)
    · rintro j ⟨⟩ _ worker expiry held
      have noted : noteLease worker id (leaseOf worker id history) (request, reply) =
          if workerId = worker ∧ id = id then some (now + leaseSeconds) else leaseOf worker id history := by
        simp only [noteLease, call, done]
      rw [leaseOf_snoc, noted] at held
      split at held
      · rename_i own
        cases held
        rw [← own.1]
        exact .inr ⟨owned, rfl⟩
      · rename_i other
        rcases guarded.running job rfl running worker expiry held with past | ⟨owner, _⟩
        · exact .inl past.snoc
        · rw [owned] at owner
          exact absurd ⟨Option.some.inj owner, rfl⟩ other
  | @completed job result now call live =>
    exact guarded_of_terminal (guarded.named job rfl) rfl
  | @failed job error now call live out =>
    have newId : (job.failed retry error now).id = id := (job.failed_id retry error now).trans (guarded.named job rfl)
    have time : request.time = some now := by simp only [Request.time, call]
    rcases job.failed_state retry error now with ⟨_, dead⟩ | ⟨left, due, _⟩
    · refine guarded_of_terminal newId ?_
      rw [dead]
      rfl
    · refine guarded_of_pending newId due ?_
      intro worker expiry held
      have noted : noteLease worker id (leaseOf worker id history) (request, reply) =
          if request.caller = worker ∧ id = id then none else leaseOf worker id history := by
        simp only [noteLease, call, out]
      rw [leaseOf_snoc, noted] at held
      split at held
      · cases held
      · rename_i other
        cases state : job.state with
        | pending => exact (guarded.pending job rfl state worker expiry held).snoc
        | running =>
          rcases guarded.running job rfl state worker expiry held with past | ⟨owner, shown⟩
          · exact past.snoc
          · -- the owner is another worker, so its lease has run out
            have apart : job.leaseOwner ≠ some request.caller := by
              rw [owner]
              intro same
              exact other ⟨(Option.some.inj same).symm, rfl⟩
            cases expired : job.leaseExpired now with
            | true =>
              rw [ExecutionJob.leaseExpired, shown] at expired
              exact .of_le time (of_decide_eq_true expired)
            | false => exact absurd (spares error now job call rfl state apart expired) (not_le.mpr left)
        | succeeded | deadLetter | cancelled =>
          rw [state] at live
          cases live
  | @cancelled job now call live =>
    exact guarded_of_terminal (guarded.named job rfl) rfl
  | @recovered job now call stale =>
    have time : request.time = some now := by simp only [Request.time, call]
    refine guarded_of_pending (guarded.named job rfl) rfl ?_
    intro worker expiry held
    have same : noteLease worker id (leaseOf worker id history) (request, reply) = leaseOf worker id history := by
      simp only [noteLease, call]
    rw [leaseOf_snoc, same] at held
    have ready : job.runnable now = true := by
      rw [ExecutionJob.stale] at stale
      rw [ExecutionJob.runnable, stale, Bool.or_true]
    exact (guarded.runs_out ready held).elim Past.snoc (Past.of_le time)

/-- What one worker at a time asks of every call. -/
def Exclusive (retry : RetryPolicy) (history : History) (s : Store) (request : Request) : Prop :=
  Disciplined history request ∧ SparesOwner retry s request ∧ ¬ s.Overwrites request

theorem Exclusive.step {s t : Store} (inv : (∃ m, s.Shows m) ∧ ∀ id, Guarded id history (s.get? id))
    (exclusive : Exclusive retry history s request) (stepped : s.act retry request = some (t, reply)) :
    (∃ m, t.Shows m) ∧ ∀ id, Guarded id (history ++ [(request, reply)]) (t.get? id) := by
  obtain ⟨⟨m, shows⟩, guarded⟩ := inv
  obtain ⟨⟨_, disciplined⟩, spares, keeps⟩ := exclusive
  obtain ⟨shown, moves⟩ := shows.act_moves keeps stepped
  refine ⟨shown, fun id => (guarded id).step (moves id) ?_ ?_⟩
  · intro job call
    simp only [call] at disciplined
    exact disciplined
  · intro error now job call stored
    simp only [SparesOwner, call, stored] at spares
    exact spares

theorem guarded_nil : Guarded id [] none := by
  refine ⟨fun _ _ => rfl, fun j none => ?_, fun j none => ?_, fun j none => ?_⟩ <;> cases none

/-- One worker at a time: in every run in which no attempt is failed that another worker is at, a
job is handed out only when every lease on it has run out that was granted and not given up. -/
theorem claim_exclusive (adapter : Adapter) (retry : RetryPolicy) {history : History} {s t : Store}
    (run : Run (Store.act retry) (Exclusive retry) adapter.empty history s)
    (exclusive : Exclusive retry history s request) (stepped : s.act retry request = some (t, reply))
    {workerId : String} {now leaseSeconds : ℚ} (call : request.call = .claimNext workerId now leaseSeconds)
    {out : ExecutionJob} (handed : reply = .job (some out)) {other : String} {expiry : ℚ}
    (held : leaseOf other out.id history = some expiry) : expiry ≤ now := by
  have start : (∃ m, adapter.empty.Shows m) ∧ ∀ id, Guarded id [] (adapter.empty.get? id) := by
    refine ⟨⟨_, Store.empty_shows adapter⟩, fun id => ?_⟩
    have absent : adapter.empty.get? id = none := (Store.empty_shows adapter).get? id
    exact absent ▸ guarded_nil
  obtain ⟨⟨m, shows⟩, guarded⟩ := run.invariant
    (fun history s => (∃ m, s.Shows m) ∧ ∀ id, Guarded id history (s.get? id)) start Exclusive.step
  have hands : request.handedOut reply = some out := by simp only [Request.handedOut, call, handed]
  have notBefore : NotBefore history now := exclusive.1.1 now (by simp only [Request.time, call, Option.mem_def])
  obtain ⟨_, moves⟩ := shows.act_moves exclusive.2.2 stepped
  have shown := guarded out.id
  have move := moves out.id
  cases stored : s.get? out.id with
  | none =>
    have none := shown.absent stored other
    rw [held] at none
    cases none
  | some job =>
    rw [stored] at shown move
    generalize t.get? out.id = after at move
    cases move with
    | kept quiet | exceeded _ _ _ quiet => exact absurd rfl (quiet.handedOut out hands)
    | claimed call' ready =>
      rw [call] at call'
      cases call'
      exact (shown.runs_out ready held).elim (fun past => past now notBefore) id
    | renewed call' | completed call' | failed call' | cancelled call' | recovered call' =>
      rw [call] at call'
      cases call'

/-- A worker whose lease has run out reports its failure while another one is at the job. -/
def lateFailure : List Request :=
  [⟨"", .enqueue (dueJob "job" "key"), fun _ => 0⟩, ⟨"w1", .claimNext "w1" 0 60, fun _ => 0⟩,
    ⟨"w2", .claimNext "w2" 90 60, fun _ => 0⟩, ⟨"w1", .fail "job" "late" 91, fun _ => 0⟩]

/-- The job that a reply hands out. -/
def Reply.job? : Reply → Option ExecutionJob
  | .job out => out
  | _ => none

theorem Reply.job?_eq_some {out : ExecutionJob} (handed : reply.job? = some out) : reply = .job (some out) := by
  cases reply with
  | job out =>
    cases handed
    rfl
  | _ => cases handed

/-- The job is due again, and a third worker gets it while the second one's lease still runs. -/
theorem claim_while_leased : ∃ history s t reply out,
    Run (Store.act {}) (fun history _ request => Disciplined history request) Adapter.sqlite.empty history s ∧
    Disciplined history ⟨"w3", .claimNext "w3" 93 60, fun _ => 0⟩ ∧
    s.act {} ⟨"w3", .claimNext "w3" 93 60, fun _ => 0⟩ = some (t, reply) ∧ reply = .job (some out) ∧
    leaseOf "w2" out.id history = some 150 := by
  have taken : ((follow (Store.act {}) (fun history _ request => decide (Disciplined history request)) []
      Adapter.sqlite.empty lateFailure).bind fun ended =>
        (ended.2.act {} ⟨"w3", .claimNext "w3" 93 60, fun _ => 0⟩).map fun after =>
          (decide (Disciplined ended.1 ⟨"w3", .claimNext "w3" 93 60, fun _ => 0⟩),
            after.2.job?.bind fun out => leaseOf "w2" out.id ended.1)) = some (true, some 150) := by decide +kernel
  obtain ⟨⟨history, s⟩, followed, later⟩ := Option.bind_eq_some_iff.mp taken
  obtain ⟨⟨t, reply⟩, stepped, facts⟩ := Option.map_eq_some_iff.mp later
  simp only [Prod.mk.injEq] at facts
  obtain ⟨disciplined, leased⟩ := facts
  obtain ⟨out, handed, leased⟩ := Option.bind_eq_some_iff.mp leased
  exact ⟨history, s, t, reply, out, (Run.follow .start followed).mono of_decide_eq_true,
    of_decide_eq_true disciplined, stepped, Reply.job?_eq_some handed, leased⟩

instance (retry : RetryPolicy) (history : History) (s : Store) (request : Request) :
    Decidable (Exclusive retry history s request) :=
  inferInstanceAs (Decidable (_ ∧ _ ∧ _))

/-- A second worker is handed the job when the first one's lease has run out. -/
theorem claim_exclusive_sample : ∃ history s t out,
    Run (Store.act {}) (Exclusive {}) Adapter.memory.empty history s ∧
    s.act {} ⟨"w2", .claimNext "w2" 90 60, fun _ => 0⟩ = some (t, .job (some out)) ∧
    leaseOf "w1" out.id history = some 60 ∧ (60 : ℚ) ≤ 90 := by
  have taken : ((follow (Store.act {}) (fun history s request => decide (Exclusive {} history s request)) []
      Adapter.memory.empty (lateFailure.take 2)).bind fun ended =>
        (ended.2.act {} ⟨"w2", .claimNext "w2" 90 60, fun _ => 0⟩).map fun after =>
          (decide (Exclusive {} ended.1 ended.2 ⟨"w2", .claimNext "w2" 90 60, fun _ => 0⟩),
            after.2.job?.bind fun out => leaseOf "w1" out.id ended.1)) = some (true, some 60) := by decide +kernel
  obtain ⟨⟨history, s⟩, followed, later⟩ := Option.bind_eq_some_iff.mp taken
  obtain ⟨⟨t, reply⟩, stepped, facts⟩ := Option.map_eq_some_iff.mp later
  simp only [Prod.mk.injEq] at facts
  obtain ⟨exclusive, leased⟩ := facts
  have run : Run (Store.act {}) (Exclusive {}) Adapter.memory.empty history s :=
    (Run.follow .start followed).mono of_decide_eq_true
  obtain ⟨out, handed, leased⟩ := Option.bind_eq_some_iff.mp leased
  rw [Reply.job?_eq_some handed] at stepped
  exact ⟨history, s, t, out, run, stepped, leased,
    claim_exclusive .memory {} run (of_decide_eq_true exclusive) stepped rfl rfl leased⟩

end MetadataGraph.Execution
