import MetadataGraph.Execution.Memory

namespace MetadataGraph.Execution

open StableSort

/-- The job that a call of `claim_next` hands to its worker. -/
def Request.handedOut (request : Request) (reply : Reply) : Option ExecutionJob :=
  match request.call, reply with
  | .claimNext _ _ _, .job job => job
  | _, _ => none

/-- The job that a call of `fail` makes due again, and when it failed. -/
def Request.rescheduled (request : Request) (reply : Reply) : Option (ExecutionJob × ℚ) :=
  match request.call, reply with
  | .fail _ _ now, .job (some job) => if job.state = .pending then some (job, now) else none
  | _, _ => none

/-- The id of the job whose lease a call extends. -/
def Request.renewed (request : Request) (reply : Reply) : Option String :=
  match request.call, reply with
  | .renewLease jobId _ _ _, .flag true => some jobId
  | _, _ => none

/-- The call neither hands the job out nor makes it due again. -/
structure Quiet (request : Request) (reply : Reply) (id : String) : Prop where
  handedOut : ∀ job, request.handedOut reply = some job → job.id ≠ id
  rescheduled : ∀ job now, request.rescheduled reply = some (job, now) → job.id ≠ id

theorem Quiet.silent {request : Request} {reply : Reply} {id : String} (handed : request.handedOut reply = none)
    (failed : request.rescheduled reply = none) : Quiet request reply id where
  handedOut _ out := nomatch handed.symm.trans out
  rescheduled _ _ out := nomatch failed.symm.trans out

/-- The id under which a request offers a job. -/
def Request.offered (request : Request) : Option String :=
  match request.call with
  | .enqueue job => some job.id
  | _ => none

/-- What one call can do to the job under an id. -/
inductive Moves (retry : RetryPolicy) (request : Request) (reply : Reply) (id : String) :
    Option ExecutionJob → Option ExecutionJob → Prop where
  | kept {job : Option ExecutionJob} (quiet : Quiet request reply id) (unrenewed : request.renewed reply ≠ some id) :
      Moves retry request reply id job job
  | enqueued {job : ExecutionJob} (call : request.call = .enqueue job) (named : job.id = id) :
      Moves retry request reply id none (some job)
  | claimed {job : ExecutionJob} {workerId : String} {now leaseSeconds : ℚ}
      (call : request.call = .claimNext workerId now leaseSeconds) (ready : job.runnable now = true)
      (budget : job.attempts + 1 ≤ retry.maxAttempts)
      (out : reply = .job (some ((job.begun now).leased workerId now leaseSeconds))) :
      Moves retry request reply id (some job) (some ((job.begun now).leased workerId now leaseSeconds))
  | exceeded {job : ExecutionJob} {workerId : String} {now leaseSeconds : ℚ}
      (call : request.call = .claimNext workerId now leaseSeconds) (ready : job.runnable now = true)
      (spent : retry.maxAttempts < job.attempts + 1) (quiet : Quiet request reply id) :
      Moves retry request reply id (some job) (some ((job.begun now).exceeded now))
  | renewed {job : ExecutionJob} {workerId : String} {now leaseSeconds : ℚ}
      (call : request.call = .renewLease id workerId now leaseSeconds) (running : job.state = .running)
      (owned : job.leaseOwner = some workerId) (done : reply = .flag true) :
      Moves retry request reply id (some job) (some (job.renewed now leaseSeconds))
  | completed {job : ExecutionJob} {result : Option (Dict Json)} {now : ℚ}
      (call : request.call = .complete id result now) (live : job.state.isTerminal = false) :
      Moves retry request reply id (some job) (some (job.completed result now))
  | failed {job : ExecutionJob} {error : String} {now : ℚ} (call : request.call = .fail id error now)
      (live : job.state.isTerminal = false) (out : reply = .job (some (job.failed retry error now))) :
      Moves retry request reply id (some job) (some (job.failed retry error now))
  | cancelled {job : ExecutionJob} {now : ℚ} (call : request.call = .cancel id now)
      (live : job.state.isTerminal = false) :
      Moves retry request reply id (some job) (some (job.cancelled now))
  | recovered {job : ExecutionJob} {now : ℚ} (call : request.call = .recoverStale now)
      (stale : job.stale now = true) :
      Moves retry request reply id (some job) (some (job.recovered now))

theorem Moves.still {retry : RetryPolicy} {request : Request} {reply : Reply} {id : String} {job : Option ExecutionJob}
    (handed : request.handedOut reply = none) (failed : request.rescheduled reply = none)
    (renewed : request.renewed reply = none) : Moves retry request reply id job job :=
  .kept (.silent handed failed) fun same => nomatch renewed.symm.trans same

/-- Nothing appears under an id but a job that is offered. -/
theorem Moves.absent {retry : RetryPolicy} {request : Request} {reply : Reply} {id : String}
    {before after : Option ExecutionJob} (moves : Moves retry request reply id before after) (absent : before = none)
    (other : request.offered ≠ some id) : after = none := by
  cases moves with
  | kept => exact absent
  | enqueued call named =>
    refine absurd ?_ other
    rw [Request.offered, call]
    exact congrArg some named
  | _ => cases absent

namespace Memory

variable {m : Memory} {retry : RetryPolicy} {request : Request}

/-- The loop of `claim_next` leaves alone what is not a candidate. -/
theorem claimEach_frame (retry : RetryPolicy) (workerId : String) (now leaseSeconds : ℚ) {id : String} {candidates : List ExecutionJob}
    (other : id ∉ candidates.map ExecutionJob.id) :
    (claimEach retry workerId now leaseSeconds candidates m).2.jobs.get? id = m.jobs.get? id ∧
      ∀ out, (claimEach retry workerId now leaseSeconds candidates m).1 = some out → out.id ≠ id := by
  induction candidates generalizing m with
  | nil => exact ⟨rfl, fun _ none => nomatch none⟩
  | cons job rest ih =>
    rw [List.map_cons, List.mem_cons, not_or] at other
    rw [claimEach]
    dsimp only
    split
    · obtain ⟨same, quiet⟩ := ih (m := { m with jobs := m.jobs.put ((job.begun now).exceeded now) }) other.2
      exact ⟨same.trans (Catalogue.get?_put_other _ other.1), quiet⟩
    · refine ⟨Catalogue.get?_put_other _ other.1, ?_⟩
      rintro out ⟨⟩
      exact Ne.symm other.1

theorem claimEach_moves {workerId : String} {now leaseSeconds : ℚ}
    (call : request.call = .claimNext workerId now leaseSeconds) (id : String) {candidates : List ExecutionJob}
    (distinct : (candidates.map ExecutionJob.id).Nodup)
    (stored : ∀ job ∈ candidates, m.jobs.get? job.id = some job ∧ job.runnable now = true) :
    Moves retry request (.job (claimEach retry workerId now leaseSeconds candidates m).1) id (m.jobs.get? id)
      ((claimEach retry workerId now leaseSeconds candidates m).2.jobs.get? id) := by
  have quiet : ∀ {out : Option ExecutionJob} {id : String}, (∀ job, out = some job → job.id ≠ id) →
      Quiet request (.job out) id := by
    intro out id apart
    refine ⟨fun job handed => apart job ?_, fun job now none => ?_⟩
    · simp only [Request.handedOut, call] at handed
      exact handed
    · simp only [Request.rescheduled, call, reduceCtorEq] at none
  have unrenewed : ∀ {out : Option ExecutionJob} {id : String}, request.renewed (.job out) ≠ some id := by
    intro out id
    simp only [Request.renewed, call]
    exact nofun
  induction candidates generalizing m with
  | nil => exact .kept (quiet fun _ none => nomatch none) unrenewed
  | cons job rest ih =>
    rw [List.map_cons, List.nodup_cons] at distinct
    obtain ⟨here, ready⟩ := stored job List.mem_cons_self
    rw [claimEach]
    dsimp only
    split
    · rename_i spent
      by_cases same : id = job.id
      · subst same
        obtain ⟨frame, others⟩ := claimEach_frame retry
          (m := { m with jobs := m.jobs.put ((job.begun now).exceeded now) }) workerId now leaseSeconds distinct.1
        rw [frame, here, Catalogue.get?_put_self _ (show ((job.begun now).exceeded now).id = job.id from rfl)]
        exact .exceeded call ready spent (quiet others)
      · have next := ih (m := { m with jobs := m.jobs.put ((job.begun now).exceeded now) }) distinct.2 ?_
        · rw [Catalogue.get?_put_other _ (show id ≠ ((job.begun now).exceeded now).id from same)] at next
          exact next
        · intro other member
          obtain ⟨there, due⟩ := stored other (List.mem_cons_of_mem _ member)
          refine ⟨(Catalogue.get?_put_other _ fun clash => ?_).trans there, due⟩
          exact distinct.1 (List.mem_map.mpr ⟨other, member, clash⟩)
    · rename_i left
      dsimp only
      by_cases same : id = job.id
      · subst same
        rw [Catalogue.get?_put_self _ (show ((job.begun now).leased workerId now leaseSeconds).id = job.id from rfl), here]
        exact .claimed call ready (not_lt.mp left) rfl
      · rw [Catalogue.get?_put_other _ (show id ≠ ((job.begun now).leased workerId now leaseSeconds).id from same)]
        refine .kept (quiet ?_) unrenewed
        rintro out ⟨⟩
        exact Ne.symm same

/-- A job that is put back under its id. -/
theorem put_moves {reply : Reply} (id : String) {jobId : String} {old : ExecutionJob}
    (stored : m.jobs.get? jobId = some old) {new : ExecutionJob} (sameId : new.id = old.id)
    (quiet : id ≠ jobId → Quiet request reply id ∧ request.renewed reply ≠ some id)
    (moves : id = jobId → Moves retry request reply id (some old) (some new)) :
    Moves retry request reply id (m.jobs.get? id) ((m.jobs.put new).get? id) := by
  have own := sameId.trans (Catalogue.key_of_get? stored)
  by_cases same : id = jobId
  · rw [Catalogue.get?_put_self _ (own.trans same.symm), same, stored, ← same]
    exact moves same
  · rw [Catalogue.get?_put_other _ fun clash => same (clash.trans own)]
    exact .kept (quiet same).1 (quiet same).2

/-- A job is offered under a new key and under the id of a stored job. -/
def Overwrites (m : Memory) (request : Request) : Prop :=
  match request.call with
  | .enqueue job => m.byKey.get? job.idempotencyKey = none ∧ (m.jobs.get? job.id).isSome = true
  | _ => False

instance (m : Memory) (request : Request) : Decidable (m.Overwrites request) :=
  match request with
  | ⟨_, .enqueue job, _⟩ =>
    inferInstanceAs (Decidable (m.byKey.get? job.idempotencyKey = none ∧ (m.jobs.get? job.id).isSome = true))
  | ⟨_, .claimNext .., _⟩ | ⟨_, .renewLease .., _⟩ | ⟨_, .complete .., _⟩ | ⟨_, .fail .., _⟩ | ⟨_, .cancel .., _⟩
  | ⟨_, .recoverStale .., _⟩ | ⟨_, .get .., _⟩ | ⟨_, .listJobs .., _⟩ | ⟨_, .reopen, _⟩ => isFalse not_false

theorem overwrites_iff : m.Overwrites request ↔ ∃ job, request.call = .enqueue job ∧
    m.byKey.get? job.idempotencyKey = none ∧ (m.jobs.get? job.id).isSome = true := by
  rw [Overwrites]
  split
  · rename_i job call
    simp only [call, Call.enqueue.injEq, exists_eq_left']
  · rename_i other
    simp only [false_iff, not_exists, not_and]
    exact fun job call => absurd call (other job)

/-- Whatever a call does to the store, it does to the job under each id one of the moves. -/
theorem step_moves (retry : RetryPolicy) (m : Memory) (request : Request) (spares : ¬ m.Overwrites request)
    (id : String) :
    Moves retry request (m.step retry request).1 id (m.jobs.get? id) ((m.step retry request).2.jobs.get? id) := by
  obtain ⟨caller, call, rank⟩ := request
  rw [step]
  cases call with
  | enqueue job =>
    dsimp only
    rw [enqueue]
    split
    · split <;> exact .still rfl rfl rfl
    · rename_i unknown
      dsimp only
      by_cases same : job.id = id
      · have absent : m.jobs.get? job.id = none := by
          by_contra stored
          exact spares ⟨unknown, Option.isSome_iff_ne_none.mpr stored⟩
        rw [Catalogue.get?_put_self _ same, ← same, absent]
        exact .enqueued rfl rfl
      · rw [Catalogue.get?_put_other _ (Ne.symm same)]
        exact .still rfl rfl rfl
  | claimNext workerId now leaseSeconds =>
    have distinct : ((m.runnable rank now).map ExecutionJob.id).Nodup := by
      rw [runnable, ((perm_sortOn _).map _).nodup_iff]
      exact (List.filter_sublist.map _).nodup m.jobs.nodup_values
    refine claimEach_moves rfl id distinct ?_
    intro job member
    rw [runnable, mem_sortOn, List.mem_filter] at member
    exact ⟨Catalogue.get?_of_mem member.1, member.2⟩
  | renewLease jobId workerId now leaseSeconds =>
    dsimp only
    rw [renewLease]
    split
    · exact .still rfl rfl rfl
    · rename_i job stored
      split
      · exact .still rfl rfl rfl
      · rename_i held
        simp only [Bool.or_eq_true, decide_eq_true_eq, not_or, not_not] at held
        exact put_moves id stored rfl (fun other => ⟨.silent rfl rfl, fun same => other (Option.some.inj same).symm⟩)
          fun same => .renewed (congrArg (Call.renewLease · workerId now leaseSeconds) same.symm) held.1 held.2 rfl
  | complete jobId result now =>
    dsimp only
    rw [complete]
    split
    · exact .still rfl rfl rfl
    · rename_i job stored
      split
      · exact .still rfl rfl rfl
      · rename_i live
        exact put_moves id stored rfl (fun _ => ⟨.silent rfl rfl, fun no => (by cases no)⟩)
          fun same => .completed (congrArg (Call.complete · result now) same.symm) (Bool.eq_false_iff.mpr live)
  | fail jobId error now =>
    dsimp only
    rw [fail]
    split
    · exact .still rfl rfl rfl
    · rename_i job stored
      have own := Catalogue.key_of_get? stored
      split
      · rename_i done
        refine .still rfl ?_ rfl
        refine if_neg fun pending => ?_
        rw [pending] at done
        cases done
      · rename_i live
        refine put_moves id stored (job.failed_id retry error now) (fun other => ?_)
          fun same => .failed (congrArg (Call.fail · error now) same.symm) (Bool.eq_false_iff.mpr live) rfl
        refine ⟨⟨?_, ?_⟩, fun no => (by cases no)⟩
        · intro out handed
          cases handed
        · intro out time taken
          simp only [Request.rescheduled] at taken
          split at taken
          · cases taken
            rw [ExecutionJob.failed_id, own]
            exact Ne.symm other
          · cases taken
  | cancel jobId now =>
    dsimp only
    rw [cancel]
    split
    · exact .still rfl rfl rfl
    · rename_i job stored
      split
      · exact .still rfl rfl rfl
      · rename_i live
        exact put_moves id stored rfl (fun _ => ⟨.silent rfl rfl, fun no => (by cases no)⟩)
          fun same => .cancelled (congrArg (Call.cancel · now) same.symm) (Bool.eq_false_iff.mpr live)
  | recoverStale now =>
    dsimp only
    rw [recoverStale]
    dsimp only
    rw [Catalogue.get?_change]
    cases m.jobs.get? id with
    | none => exact .still rfl rfl rfl
    | some job =>
      rw [Option.map_some, ExecutionJob.swept]
      split
      · rename_i stale
        exact .recovered rfl stale
      · exact .still rfl rfl rfl
  | get jobId => exact .still rfl rfl rfl
  | listJobs states agentId kind limit => exact .still rfl rfl rfl
  | reopen => exact .still rfl rfl rfl

end Memory

end MetadataGraph.Execution
