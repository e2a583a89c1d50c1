import MetadataGraph.Execution.Stores

namespace MetadataGraph.Execution

open Runs

abbrev History := List (Request × Reply)

/-- How often the job under an id was handed out. -/
def handOuts (id : String) (history : History) : ℕ :=
  history.countP fun event => (event.1.handedOut event.2).any (·.id = id)

/-- The last failure of a job that waits since: when it was, and after how many attempts. -/
def noteFailure (id : String) (last : Option (ℚ × ℤ)) (event : Request × Reply) : Option (ℚ × ℤ) :=
  match event.1.rescheduled event.2 with
  | some (job, now) => if job.id = id then some (now, job.attempts) else last
  | none => if (event.1.handedOut event.2).any (·.id = id) then none else last

def failure (id : String) (history : History) : Option (ℚ × ℤ) := history.foldl (noteFailure id) none

/-- A job is offered as one that nobody has begun. -/
def Request.Unbegun (request : Request) : Prop :=
  match request.call with
  | .enqueue job => job.state = .pending ∧ job.attempts = 0
  | _ => True

/-- A job is offered without a lease. -/
def Request.Unleased (request : Request) : Prop :=
  match request.call with
  | .enqueue job => job.leaseOwner = none ∧ job.leaseExpiry = none
  | _ => True

instance (request : Request) : Decidable request.Unbegun :=
  match request with
  | ⟨_, .enqueue job, _⟩ => inferInstanceAs (Decidable (job.state = .pending ∧ job.attempts = 0))
  | ⟨_, .claimNext .., _⟩ | ⟨_, .renewLease .., _⟩ | ⟨_, .complete .., _⟩ | ⟨_, .fail .., _⟩ | ⟨_, .cancel .., _⟩
  | ⟨_, .recoverStale .., _⟩ | ⟨_, .get .., _⟩ | ⟨_, .listJobs .., _⟩ | ⟨_, .reopen, _⟩ => isTrue trivial

instance (request : Request) : Decidable request.Unleased :=
  match request with
  | ⟨_, .enqueue job, _⟩ => inferInstanceAs (Decidable (job.leaseOwner = none ∧ job.leaseExpiry = none))
  | ⟨_, .claimNext .., _⟩ | ⟨_, .renewLease .., _⟩ | ⟨_, .complete .., _⟩ | ⟨_, .fail .., _⟩ | ⟨_, .cancel .., _⟩
  | ⟨_, .recoverStale .., _⟩ | ⟨_, .get .., _⟩ | ⟨_, .listJobs .., _⟩ | ⟨_, .reopen, _⟩ => isTrue trivial

/-- Running on a lease, or not running and without one. -/
def ExecutionJob.LeasedIfRunning (job : ExecutionJob) : Prop :=
  (job.state = .running ∧ job.leaseOwner.isSome ∧ job.leaseExpiry.isSome) ∨
    (job.state ≠ .running ∧ job.leaseOwner = none ∧ job.leaseExpiry = none)

/-- What the history of a store says about the job under an id. -/
structure Lived (retry : RetryPolicy) (id : String) (history : History) (job : Option ExecutionJob) : Prop where
  named : ∀ j, job = some j → j.id = id
  absent : job = none → handOuts id history = 0 ∧ failure id history = none
  handOuts_le : (handOuts id history : ℤ) ≤ retry.maxAttempts
  counted : ∀ j, job = some j → (handOuts id history : ℤ) ≤ j.attempts
  lease : ∀ j, job = some j → j.LeasedIfRunning
  waits : ∀ j, job = some j → ∀ now attempts, failure id history = some (now, attempts) →
    j.state.isTerminal = true ∨ (j.state = .pending ∧ j.runAt = now + retry.backoffSeconds attempts)

variable {retry : RetryPolicy} {id : String} {history : History} {request : Request} {reply : Reply}

theorem handOuts_snoc : handOuts id (history ++ [(request, reply)]) =
    handOuts id history + if (request.handedOut reply).any (·.id = id) then 1 else 0 := by
  rw [handOuts, handOuts, List.countP_append, List.countP_singleton]

theorem failure_snoc :
    failure id (history ++ [(request, reply)]) = noteFailure id (failure id history) (request, reply) := by
  rw [failure, failure, List.foldl_append]
  rfl

theorem Quiet.any_handedOut (quiet : Quiet request reply id) : (request.handedOut reply).any (·.id = id) = false := by
  cases handed : request.handedOut reply with
  | none => rfl
  | some job =>
    rw [Option.any_some]
    exact decide_eq_false (quiet.handedOut job handed)

theorem Quiet.handOuts (quiet : Quiet request reply id) :
    handOuts id (history ++ [(request, reply)]) = Execution.handOuts id history := by
  rw [handOuts_snoc, quiet.any_handedOut]
  rfl

theorem Quiet.failure (quiet : Quiet request reply id) :
    failure id (history ++ [(request, reply)]) = Execution.failure id history := by
  rw [failure_snoc, noteFailure]
  dsimp only
  split
  · rename_i job now rescheduled
    rw [if_neg (quiet.rescheduled job now rescheduled)]
  · rw [quiet.any_handedOut]
    rfl

theorem ExecutionState.not_running_of_terminal {state : ExecutionState} (terminal : state.isTerminal = true) :
    state ≠ .running := by
  rintro rfl
  cases terminal

/-- A call that neither hands the job out nor makes it due, and ends it or finds it running. -/
theorem Lived.quiet {old new : ExecutionJob} (lived : Lived retry id history (some old))
    (quiet : Quiet request reply id) (sameId : new.id = old.id) (attempts : old.attempts ≤ new.attempts) (lease : new.LeasedIfRunning)
    (settled : new.state.isTerminal = true ∨ old.state = .running) :
    Lived retry id (history ++ [(request, reply)]) (some new) where
  named := by
    rintro j ⟨⟩
    exact sameId.trans (lived.named old rfl)
  absent none := nomatch none
  handOuts_le := by
    rw [quiet.handOuts]
    exact lived.handOuts_le
  counted := by
    rintro j ⟨⟩
    rw [quiet.handOuts]
    exact (lived.counted old rfl).trans attempts
  lease := by
    rintro j ⟨⟩
    exact lease
  waits := by
    rintro j ⟨⟩ now n failed
    rw [quiet.failure] at failed
    rcases settled with terminal | running
    · exact .inl terminal
    · rcases lived.waits old rfl now n failed with terminal | ⟨pending, _⟩
      · exact absurd running (ExecutionState.not_running_of_terminal terminal)
      · rw [running] at pending
        cases pending

theorem ExecutionJob.failed_state (retry : RetryPolicy) (error : String) (now : ℚ) (job : ExecutionJob) :
    (retry.maxAttempts ≤ job.attempts ∧ (job.failed retry error now).state = .deadLetter) ∨
      (job.attempts < retry.maxAttempts ∧ (job.failed retry error now).state = .pending ∧
        (job.failed retry error now).runAt = now + retry.backoffSeconds job.attempts) := by
  rw [failed]
  split
  · rename_i spent
    exact .inl ⟨spent, rfl⟩
  · rename_i left
    exact .inr ⟨not_le.mp left, rfl, rfl⟩

theorem ExecutionJob.failed_frame (retry : RetryPolicy) (error : String) (now : ℚ) (job : ExecutionJob) :
    (job.failed retry error now).attempts = job.attempts ∧ (job.failed retry error now).leaseOwner = none ∧
      (job.failed retry error now).leaseExpiry = none := by
  rw [failed]
  split <;> exact ⟨rfl, rfl, rfl⟩

/-- One call keeps what the history says about a job. -/
theorem Lived.step {before after : Option ExecutionJob} (lived : Lived retry id history before)
    (moves : Moves retry request reply id before after) (unbegun : request.Unbegun) (unleased : request.Unleased) :
    Lived retry id (history ++ [(request, reply)]) after := by
  cases moves with
  | kept quiet =>
    constructor
    · exact lived.named
    · rw [quiet.handOuts, quiet.failure]
      exact lived.absent
    · rw [quiet.handOuts]
      exact lived.handOuts_le
    · rw [quiet.handOuts]
      exact lived.counted
    · exact lived.lease
    · rw [quiet.failure]
      exact lived.waits
  | @enqueued job call named =>
    simp only [Request.Unbegun, call] at unbegun
    simp only [Request.Unleased, call] at unleased
    obtain ⟨pending, zero⟩ := unbegun
    obtain ⟨owner, expiry⟩ := unleased
    obtain ⟨none_out, none_failed⟩ := lived.absent rfl
    have quiet : Quiet request reply id := by
      refine .silent ?_ ?_
      · simp only [Request.handedOut, call]
      · simp only [Request.rescheduled, call]
    constructor
    · rintro j ⟨⟩
      exact named
    · exact fun none => by cases none
    · rw [quiet.handOuts]
      exact lived.handOuts_le
    · rintro j ⟨⟩
      rw [quiet.handOuts, none_out, zero]
      exact le_rfl
    · rintro j ⟨⟩
      refine .inr ⟨?_, owner, expiry⟩
      rw [pending]
      decide
    · rintro j ⟨⟩ now n failed
      rw [quiet.failure, none_failed] at failed
      cases failed
  | @claimed job workerId now leaseSeconds call ready budget out =>
    have own := lived.named job rfl
    have handed : request.handedOut reply = some ((job.begun now).leased workerId now leaseSeconds) := by
      simp only [Request.handedOut, call, out]
    have counts : (request.handedOut reply).any (·.id = id) = true := by
      rw [handed, Option.any_some]
      exact decide_eq_true own
    have count := lived.counted job rfl
    constructor
    · rintro j ⟨⟩
      exact own
    · exact fun none => by cases none
    · rw [handOuts_snoc, if_pos counts]
      push_cast
      omega
    · rintro j ⟨⟩
      rw [handOuts_snoc, if_pos counts]
      change _ ≤ job.attempts + 1
      push_cast
      omega
    · rintro j ⟨⟩
      exact .inl ⟨rfl, rfl, rfl⟩
    · intro j _ time n failed
      have none_failed : request.rescheduled reply = none := by simp only [Request.rescheduled, call]
      rw [failure_snoc, noteFailure, none_failed] at failed
      dsimp only at failed
      rw [if_pos counts] at failed
      cases failed
  | @exceeded job workerId now leaseSeconds call ready spent quiet =>
    refine lived.quiet quiet rfl ?_ (.inr ⟨?_, rfl, rfl⟩) (.inl rfl)
    · exact (lt_add_one job.attempts).le
    · exact ExecutionState.not_running_of_terminal rfl
  | @renewed job workerId now leaseSeconds call running owned done =>
    refine lived.quiet (.silent (by simp only [Request.handedOut, call]) (by simp only [Request.rescheduled, call]))
      rfl le_rfl (.inl ⟨running, ?_, rfl⟩) (.inr running)
    exact Option.isSome_iff_exists.mpr ⟨workerId, owned⟩
  | @completed job result now call live =>
    exact lived.quiet (.silent (by simp only [Request.handedOut, call]) (by simp only [Request.rescheduled, call]))
      rfl le_rfl (.inr ⟨ExecutionState.not_running_of_terminal rfl, rfl, rfl⟩) (.inl rfl)
  | @failed job error now call live out =>
    have own := lived.named job rfl
    have newId : (job.failed retry error now).id = id := (job.failed_id retry error now).trans own
    obtain ⟨attempts, owner, expiry⟩ := job.failed_frame retry error now
    rcases job.failed_state retry error now with ⟨spent, dead⟩ | ⟨left, pending, due⟩
    · have silent : request.rescheduled reply = none := by
        simp only [Request.rescheduled, call, out, dead]
        rfl
      refine lived.quiet (.silent (by simp only [Request.handedOut, call]) silent) (job.failed_id retry error now)
        attempts.ge (.inr ⟨?_, owner, expiry⟩) (.inl ?_)
      · rw [dead]
        decide
      · rw [dead]
        rfl
    · have silent : request.handedOut reply = none := by simp only [Request.handedOut, call]
      have loud : request.rescheduled reply = some (job.failed retry error now, now) := by
        simp only [Request.rescheduled, call, out, pending]
        rfl
      have noted : failure id (history ++ [(request, reply)]) = some (now, job.attempts) := by
        rw [failure_snoc, noteFailure, loud]
        dsimp only
        rw [if_pos newId, attempts]
      have count : handOuts id (history ++ [(request, reply)]) = handOuts id history := by
        rw [handOuts_snoc, silent]
        rfl
      constructor
      · rintro j ⟨⟩
        exact newId
      · exact fun none => by cases none
      · rw [count]
        exact lived.handOuts_le
      · rintro j ⟨⟩
        rw [count, attempts]
        exact lived.counted job rfl
      · rintro j ⟨⟩
        refine .inr ⟨?_, owner, expiry⟩
        rw [pending]
        decide
      · rintro j ⟨⟩ time n failed
        rw [noted] at failed
        cases failed
        exact .inr ⟨pending, due⟩
  | @cancelled job now call live =>
    exact lived.quiet (.silent (by simp only [Request.handedOut, call]) (by simp only [Request.rescheduled, call]))
      rfl le_rfl (.inr ⟨ExecutionState.not_running_of_terminal rfl, rfl, rfl⟩) (.inl rfl)
  | @recovered job now call stale =>
    have running : job.state = .running := by
      rw [ExecutionJob.stale, Bool.and_eq_true, decide_eq_true_eq] at stale
      exact stale.1
    refine lived.quiet (.silent (by simp only [Request.handedOut, call]) (by simp only [Request.rescheduled, call]))
      rfl le_rfl (.inr ⟨?_, rfl, rfl⟩) (.inr running)
    exact show ExecutionState.pending ≠ .running by decide

theorem ExecutionJob.runnable_state {job : ExecutionJob} {now : ℚ} (ready : job.runnable now = true) :
    job.state.isTerminal = false := by
  simp only [runnable, Bool.or_eq_true, Bool.and_eq_true, decide_eq_true_eq] at ready
  rcases ready with ⟨pending, _⟩ | ⟨running, _⟩
  · rw [pending]
    rfl
  · rw [running]
    rfl

/-- No call changes a job that has come to its end. -/
theorem Moves.terminal {job : ExecutionJob} {after : Option ExecutionJob}
    (moves : Moves retry request reply id (some job) after) (done : job.state.isTerminal = true) :
    after = some job := by
  cases moves with
  | kept => rfl
  | claimed _ ready | exceeded _ ready =>
    rw [ExecutionJob.runnable_state ready] at done
    cases done
  | renewed _ running =>
    rw [running] at done
    cases done
  | completed _ live | failed _ live | cancelled _ live =>
    rw [live] at done
    cases done
  | recovered _ stale =>
    rw [ExecutionJob.stale, Bool.and_eq_true, decide_eq_true_eq] at stale
    rw [stale.1] at done
    cases done

/-- No call takes a job away, or changes its key. -/
theorem Moves.key {job : ExecutionJob} {after : Option ExecutionJob}
    (moves : Moves retry request reply id (some job) after) :
    ∃ next, after = some next ∧ next.idempotencyKey = job.idempotencyKey := by
  cases moves with
  | failed => exact ⟨_, rfl, job.failed_idempotencyKey retry _ _⟩
  | _ => exact ⟨_, rfl, rfl⟩

/-- A call that offers nothing but a new job, not begun and not leased. -/
def Store.Offers (s : Store) (request : Request) : Prop :=
  request.Unbegun ∧ request.Unleased ∧ ¬ s.Overwrites request

instance (s : Store) (request : Request) : Decidable (s.Offers request) := inferInstanceAs (Decidable (_ ∧ _))

/-- The store is of its kind, and every job of it is as the history says. -/
def Store.Lived (retry : RetryPolicy) (history : History) (s : Store) : Prop :=
  (∃ m, s.Shows m) ∧ ∀ id, Execution.Lived retry id history (s.get? id)

theorem Store.Lived.step {s t : Store} (lived : s.Lived retry history) (offers : s.Offers request)
    (stepped : s.act retry request = some (t, reply)) : t.Lived retry (history ++ [(request, reply)]) := by
  obtain ⟨⟨m, shows⟩, jobs⟩ := lived
  obtain ⟨unbegun, unleased, spares⟩ := offers
  obtain ⟨shown, moves⟩ := shows.act_moves spares stepped
  exact ⟨shown, fun id => (jobs id).step (moves id) unbegun unleased⟩

theorem lived_nil : Lived retry id [] none := by
  refine ⟨fun j none => ?_, fun _ => ⟨rfl, rfl⟩, ?_, fun j none => ?_, fun j none => ?_, fun j none => ?_⟩
  · cases none
  · exact zero_le_one.trans retry.one_le_maxAttempts
  · cases none
  · cases none
  · cases none

theorem Store.lived_empty (adapter : Adapter) : adapter.empty.Lived retry [] := by
  refine ⟨⟨_, empty_shows adapter⟩, fun id => ?_⟩
  have absent : adapter.empty.get? id = none := (empty_shows adapter).get? id
  exact absent ▸ lived_nil

/-- A job handed out after a failure has waited for its backoff. -/
theorem Lived.backoff {before after : Option ExecutionJob} (lived : Lived retry id history before)
    (moves : Moves retry request reply id before after) {workerId : String} {now leaseSeconds : ℚ}
    (call : request.call = .claimNext workerId now leaseSeconds) {out : ExecutionJob}
    (handed : reply = .job (some out)) (named : out.id = id) {time : ℚ} {attempts : ℤ}
    (failed : failure id history = some (time, attempts)) : time + retry.backoffSeconds attempts ≤ now := by
  have hands : request.handedOut reply = some out := by simp only [Request.handedOut, call, handed]
  cases moves with
  | kept quiet | exceeded _ _ _ quiet => exact absurd named (quiet.handedOut out hands)
  | @claimed job _ _ _ call' ready =>
    rw [call] at call'
    cases call'
    rcases lived.waits job rfl time attempts failed with terminal | ⟨pending, due⟩
    · rw [ExecutionJob.runnable_state ready] at terminal
      cases terminal
    · simp only [ExecutionJob.runnable, pending, reduceCtorEq, decide_true, Bool.true_and, decide_false, Bool.false_and,
        Bool.or_false, decide_eq_true_eq] at ready
      rw [← due]
      exact ready
  | enqueued call' | renewed call' | completed call' | failed call' | cancelled call' | recovered call' =>
    rw [call] at call'
    cases call'

/-- The job is claimed and completed. -/
def finishedRun : List Request :=
  [⟨"", .enqueue (dueJob "job" "first"), fun _ => 0⟩, ⟨"", .claimNext "w1" 0 60, fun _ => 0⟩,
    ⟨"w1", .complete "job" none 1, fun _ => 0⟩]

end MetadataGraph.Execution
