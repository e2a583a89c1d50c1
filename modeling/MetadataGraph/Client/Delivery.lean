import MetadataGraph.Client.Outbound

namespace MetadataGraph.Client

open Runs

variable {α : Type}

/-! ### Numbered op objects -/

theorem numberFrom_append (n : Nat) (xs ys : List α) :
    numberFrom n (xs ++ ys) = numberFrom n xs ++ numberFrom (n + xs.length) ys := by
  induction xs generalizing n with
  | nil => rfl
  | cons x xs ih =>
    rw [List.cons_append, numberFrom, numberFrom, ih, List.length_cons, List.cons_append]
    congr 3
    omega

theorem numberFrom_bounds {n : Nat} {ops : List α} {o : QueuedOp α} (member : o ∈ numberFrom n ops) :
    n ≤ o.ref ∧ o.ref < n + ops.length := by
  induction ops generalizing n with
  | nil => cases member
  | cons op ops ih =>
    rcases List.mem_cons.mp member with rfl | later
    · simp
    · have bounds := ih later
      rw [List.length_cons]
      omega

theorem numberFrom_nodup (n : Nat) (ops : List α) : ((numberFrom n ops).map (·.ref)).Nodup := by
  induction ops generalizing n with
  | nil => exact List.nodup_nil
  | cons op ops ih =>
    rw [numberFrom, List.map_cons, List.nodup_cons]
    refine ⟨fun member => ?_, ih (n + 1)⟩
    obtain ⟨o, later, same⟩ := List.mem_map.mp member
    have bounds := numberFrom_bounds later
    dsimp only at same
    omega

/-- Op objects with other numbers than those of a list are what its filter keeps. -/
theorem filter_settled_append {batch rest : List (QueuedOp α)} (distinct : ((batch ++ rest).map (·.ref)).Nodup) :
    (batch ++ rest).filter (fun o => o.ref ∉ batch.map (·.ref)) = rest := by
  rw [List.map_append, List.nodup_append'] at distinct
  rw [List.filter_append, List.filter_eq_nil_iff.mpr, List.nil_append, List.filter_eq_self]
  · intro o member
    simpa using fun p settled same => distinct.2.2 (List.mem_map_of_mem settled) (List.mem_map.mpr ⟨o, member, same.symm⟩)
  · intro o member
    simpa using ⟨o, member, rfl⟩

/-! ### What a run has enqueued and settled -/

/-- The ops that an event enqueues. -/
def Event.ops : Event α → List α
  | .enqueue ops | .connected ops | .body _ ops => ops
  | _ => []

/-- The op objects that an effect acknowledges or reports as dropped. -/
def Effect.settled : Effect α → List (QueuedOp α)
  | .acknowledged batch | .dropped batch _ => batch
  | _ => []

def enqueued (history : List (Event α × Effect α)) : List α := history.flatMap (·.1.ops)

def settled (history : List (Event α × Effect α)) : List (QueuedOp α) := history.flatMap (·.2.settled)

namespace Outbound

/-- The op whose terminal rejection is being read. -/
def reporting (c : Outbound α) : List (QueuedOp α) :=
  match c.suspended with
  | some (.dropBody batch _) => batch
  | _ => []

/-- The ops in flight, the one being reported and the queue. -/
def pending (c : Outbound α) : List (QueuedOp α) := c.inFlightOps ++ c.reporting ++ c.queue

/-- The in-flight list holds the batch of the suspended `_flush`, without the op of a lone rejection. -/
def Consistent (c : Outbound α) : Prop :=
  c.flushing = c.suspended.isSome ∧ match c.suspended with
    | none => c.inFlightOps = []
    | some (.response batch) => c.inFlightOps = batch ∧ batch ≠ []
    | some (.ackBody batch) => c.inFlightOps = batch ∧ batch ≠ []
    | some (.dropBody batch _) => c.inFlightOps = [] ∧ batch.length = 1

/-- The step settles the ops at the front and appends new ones at the back. -/
structure Moves (c d : Outbound α) (done : List (QueuedOp α)) (new : List α) : Prop where
  consistent : d.Consistent
  made : d.made = c.made + new.length
  pending : ∃ rest, c.pending = done ++ rest ∧ d.pending = rest ++ numberFrom c.made new

variable {size : α → Nat} {c d : Outbound α}

theorem takeWithin_take (size : α → Nat) (bytes : Nat) (batch rest : List (QueuedOp α)) :
    ∃ k, takeWithin size bytes batch rest = batch ++ rest.take k := by
  induction rest generalizing bytes batch with
  | nil => exact ⟨0, by simp [takeWithin]⟩
  | cons o rest ih =>
    rw [takeWithin]
    split
    · exact ⟨0, by simp⟩
    · obtain ⟨k, taken⟩ := ih (bytes + size o.op) (batch ++ [o])
      exact ⟨k + 1, by rw [taken, List.take_succ_cons, List.append_assoc, List.singleton_append]⟩

/-- The batch is taken from the front of the queue. -/
theorem takeBatch_append (size : α → Nat) (c : Outbound α) :
    c.takeBatch size ++ c.queue.drop (c.takeBatch size).length = c.queue := by
  have front : ∃ k, c.takeBatch size = c.queue.take k := by
    unfold takeBatch
    split
    · exact ⟨1, rfl⟩
    · dsimp only
      split
      · exact ⟨1, rfl⟩
      · obtain ⟨k, taken⟩ := takeWithin_take size 0 [] (c.queue.take (min c.queue.length maxOpsPerBatch))
        exact ⟨min k (min c.queue.length maxOpsPerBatch), by rw [taken, List.nil_append, List.take_take]⟩
  obtain ⟨k, taken⟩ := front
  rw [taken, List.length_take]
  by_cases short : k ≤ c.queue.length
  · rw [Nat.min_eq_left short, List.take_append_drop]
  · rw [Nat.min_eq_right (by omega), List.drop_length, List.append_nil, List.take_of_length_le (by omega)]

theorem takeBatch_ne_nil (size : α → Nat) (waiting : c.queue ≠ []) : c.takeBatch size ≠ [] := by
  have first : c.queue.take 1 ≠ [] := by
    cases queue : c.queue with
    | nil => exact absurd queue waiting
    | cons o rest => simp
  unfold takeBatch
  split
  · exact first
  · dsimp only
    split
    · exact first
    · rename_i taken
      simpa using taken

/-- In single-op mode every batch is one op. -/
theorem length_takeBatch_single (size : α → Nat) (single : c.forceSingle = true) (waiting : c.queue ≠ []) :
    (c.takeBatch size).length = 1 := by
  rw [takeBatch, if_pos single, List.length_take]
  have := List.length_pos_iff.mpr waiting
  omega

/-! ### What each part of the client does to the pending ops -/

theorem removeInFlight_self {batch : List (QueuedOp α)} (held : c.inFlightOps = batch ∨ c.inFlightOps = []) :
    (c.removeInFlight batch).inFlightOps = [] := by
  rw [removeInFlight]
  rcases held with held | held
  · rw [held, List.filter_eq_nil_iff]
    intro o member
    simpa using ⟨o, member, rfl⟩
  · rw [held, List.filter_nil]

theorem flushSoon_eq (c : Outbound α) : ∃ armed, c.flushSoon = { c with flushTimer := armed } := by
  unfold flushSoon
  split
  · exact ⟨c.flushTimer, rfl⟩
  · exact ⟨true, rfl⟩

theorem handlers_eq (ops : List α) (c : Outbound α) : ∃ armed, c.handlers ops =
    { c with queue := c.queue ++ numberFrom c.made ops, made := c.made + ops.length, flushTimer := armed } := by
  unfold handlers
  split
  · rename_i none
    rw [List.isEmpty_iff.mp none]
    exact ⟨c.flushTimer, by simp [numberFrom]⟩
  · exact ⟨true, rfl⟩

theorem endSingle_eq (c : Outbound α) : ∃ single, c.endSingle = { c with forceSingle := single } := by
  unfold endSingle
  split
  · exact ⟨false, rfl⟩
  · exact ⟨c.forceSingle, rfl⟩

/-- The end of a `_flush` leaves nothing in flight. -/
theorem finish_eq {batch : List (QueuedOp α)} (held : c.inFlightOps = batch ∨ c.inFlightOps = []) :
    ∃ armed, c.finish batch =
      { c with inFlightOps := [], flushing := false, suspended := none, flushTimer := armed } := by
  rw [finish]
  obtain ⟨armed, soon⟩ := flushSoon_eq { c.removeInFlight batch with flushing := false, suspended := none }
  refine ⟨armed, ?_⟩
  rw [soon, removeInFlight_self held]
  rfl

theorem moves_flush {bypassReady : Bool} {effect : Effect α} (consistent : c.Consistent)
    (flushed : c.flush size bypassReady = (d, effect)) : c.Moves d effect.settled [] := by
  unfold flush at flushed
  split at flushed
  · cases flushed
    exact ⟨consistent, rfl, c.pending, rfl, by simp [numberFrom]⟩
  · rename_i started
    cases flushed
    simp only [Bool.or_eq_true, not_or, List.isEmpty_iff, Bool.not_eq_true] at started
    obtain ⟨⟨idle, -⟩, waiting⟩ := started
    obtain ⟨flushing, held⟩ := consistent
    have unsuspended : c.suspended = none := by simpa [idle] using flushing.symm
    rw [unsuspended] at held
    have empty : c.inFlightOps = [] := held
    refine ⟨⟨rfl, by simp [empty], takeBatch_ne_nil size waiting⟩, rfl, c.pending, rfl, ?_⟩
    simp [pending, reporting, unsuspended, empty, takeBatch_append, numberFrom]

theorem moves_settle {batch : List (QueuedOp α)} (awaiting : c.suspended = some (.response batch))
    (consistent : c.Consistent) (result : PostResult) : c.Moves (c.settle batch result) [] [] := by
  obtain ⟨flushing, held⟩ := consistent
  rw [awaiting] at held
  obtain ⟨held, nonempty⟩ := held
  have before : c.pending = batch ++ c.queue := by simp [pending, reporting, awaiting, held]
  -- Every exit that gives the batch up puts it back in front of the queue.
  have back : ∀ single retry, c.Moves
      (finish batch { c with queue := batch ++ c.queue, forceSingle := single, retryTimer := retry }) [] [] := by
    intro single retry
    obtain ⟨armed, finished⟩ := finish_eq
      (c := { c with queue := batch ++ c.queue, forceSingle := single, retryTimer := retry }) (Or.inl held)
    rw [finished]
    refine ⟨⟨rfl, rfl⟩, rfl, batch ++ c.queue, before, ?_⟩
    simp [pending, reporting, numberFrom]
  unfold settle
  split
  · split
    · refine ⟨⟨flushing.trans (by rw [awaiting]; rfl), held, nonempty⟩, rfl, batch ++ c.queue, before, ?_⟩
      simp [pending, reporting, held, numberFrom]
    · split
      · split
        · exact back true c.retryTimer
        · have lone : batch.length = 1 := by
            have := List.length_pos_iff.mpr nonempty
            omega
          have emptied := removeInFlight_self (c := c) (Or.inl held)
          refine ⟨⟨flushing.trans (by rw [awaiting]; rfl), emptied, lone⟩, rfl, c.pending, rfl, ?_⟩
          rw [before, pending, reporting]
          simp only [emptied]
          simp [removeInFlight, numberFrom]
      · exact back c.forceSingle true
  · exact back c.forceSingle true

/-- A `_flush` that ends by giving its batch to the caller. -/
theorem moves_done {batch : List (QueuedOp α)} {ops : List α} (held : c.inFlightOps = batch ∨ c.inFlightOps = [])
    (before : c.pending = batch ++ c.queue) : c.Moves ((c.handlers ops).endSingle.finish batch) batch ops := by
  obtain ⟨armed, handled⟩ := handlers_eq ops c
  obtain ⟨single, ended⟩ := endSingle_eq (c.handlers ops)
  have kept : (c.handlers ops).endSingle.inFlightOps = c.inFlightOps := by rw [ended, handled]
  obtain ⟨later, finished⟩ := finish_eq (kept.symm ▸ held)
  rw [finished, ended, handled]
  exact ⟨⟨rfl, rfl⟩, rfl, c.queue, before, by simp [pending, reporting]⟩

theorem moves_acknowledge {batch : List (QueuedOp α)} (awaiting : c.suspended = some (.ackBody batch))
    (consistent : c.Consistent) (readable : Bool) (ops : List α) :
    c.Moves (c.acknowledge batch readable ops).1 (c.acknowledge batch readable ops).2.settled ops := by
  obtain ⟨-, held⟩ := consistent
  rw [awaiting] at held
  obtain ⟨held, -⟩ := held
  have before : c.pending = batch ++ c.queue := by simp [pending, reporting, awaiting, held]
  unfold acknowledge
  split
  · exact moves_done (Or.inl held) before
  · obtain ⟨armed, handled⟩ := handlers_eq ops c
    have kept : ((c.handlers ops).requeue batch).scheduleRetry.inFlightOps = batch := by
      rw [handled]
      exact held
    obtain ⟨later, finished⟩ := finish_eq (Or.inl kept)
    dsimp only
    rw [finished, handled]
    exact ⟨⟨rfl, rfl⟩, rfl, batch ++ c.queue, before, by simp [pending, reporting, scheduleRetry, requeue]⟩

theorem moves_drop {batch : List (QueuedOp α)} {status : Nat} (awaiting : c.suspended = some (.dropBody batch status))
    (consistent : c.Consistent) (ops : List α) : c.Moves (c.drop batch status ops).1 batch ops := by
  obtain ⟨-, held⟩ := consistent
  rw [awaiting] at held
  exact moves_done (Or.inr held.1) (by simp [pending, reporting, awaiting, held.1])

theorem moves_handlers (consistent : c.Consistent) (ops : List α) : c.Moves (c.handlers ops) [] ops := by
  obtain ⟨armed, handled⟩ := handlers_eq ops c
  rw [handled]
  exact ⟨consistent, rfl, c.pending, rfl, by simp [pending, reporting]⟩

/-- One step settles the front of the pending ops and appends to their back. -/
theorem step_moves {event : Event α} {effect : Effect α} (consistent : c.Consistent)
    (stepped : c.step size event = some (d, effect)) : c.Moves d effect.settled event.ops := by
  cases event with
  | enqueue ops =>
    cases stepped
    exact ⟨consistent, rfl, c.pending, rfl, by simp [enqueue, scheduleFlush, pending, reporting, Event.ops]⟩
  | connected ops =>
    cases stepped
    have handled : Moves { c with ready := true } _ [] ops :=
      moves_handlers (c := { c with ready := true }) consistent ops
    obtain ⟨armed, soon⟩ := flushSoon_eq ({ c with ready := true }.handlers ops)
    rw [soon]
    exact ⟨handled.consistent, handled.made, handled.pending⟩
  | disconnected =>
    cases stepped
    exact ⟨consistent, rfl, c.pending, rfl, by simp [pending, reporting, numberFrom, Event.ops]⟩
  | flushTimer =>
    simp only [step] at stepped
    split at stepped
    · obtain ⟨after, counted, rest⟩ :=
        moves_flush (c := { c with flushTimer := false }) consistent (Option.some.inj stepped)
      exact ⟨after, counted, rest⟩
    · cases stepped
  | retryTimer =>
    simp only [step] at stepped
    split at stepped
    · obtain ⟨after, counted, rest⟩ :=
        moves_flush (c := { c with retryTimer := false }) consistent (Option.some.inj stepped)
      exact ⟨after, counted, rest⟩
    · cases stepped
  | flush bypassReady => exact moves_flush consistent (Option.some.inj stepped)
  | settled result =>
    simp only [step] at stepped
    split at stepped
    · rename_i batch awaiting
      cases stepped
      exact moves_settle awaiting consistent result
    · cases stepped
  | body readable ops =>
    simp only [step] at stepped
    split at stepped
    · rename_i batch awaiting
      have moves := moves_acknowledge awaiting consistent readable ops
      rw [Option.some.inj stepped] at moves
      exact moves
    · rename_i batch status awaiting
      cases stepped
      exact moves_drop awaiting consistent ops
    · cases stepped

/-! ### Whole runs -/

/-- What is pending are the op objects made so far without the settled ones. -/
structure Accounted (c : Outbound α) (ops : List α) (done : List (QueuedOp α)) : Prop where
  consistent : c.Consistent
  made : c.made = ops.length
  pending : c.pending = (numberFrom 0 ops).filter fun o => o.ref ∉ done.map (·.ref)
  once : (done.map (·.ref)).Nodup
  done : ∀ o ∈ done, o ∈ numberFrom 0 ops

theorem accounted_start : Accounted ({} : Outbound α) [] [] :=
  ⟨⟨rfl, rfl⟩, rfl, rfl, List.nodup_nil, by simp⟩

theorem Accounted.moves {ops new : List α} {settled done : List (QueuedOp α)} (accounted : c.Accounted ops settled)
    (moves : c.Moves d done new) : d.Accounted (ops ++ new) (settled ++ done) := by
  obtain ⟨-, made, pending, once, enqueued⟩ := accounted
  obtain ⟨consistent, counted, rest, before, after⟩ := moves
  have distinct : ((done ++ rest).map (·.ref)).Nodup := by
    rw [← before, pending]
    exact (numberFrom_nodup 0 ops).sublist (List.filter_sublist.map _)
  have front : ∀ o ∈ done, o ∈ numberFrom 0 ops ∧ o.ref ∉ settled.map (·.ref) := by
    intro o member
    have waiting : o ∈ c.pending := by
      rw [before]
      exact List.mem_append_left rest member
    rw [pending] at waiting
    simpa using List.mem_filter.mp waiting
  have older : ∀ o ∈ settled ++ done, o.ref < ops.length := by
    intro o member
    have bounds := numberFrom_bounds ((List.mem_append.mp member).elim (enqueued o) fun new => (front o new).1)
    omega
  refine ⟨consistent, by rw [counted, made, List.length_append], ?_, ?_, ?_⟩
  · rw [after, numberFrom_append, List.filter_append, Nat.zero_add, made]
    have latest : (numberFrom ops.length new).filter (fun o => o.ref ∉ (settled ++ done).map (·.ref)) =
        numberFrom ops.length new := by
      rw [List.filter_eq_self]
      intro o member
      have bounds := numberFrom_bounds member
      rw [decide_eq_true_eq]
      intro old
      obtain ⟨p, earlier, same⟩ := List.mem_map.mp old
      have := older p earlier
      omega
    rw [latest, ← filter_settled_append distinct, ← before, pending, List.filter_filter]
    congr 2
    funext o
    rw [List.map_append, ← Bool.decide_and]
    exact decide_eq_decide.mpr (by rw [List.mem_append, not_or, and_comm])
  · rw [List.map_append, List.nodup_append']
    refine ⟨once, distinct.sublist ((List.sublist_append_left done rest).map _), ?_⟩
    intro ref old new
    obtain ⟨o, member, rfl⟩ := List.mem_map.mp new
    exact (front o member).2 old
  · intro o member
    rw [numberFrom_append]
    exact List.mem_append_left _ ((List.mem_append.mp member).elim (enqueued o) fun new => (front o new).1)

theorem run_accounted {history : List (Event α × Effect α)} (run : Run (step size) (fun _ _ _ => True) {} history c) :
    c.Accounted (enqueued history) (settled history) := by
  refine run.invariant (fun history c => c.Accounted (enqueued history) (settled history)) accounted_start ?_
  intro history c event d effect accounted _ stepped
  have moved := accounted.moves (step_moves accounted.consistent stepped)
  simpa [enqueued, settled] using moved

/-! ### Reports and the single-op mode -/

/-- The step that answers a batch of several ops with a terminal rejection. -/
def EntersSingle (c : Outbound α) (event : Event α) : Prop :=
  ∃ batch status, c.suspended = some (.response batch) ∧ event = .settled (.response status) ∧
    isTerminal status = true ∧ 1 < batch.length

/-- Whether a step reports an op alone, and how it leaves the single-op mode. -/
structure Orderly (c : Outbound α) (event : Event α) (d : Outbound α) (effect : Effect α) : Prop where
  alone : ∀ batch status, effect = .dropped batch status → batch.length = 1
  single : ∀ batch, effect = .posted batch → c.forceSingle = true → batch.length = 1
  mode : d.forceSingle = true ↔
    c.EntersSingle event ∨ c.forceSingle = true ∧ ¬(effect.settled ≠ [] ∧ d.queue = [])

theorem forceSingle_finish (batch : List (QueuedOp α)) (c : Outbound α) :
    (c.finish batch).forceSingle = c.forceSingle ∧ (c.finish batch).queue = c.queue := by
  obtain ⟨armed, soon⟩ := flushSoon_eq { c.removeInFlight batch with flushing := false, suspended := none }
  rw [finish, soon]
  exact ⟨rfl, rfl⟩

theorem forceSingle_handlers (ops : List α) (c : Outbound α) : (c.handlers ops).forceSingle = c.forceSingle := by
  obtain ⟨armed, handled⟩ := handlers_eq ops c
  rw [handled]

theorem forceSingle_endSingle (c : Outbound α) :
    (c.endSingle.forceSingle = true ↔ c.forceSingle = true ∧ c.queue ≠ []) ∧ c.endSingle.queue = c.queue := by
  unfold endSingle
  split
  · rename_i drained
    simp_all
  · rename_i kept
    simp_all

theorem not_enters {event : Event α} (other : ∀ batch, c.suspended ≠ some (.response batch)) : ¬c.EntersSingle event := by
  rintro ⟨batch, status, awaiting, -⟩
  exact other batch awaiting

/-- A `_flush` that gives its batch to the caller ends the mode if nothing is queued. -/
theorem mode_done {event : Event α} {batch : List (QueuedOp α)} {ops : List α} (nonempty : batch ≠ [])
    (reading : ∀ batch, c.suspended ≠ some (.response batch)) :
    ((c.handlers ops).endSingle.finish batch).forceSingle = true ↔ c.EntersSingle event ∨
      c.forceSingle = true ∧ ¬(batch ≠ [] ∧ ((c.handlers ops).endSingle.finish batch).queue = []) := by
  obtain ⟨mode, queue⟩ := forceSingle_finish batch (c.handlers ops).endSingle
  obtain ⟨ended, kept⟩ := forceSingle_endSingle (c.handlers ops)
  rw [mode, queue, ended, kept, forceSingle_handlers]
  simp [not_enters reading, nonempty]

theorem orderly_flush {bypassReady : Bool} {effect : Effect α} {event : Event α}
    (other : ∀ result, event ≠ .settled result) (flushed : c.flush size bypassReady = (d, effect)) :
    c.Orderly event d effect := by
  have outside : ¬c.EntersSingle event := fun ⟨_, status, _, same, _⟩ => other (.response status) same
  unfold flush at flushed
  split at flushed
  · cases flushed
    exact ⟨by simp, by simp, by simp [outside, Effect.settled]⟩
  · rename_i started
    cases flushed
    simp only [Bool.or_eq_true, not_or, List.isEmpty_iff] at started
    refine ⟨by simp, fun batch same single => ?_, by simp [outside, Effect.settled]⟩
    cases same
    exact length_takeBatch_single size single started.2

/-- A response that is no terminal rejection, or one of a lone op, leaves the mode as it is. -/
theorem orderly_settle {batch : List (QueuedOp α)} (awaiting : c.suspended = some (.response batch))
    (result : PostResult) : c.Orderly (.settled result) (c.settle batch result) .none := by
  refine ⟨by simp, by simp, ?_⟩
  have enters : c.EntersSingle (.settled result) ↔
      ∃ status, result = .response status ∧ isTerminal status = true ∧ 1 < batch.length := by
    constructor
    · rintro ⟨held, status, suspended, same, terminal, several⟩
      rw [awaiting] at suspended
      cases suspended
      cases same
      exact ⟨status, rfl, terminal, several⟩
    · rintro ⟨status, rfl, terminal, several⟩
      exact ⟨batch, status, awaiting, rfl, terminal, several⟩
  rw [enters]
  unfold settle
  cases result with
  | failed => simp [forceSingle_finish, scheduleRetry, requeue, Effect.settled]
  | response status =>
    dsimp only
    split
    · rename_i ok
      have alive : isTerminal status = false := by
        simp only [isOk, Bool.and_eq_true, decide_eq_true_eq] at ok
        simp only [isTerminal, Bool.or_eq_false_iff, beq_eq_false_iff_ne]
        omega
      simp [alive, Effect.settled]
    · split
      · rename_i terminal
        split
        · rename_i several
          simp [forceSingle_finish, terminal, several]
        · rename_i lone
          simp [removeInFlight, lone, Effect.settled]
      · rename_i transient
        simp [forceSingle_finish, scheduleRetry, requeue, transient, Effect.settled]

theorem step_orderly {event : Event α} {effect : Effect α} (consistent : c.Consistent)
    (stepped : c.step size event = some (d, effect)) : c.Orderly event d effect := by
  cases event with
  | enqueue ops =>
    cases stepped
    exact ⟨by simp, by simp, by simp [enqueue, scheduleFlush, EntersSingle, Effect.settled]⟩
  | connected ops =>
    cases stepped
    obtain ⟨armed, soon⟩ := flushSoon_eq ({ c with ready := true }.handlers ops)
    refine ⟨by simp, by simp, ?_⟩
    rw [soon]
    simp [forceSingle_handlers, EntersSingle, Effect.settled]
  | disconnected =>
    cases stepped
    exact ⟨by simp, by simp, by simp [EntersSingle, Effect.settled]⟩
  | flushTimer =>
    simp only [step] at stepped
    split at stepped
    · obtain ⟨alone, single, mode⟩ := @orderly_flush _ _ { c with flushTimer := false } _ _ _ .flushTimer
        (by simp) (Option.some.inj stepped)
      exact ⟨alone, single, mode⟩
    · cases stepped
  | retryTimer =>
    simp only [step] at stepped
    split at stepped
    · obtain ⟨alone, single, mode⟩ := @orderly_flush _ _ { c with retryTimer := false } _ _ _ .retryTimer
        (by simp) (Option.some.inj stepped)
      exact ⟨alone, single, mode⟩
    · cases stepped
  | flush bypassReady => exact orderly_flush (by simp) (Option.some.inj stepped)
  | settled result =>
    simp only [step] at stepped
    split at stepped
    · rename_i batch awaiting
      cases stepped
      exact orderly_settle awaiting result
    · cases stepped
  | body readable ops =>
    simp only [step] at stepped
    obtain ⟨-, held⟩ := consistent
    split at stepped
    · rename_i batch awaiting
      rw [awaiting] at held
      have reading : ∀ other, c.suspended ≠ some (.response other) := by simp [awaiting]
      obtain rfl := congrArg Prod.fst (Option.some.inj stepped)
      obtain rfl := congrArg Prod.snd (Option.some.inj stepped)
      unfold acknowledge
      split
      · exact ⟨by simp, by simp, mode_done held.2 reading⟩
      · refine ⟨by simp, by simp, ?_⟩
        simp [forceSingle_finish, scheduleRetry, requeue, forceSingle_handlers, not_enters reading, Effect.settled]
    · rename_i batch status awaiting
      rw [awaiting] at held
      have nonempty : batch ≠ [] := List.ne_nil_of_length_eq_add_one held.2
      cases stepped
      refine ⟨fun other st same => ?_, by simp, mode_done nonempty (by simp [awaiting])⟩
      cases same
      exact held.2
    · cases stepped

/-- A batch of two is refused, its first op is sent alone and refused, and the answer is read. -/
def rejectionRun : List (Event Nat) :=
  [.connected [], .enqueue [7, 8], .flushTimer, .settled (.response 400), .flushTimer,
    .settled (.response 409), .body true []]

end Outbound

end MetadataGraph.Client
