import MetadataGraph.Lib.Runs
import Mathlib.Order.WellFounded

namespace Runs

variable {State Label Output : Type}

/-- A run of a labelled system that never ends. -/
structure Execution (step : State → Label → Option (State × Output)) where
  states : Nat → State
  labels : Nat → Label
  outputs : Nat → Output
  stepped : ∀ n, step (states n) (labels n) = some (states (n + 1), outputs n)

variable {step : State → Label → Option (State × Output)}

/-- The steps of an execution before a time. -/
def Execution.history (e : Execution step) : Nat → List (Label × Output)
  | 0 => []
  | n + 1 => e.history n ++ [(e.labels n, e.outputs n)]

theorem Execution.history_mem (e : Execution step) {n m : Nat} (later : n ≤ m) {taken : Label × Output}
    (listed : taken ∈ e.history n) : taken ∈ e.history m := by
  induction m, later using Nat.le_induction with
  | base => exact listed
  | succ m _ ih => exact List.mem_append_left _ ih

theorem Execution.run (e : Execution step) (n : Nat) :
    Run step (fun _ _ _ => True) (e.states 0) (e.history n) (e.states n) := by
  induction n with
  | zero => exact .start
  | succ n ih => exact .next ih trivial (e.stepped n)

/-- Steps of some kind are taken again and again. -/
def Execution.Recurs (e : Execution step) (tick : Label → Prop) : Prop := ∀ n, ∃ m, n ≤ m ∧ tick (e.labels m)

/-- A rank that no step raises, and that every step of a recurring kind lowers, leads to the goal. -/
theorem Execution.eventually {α : Type} {below : α → α → Prop} (wf : WellFounded below) (e : Execution step)
    {tick : Label → Prop} (recurs : e.Recurs tick) (waits : α → State → Prop) (goal : Nat → Prop)
    (quiet : ∀ n rank, waits rank (e.states n) → ¬ tick (e.labels n) → waits rank (e.states (n + 1)))
    (lower : ∀ n rank, waits rank (e.states n) → tick (e.labels n) →
      goal n ∨ ∃ rank', below rank' rank ∧ waits rank' (e.states (n + 1)))
    {n : Nat} {rank : α} (waiting : waits rank (e.states n)) : ∃ m, n ≤ m ∧ goal m := by
  induction rank using wf.induction generalizing n with
  | _ rank ih =>
    -- The rank keeps until the next step of the kind.
    obtain ⟨m, later, ticks⟩ := recurs n
    obtain ⟨distance, rfl⟩ := Nat.exists_eq_add_of_le later
    induction distance generalizing n with
    | zero =>
      rcases lower n rank waiting ticks with reached | ⟨rank', smaller, waiting'⟩
      · exact ⟨n, Nat.le_refl n, reached⟩
      · obtain ⟨m, after, reached⟩ := ih rank' smaller waiting'
        exact ⟨m, Nat.le_of_succ_le after, reached⟩
    | succ distance next =>
      by_cases now : tick (e.labels n)
      · rcases lower n rank waiting now with reached | ⟨rank', smaller, waiting'⟩
        · exact ⟨n, Nat.le_refl n, reached⟩
        · obtain ⟨m, after, reached⟩ := ih rank' smaller waiting'
          exact ⟨m, Nat.le_of_succ_le after, reached⟩
      · have shifted : n + (distance + 1) = n + 1 + distance := by omega
        rw [shifted] at later ticks
        obtain ⟨m, after, reached⟩ := next (quiet n rank waiting now) (Nat.le_add_right _ _) ticks
        exact ⟨m, Nat.le_of_succ_le after, reached⟩

end Runs
