import Mathlib.Data.List.Basic
import Mathlib.Logic.Function.Basic

namespace Journal

variable {κ α : Type} [DecidableEq κ]

/-- A journal sets keys to values, or removes them. Its entries are replayed in order. -/
def replay (journal : List (κ × Option α)) (state : κ → Option α) : κ → Option α :=
  journal.foldl (fun state entry => Function.update state entry.1 entry.2) state

theorem replay_append (first second : List (κ × Option α)) (state : κ → Option α) :
    replay (first ++ second) state = replay second (replay first state) :=
  List.foldl_append

theorem replay_cons (entry : κ × Option α) (journal : List (κ × Option α)) (state : κ → Option α) :
    replay (entry :: journal) state = replay journal (Function.update state entry.1 entry.2) := rfl

theorem replay_nil (state : κ → Option α) : replay [] state = state := rfl

theorem replay_singleton (key : κ) (value : Option α) (state : κ → Option α) : replay [(key, value)] state key = value := by
  rw [replay_cons, replay_nil, Function.update_self]

/-- A journal that says the same of a key as often as it names it. -/
theorem replay_each (value : κ → Option (Option α)) (keys : List κ) (state : κ → Option α) (key : κ) :
    replay (keys.filterMap fun key => (value key).map fun a => (key, a)) state key =
      if key ∈ keys then (value key).getD (state key) else state key := by
  induction keys generalizing state with
  | nil => rfl
  | cons first keys ih =>
    cases said : value first with
    | none =>
      rw [List.filterMap_cons_none (by rw [said]; rfl), ih]
      by_cases same : key = first
      · rw [same, if_pos List.mem_cons_self, said]
        exact ite_self _
      · simp only [List.mem_cons, same, false_or]
    | some a =>
      rw [List.filterMap_cons_some (by rw [said]; rfl), replay_cons, ih]
      by_cases same : key = first
      · rw [same, if_pos List.mem_cons_self, said, Function.update_self]
        exact ite_self _
      · simp only [List.mem_cons, same, false_or, Function.update_of_ne same]

theorem replay_of_notMem {journal : List (κ × Option α)} {key : κ} (unnamed : ∀ entry ∈ journal, entry.1 ≠ key)
    (state : κ → Option α) : replay journal state key = state key := by
  induction journal generalizing state with
  | nil => rfl
  | cons entry journal ih =>
    rw [List.forall_mem_cons] at unnamed
    rw [replay_cons, ih unnamed.2, Function.update_of_ne unnamed.1.symm]

/-- What a journal leaves at a key depends on nothing but what was there. -/
theorem replay_congr (journal : List (κ × Option α)) {state other : κ → Option α} {key : κ}
    (same : state key = other key) : replay journal state key = replay journal other key := by
  induction journal generalizing state other with
  | nil => exact same
  | cons entry journal ih =>
    rw [replay_cons, replay_cons]
    refine ih ?_
    by_cases named : key = entry.1
    · rw [named, Function.update_self, Function.update_self]
    · rw [Function.update_of_ne named, Function.update_of_ne named, same]

/-- Journals of distinct keys, each about its own key, are replayed apart from one another. -/
theorem replay_flatMap {journalOf : κ → List (κ × Option α)} (own : ∀ k, ∀ entry ∈ journalOf k, entry.1 = k)
    {keys : List κ} (distinct : keys.Nodup) (state : κ → Option α) (key : κ) :
    replay (keys.flatMap journalOf) state key = if key ∈ keys then replay (journalOf key) state key else state key := by
  induction keys generalizing state with
  | nil => rfl
  | cons first keys ih =>
    obtain ⟨absent, others⟩ := List.nodup_cons.mp distinct
    rw [List.flatMap_cons, replay_append, ih others]
    by_cases same : key = first
    · subst same
      rw [if_neg absent, if_pos List.mem_cons_self]
    · have untouched : replay (journalOf first) state key = state key :=
        replay_of_notMem (fun entry member named => same (named.symm.trans (own first entry member))) state
      simp only [List.mem_cons, same, false_or, untouched, replay_congr (journalOf key) untouched]

end Journal
