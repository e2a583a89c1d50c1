import MetadataGraph.Lib.Runs
import Mathlib.Algebra.Order.Field.Rat
import Mathlib.Data.List.Infix

namespace MetadataGraph.Graph

open Runs

def defaultCompactionInterval : ℕ := 256

/-- What a history store is constructed with. -/
structure Retention where
  maxEvents : Option ℤ := none
  maxAgeDays : Option ℚ := none
  compactionInterval : Option ℤ := none

namespace Retention

/-- A cap counts only when it is a positive value. -/
def cap (c : Retention) : Option ℕ := (c.maxEvents.filter (0 < ·)).map Int.toNat

def ages (c : Retention) : Bool := c.maxAgeDays.any (0 < ·)

def retentionEnabled (c : Retention) : Bool := c.cap.isSome || c.ages

def interval (c : Retention) : ℕ :=
  match c.compactionInterval, c.cap with
  | some given, _ => max 1 given.toNat
  | none, some cap => max 1 (min cap defaultCompactionInterval)
  | none, none => defaultCompactionInterval

variable {α : Type} (c : Retention)

/-- The records that are kept. `withinAge` is the test against the cutoff of this moment. -/
def applyRetention (withinAge : α → Bool) (records : List α) : List α :=
  let kept := if c.ages then records.filter withinAge else records
  match c.cap with
  | some cap => if kept.length > cap then kept.drop (kept.length - cap) else kept
  | none => kept

end Retention

/-- The sidecar file, the counter of the process that writes it, and all that was ever appended. -/
structure Sidecar (α : Type) where
  records : List α := []
  appendsSinceCompaction : ℕ := 0
  appended : List α := []

/-- One call of the store, or the end of a process and the start of the next. A compaction reads the
clock and may fail to rewrite the file. -/
inductive SidecarLabel (α : Type)
  | appendRecord (record : α) (withinAge : α → Bool) (rewrites : Bool)
  | compact (withinAge : α → Bool) (rewrites : Bool)
  | restart

namespace Sidecar

variable {α : Type} (c : Retention)

def compactLocked (withinAge : α → Bool) (rewrites : Bool) (s : Sidecar α) : Sidecar α :=
  let kept := c.applyRetention withinAge s.records
  { s with
    appendsSinceCompaction := 0
    records := if kept.length = s.records.length then s.records else if rewrites then kept else s.records }

def appendRecord (record : α) (withinAge : α → Bool) (rewrites : Bool) (s : Sidecar α) : Sidecar α :=
  let written := { s with records := s.records ++ [record], appended := s.appended ++ [record] }
  if c.retentionEnabled then
    let counted := { written with appendsSinceCompaction := s.appendsSinceCompaction + 1 }
    if counted.appendsSinceCompaction ≥ c.interval then counted.compactLocked c withinAge rewrites else counted
  else written

def compact (withinAge : α → Bool) (rewrites : Bool) (s : Sidecar α) : Sidecar α :=
  if c.retentionEnabled then s.compactLocked c withinAge rewrites else s

def step (s : Sidecar α) : SidecarLabel α → Option (Sidecar α × Unit)
  | .appendRecord record withinAge rewrites => some (s.appendRecord c record withinAge rewrites, ())
  | .compact withinAge rewrites => some (s.compact c withinAge rewrites, ())
  | .restart => some ({ s with appendsSinceCompaction := 0 }, ())

/-- No compaction fails, and a process ends only when there is nothing to compact. -/
def Settled (cap : ℕ) (s : Sidecar α) : SidecarLabel α → Prop
  | .appendRecord _ _ rewrites => rewrites = true
  | .compact _ rewrites => rewrites = true
  | .restart => s.records.length ≤ cap

section Count

variable {c} {cap : ℕ} {s t : Sidecar α} {withinAge : α → Bool} {rewrites : Bool}

theorem interval_pos (counts : c.cap = some cap) : 0 < c.interval := by
  rw [Retention.interval, counts]
  split <;> first | exact Nat.lt_of_lt_of_le Nat.one_pos (le_max_left _ _) | contradiction

variable (counts : c.cap = some cap) (ageless : c.ages = false)
include counts

theorem retentionEnabled_of_counts : c.retentionEnabled = true := by
  rw [Retention.retentionEnabled, counts]
  rfl

/-- The record is on file and counted, and a compaction may have followed. -/
theorem appendRecord_cases (record : α) : ∃ counted : Sidecar α,
    counted.records = s.records ++ [record] ∧ counted.appended = s.appended ++ [record] ∧
      counted.appendsSinceCompaction = s.appendsSinceCompaction + 1 ∧
      (s.appendRecord c record withinAge rewrites = counted ∧ counted.appendsSinceCompaction < c.interval ∨
        s.appendRecord c record withinAge rewrites = counted.compactLocked c withinAge rewrites ∧
          c.interval ≤ counted.appendsSinceCompaction) := by
  refine ⟨⟨s.records ++ [record], s.appendsSinceCompaction + 1, s.appended ++ [record]⟩, rfl, rfl, rfl, ?_⟩
  rw [appendRecord, if_pos (retentionEnabled_of_counts counts)]
  dsimp only
  split
  · exact .inr ⟨rfl, ‹_›⟩
  · exact .inl ⟨rfl, not_le.mp ‹_›⟩

/-- Appends that follow the end of a process are not compacted before there are as many as the interval. -/
theorem restart_overfills (exceeds : cap < s.records.length) (record : α) :
    ∃ history t, Run (step c) (fun _ _ _ => True) s history t ∧ cap + c.interval - 1 < t.records.length := by
  have appends : ∀ n < c.interval, ∃ history t, Run (step c) (fun _ _ _ => True) s history t ∧
      t.records.length = s.records.length + n ∧ t.appendsSinceCompaction = n := by
    intro n
    induction n with
    | zero =>
      intro _
      exact ⟨_, { s with appendsSinceCompaction := 0 }, .next .start trivial (show step c s .restart = some (_, ()) from rfl), rfl, rfl⟩
    | succ n ih =>
      intro less
      obtain ⟨history, t, run, length, counter⟩ := ih (by omega)
      obtain ⟨counted, records, -, count, after⟩ :=
        @appendRecord_cases α c cap t (fun _ => true) true counts record
      refine ⟨_, _, run.next trivial (show step c t (.appendRecord record (fun _ => true) true) = some (_, ()) from rfl), ?_⟩
      rcases after with ⟨same, -⟩ | ⟨-, due⟩
      · rw [same, records, count, List.length_append, List.length_singleton]
        omega
      · omega
  have some := interval_pos counts
  obtain ⟨history, t, run, length, -⟩ := appends (c.interval - 1) (by omega)
  exact ⟨history, t, run, by omega⟩

include ageless

theorem applyRetention_eq (records : List α) : c.applyRetention withinAge records = records.drop (records.length - cap) := by
  simp only [Retention.applyRetention, counts, ageless, Bool.false_eq_true, if_false]
  split
  · rfl
  · rename_i few
    rw [Nat.sub_eq_zero_of_le (not_lt.mp few)]
    rfl

/-- What a compaction leaves: the newest records, as many as the cap allows, or all where it fails. -/
theorem compactLocked_records : (s.compactLocked c withinAge rewrites).records =
    if rewrites then s.records.drop (s.records.length - cap) else s.records := by
  rw [compactLocked]
  dsimp only
  rw [applyRetention_eq counts ageless]
  split
  · rename_i same
    have all : s.records.drop (s.records.length - cap) = s.records := (List.drop_sublist _ _).eq_of_length same
    rw [all, ite_self]
  · rfl

/-- What is on file is the newest part of all that was appended, and reaches up to the cap. -/
structure Retains (cap : ℕ) (s : Sidecar α) : Prop where
  suffix : s.records <:+ s.appended
  enough : min s.appended.length cap ≤ s.records.length

/-- What is on file over the cap has been counted since the last compaction. -/
structure Bounded (c : Retention) (cap : ℕ) (s : Sidecar α) : Prop where
  counted : s.records.length ≤ cap + s.appendsSinceCompaction
  due : s.appendsSinceCompaction < c.interval

theorem Retains.compactLocked (retains : Retains cap s) : Retains cap (s.compactLocked c withinAge rewrites) := by
  have kept := @compactLocked_records α c cap s withinAge rewrites counts ageless
  have all : (s.compactLocked c withinAge rewrites).appended = s.appended := rfl
  obtain ⟨suffix, enough⟩ := retains
  constructor
  · rw [kept, all]
    split
    · exact (List.drop_suffix _ _).trans suffix
    · exact suffix
  · rw [kept, all]
    split
    · rw [List.length_drop]
      omega
    · exact enough

theorem Bounded.compactLocked (rewrites : Bool) (succeeds : rewrites = true) :
    Bounded c cap (s.compactLocked c withinAge rewrites) := by
  have kept := @compactLocked_records α c cap s withinAge rewrites counts ageless
  constructor
  · rw [kept, if_pos succeeds, List.length_drop]
    omega
  · exact interval_pos counts

theorem Retains.step {label : SidecarLabel α} {output : Unit} (retains : Retains cap s) (taken : s.step c label = some (t, output)) :
    Retains cap t := by
  cases label with
  | appendRecord record withinAge rewrites =>
    obtain ⟨counted, records, appended, -, after⟩ :=
      @appendRecord_cases α c cap s withinAge rewrites counts record
    have written : Retains cap counted := by
      obtain ⟨⟨dropped, whole⟩, enough⟩ := retains
      constructor
      · rw [records, appended]
        exact ⟨dropped, by rw [← List.append_assoc, whole]⟩
      · rw [records, appended, List.length_append, List.length_append]
        omega
    cases taken
    rcases after with ⟨same, -⟩ | ⟨same, -⟩
    · rwa [same]
    · rw [same]
      exact written.compactLocked counts ageless
  | compact withinAge rewrites =>
    cases taken
    rw [compact, if_pos (retentionEnabled_of_counts counts)]
    exact retains.compactLocked counts ageless
  | restart =>
    cases taken
    exact ⟨retains.suffix, retains.enough⟩

theorem Bounded.step {label : SidecarLabel α} {output : Unit} (bounded : Bounded c cap s) (settled : Settled cap s label)
    (taken : s.step c label = some (t, output)) : Bounded c cap t := by
  cases label with
  | appendRecord record withinAge rewrites =>
    obtain ⟨counted, records, -, counter, after⟩ :=
      @appendRecord_cases α c cap s withinAge rewrites counts record
    cases taken
    rcases after with ⟨same, due⟩ | ⟨same, -⟩
    · rw [same]
      refine ⟨?_, due⟩
      have before := bounded.counted
      rw [records, counter, List.length_append, List.length_singleton]
      omega
    · rw [same]
      exact .compactLocked counts ageless rewrites settled
  | compact withinAge rewrites =>
    cases taken
    rw [compact, if_pos (retentionEnabled_of_counts counts)]
    exact .compactLocked counts ageless rewrites settled
  | restart =>
    cases taken
    exact ⟨settled, interval_pos counts⟩

theorem retains_of_run {history : List (SidecarLabel α × Unit)} (run : Run (step c) (fun _ _ _ => True) {} history s) :
    Retains cap s :=
  run.invariant (fun _ s => Retains cap s) ⟨List.suffix_refl _, Nat.zero_le _⟩
    fun retains _ taken => retains.step counts ageless taken

theorem bounded_of_run {history : List (SidecarLabel α × Unit)}
    (run : Run (step c) (fun _ s label => Settled cap s label) {} history s) : Bounded c cap s := by
  refine Run.invariant (fun _ s => Bounded c cap s) ⟨Nat.zero_le _, interval_pos counts⟩ ?_ run
  intro history s label t output bounded settled taken
  exact bounded.step counts ageless settled taken

/-- The file holds the newest records, as many as the cap asks for, and not more than a compaction
interval above it as long as no process ends while there is something to compact. -/
theorem history_retained :
    (∀ {history : List (SidecarLabel α × Unit)} {s : Sidecar α}, Run (step c) (fun _ _ _ => True) {} history s →
      s.records <:+ s.appended ∧ min s.appended.length cap ≤ s.records.length) ∧
    ∀ {history : List (SidecarLabel α × Unit)} {s : Sidecar α}, Run (step c) (fun _ s label => Settled cap s label) {} history s →
      s.records.length ≤ cap + c.interval - 1 := by
  refine ⟨fun run => ?_, fun run => ?_⟩
  · obtain ⟨suffix, enough⟩ := retains_of_run counts ageless run
    exact ⟨suffix, enough⟩
  · obtain ⟨counted, due⟩ := bounded_of_run counts ageless run
    omega

end Count

def keepTwo : Retention := { maxEvents := some 2 }

theorem history_retained_two : ∃ (history : List (SidecarLabel ℕ × Unit)) (s : Sidecar ℕ),
    Run (step keepTwo) (fun _ s label => Settled 2 s label) {} history s ∧ s.records = [2, 3] ∧ s.appended = [1, 2, 3] ∧ s.records <:+ s.appended ∧
      min s.appended.length 2 ≤ s.records.length ∧ s.records.length ≤ 2 + keepTwo.interval - 1 := by
  have run : Run (step keepTwo) (fun _ s label => Settled 2 s label) {}
      [(.appendRecord 1 (fun _ => true) true, ()), (.appendRecord 2 (fun _ => true) true, ()),
        (.appendRecord 3 (fun _ => true) true, ()), (.compact (fun _ => true) true, ()), (.restart, ())] ⟨[2, 3], 0, [1, 2, 3]⟩ :=
    .next (.next (.next (.next (.next .start rfl rfl) rfl rfl) rfl rfl) rfl rfl) le_rfl rfl
  have retained := @history_retained ℕ keepTwo 2 rfl rfl
  obtain ⟨suffix, enough⟩ := retained.1 (run.mono fun _ => trivial)
  exact ⟨_, _, run, rfl, rfl, suffix, enough, retained.2 run⟩

/-- Four processes append a record each, and none of them has counted up to the interval. -/
theorem short_processes_overfill : keepTwo.cap = some 2 ∧ keepTwo.ages = false ∧
    ∃ (history : List (SidecarLabel ℕ × Unit)) (s : Sidecar ℕ), Run (step keepTwo) (fun _ _ _ => True) {} history s ∧
      ¬ s.records.length ≤ 2 + keepTwo.interval - 1 := by
  obtain ⟨history, run⟩ := @Run.of_leadsTo _ _ _ (step keepTwo) {} ⟨[1, 2, 3, 4], 1, [1, 2, 3, 4]⟩
    [.appendRecord 1 (fun _ => true) true, .restart, .appendRecord 2 (fun _ => true) true, .restart,
      .appendRecord 3 (fun _ => true) true, .restart, .appendRecord 4 (fun _ => true) true] rfl
  exact ⟨rfl, rfl, history, _, run, by decide⟩

end Sidecar

end MetadataGraph.Graph
