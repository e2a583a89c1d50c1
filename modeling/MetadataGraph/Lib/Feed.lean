import Mathlib.Data.List.Basic

namespace Feed

/-- What a reader takes from a feed: an entry with its number, or a marker that entries
before the next one may be missing. -/
inductive Item where
  | entry (number : Nat)
  | marker
  deriving DecidableEq

/-- Gap-free reading. The reader starts expecting a number, or whatever comes when it
expects none, and ends with what it expects then. -/
inductive Reads : Option Nat → List Item → Option Nat → Prop where
  | nil {expected : Option Nat} : Reads expected [] expected
  | entry {expected next : Option Nat} {number : Nat} {items : List Item} :
      expected = none ∨ expected = some number → Reads (some (number + 1)) items next →
        Reads expected (.entry number :: items) next
  | marker {expected next : Option Nat} {items : List Item} :
      Reads none items next → Reads expected (.marker :: items) next

theorem Reads.append {a b c : Option Nat} {xs ys : List Item} (first : Reads a xs b) (second : Reads b ys c) :
    Reads a (xs ++ ys) c := by
  induction first with
  | nil => exact second
  | entry expected _ ih => exact .entry expected (ih second)
  | marker _ ih => exact .marker (ih second)

theorem Reads.split {a c : Option Nat} {xs ys : List Item} (reads : Reads a (xs ++ ys) c) :
    ∃ b, Reads a xs b ∧ Reads b ys c := by
  induction xs generalizing a with
  | nil => exact ⟨a, .nil, reads⟩
  | cons item xs ih =>
    cases reads with
    | entry expected rest =>
      obtain ⟨b, first, second⟩ := ih rest
      exact ⟨b, .entry expected first, second⟩
    | marker rest =>
      obtain ⟨b, first, second⟩ := ih rest
      exact ⟨b, .marker first, second⟩

/-- The items read so far, and nothing is missing before the entry that comes next. -/
def Ready (start : Option Nat) (items : List Item) (next : Nat) : Prop :=
  ∃ expected, Reads start items expected ∧ (expected = none ∨ expected = some next)

theorem ready_start (next : Nat) : Ready (some next) [] next := ⟨some next, .nil, Or.inr rfl⟩

theorem Ready.entry {start : Option Nat} {items : List Item} {next : Nat} (ready : Ready start items next) :
    Ready start (items ++ [.entry next]) (next + 1) := by
  obtain ⟨expected, reads, waiting⟩ := ready
  exact ⟨some (next + 1), reads.append (.entry waiting .nil), Or.inr rfl⟩

/-- After a marker the reader is ready for any entry, whatever part of the feed it replaces. -/
theorem Ready.marker {start : Option Nat} {kept dropped : List Item} {next : Nat}
    (ready : Ready start (kept ++ dropped) next) (later : Nat) : Ready start (kept ++ [.marker]) later := by
  obtain ⟨expected, reads, -⟩ := ready
  obtain ⟨middle, first, -⟩ := reads.split
  exact ⟨none, first.append (.marker .nil), Or.inl rfl⟩

theorem Ready.reads {start : Option Nat} {kept rest : List Item} {next : Nat}
    (ready : Ready start (kept ++ rest) next) : ∃ expected, Reads start kept expected := by
  obtain ⟨expected, reads, -⟩ := ready
  obtain ⟨middle, first, -⟩ := reads.split
  exact ⟨middle, first⟩

/-- A log of consecutive numbers up to the last one given, with its oldest entries dropped. -/
def EndsAt (numbers : List Nat) (last : Nat) : Prop :=
  numbers.length ≤ last ∧ numbers = List.range' (last + 1 - numbers.length) numbers.length

theorem endsAt_nil (last : Nat) : EndsAt [] last := ⟨Nat.zero_le last, rfl⟩

theorem EndsAt.snoc {numbers : List Nat} {last : Nat} (log : EndsAt numbers last) :
    EndsAt (numbers ++ [last + 1]) (last + 1) := by
  obtain ⟨short, same⟩ := log
  have length : (numbers ++ [last + 1]).length = numbers.length + 1 := List.length_append
  rw [EndsAt, length]
  refine ⟨by omega, ?_⟩
  have start : last + 1 + 1 - (numbers.length + 1) = last + 1 - numbers.length := by omega
  have final : last + 1 - numbers.length + 1 * numbers.length = last + 1 := by omega
  rw [start, List.range'_concat, final, ← same]

theorem EndsAt.drop {numbers : List Nat} {last : Nat} (log : EndsAt numbers last) (k : Nat) :
    EndsAt (numbers.drop k) last := by
  obtain ⟨short, same⟩ := log
  have length : (numbers.drop k).length = numbers.length - k := List.length_drop
  rw [EndsAt, length]
  refine ⟨by omega, ?_⟩
  rw [same, List.length_range', List.drop_range']
  by_cases within : k ≤ numbers.length
  · have start : last + 1 - numbers.length + k * 1 = last + 1 - (numbers.length - k) := by omega
    rw [start]
  · have none : numbers.length - k = 0 := by omega
    rw [none]
    rfl

end Feed
