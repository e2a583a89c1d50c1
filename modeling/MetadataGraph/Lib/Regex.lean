import Mathlib.Data.List.Basic
import Mathlib.Data.Nat.Notation

namespace Regex

/-- What the characters of a text are to a pattern: those of `\w`, and the case that is left when a
group is compared with its text. -/
structure Alphabet where
  isWord : Char → Bool
  fold : Char → Char

/-- The patterns: `wordStart` is `\b` before a character, and `many` reads as many characters as it
can, or as few as it must if it is lazy. -/
inductive Pattern where
  | empty
  | char (p : Char → Bool)
  | wordStart (p : Char → Bool)
  | many (lazy : Bool) (p : Char → Bool)
  | seq (a b : Pattern)
  | alt (a b : Pattern)
  | group (i : ℕ) (a : Pattern)
  | backref (i : ℕ)

/-- The texts of the groups, the last one first. -/
abbrev Groups := List (ℕ × List Char)

/-- The character before what comes after a text. -/
def lastOr (before : Option Char) (text : List Char) : Option Char := text.getLast?.or before

variable (al : Alphabet)

/-- Whether a word begins between two characters, or ends. -/
def Alphabet.boundary (before : Option Char) (c : Char) : Bool := before.any al.isWord != al.isWord c

/-- A pattern reads a text. -/
inductive Reads : Pattern → Option Char → List Char → Groups → Groups → Prop
  | empty {before groups} : Reads .empty before [] groups groups
  | char {p before c groups} : p c = true → Reads (.char p) before [c] groups groups
  | wordStart {p before c groups} : p c = true → al.boundary before c = true → Reads (.wordStart p) before [c] groups groups
  | many {lazy p before text groups} : (∀ c ∈ text, p c = true) → Reads (.many lazy p) before text groups groups
  | seq {a b before first second groups groups' groups''} : Reads a before first groups groups' →
      Reads b (lastOr before first) second groups' groups'' → Reads (.seq a b) before (first ++ second) groups groups''
  | altLeft {a b before text groups groups'} : Reads a before text groups groups' → Reads (.alt a b) before text groups groups'
  | altRight {a b before text groups groups'} : Reads b before text groups groups' → Reads (.alt a b) before text groups groups'
  | group {i a before text groups groups'} : Reads a before text groups groups' →
      Reads (.group i a) before text groups ((i, text) :: groups')
  | backref {i before text other groups} : groups.lookup i = some other → text.map al.fold = other.map al.fold →
      Reads (.backref i) before text groups groups

/-- The beginnings of a text that consist of some characters, the shortest first. -/
def beginnings (p : Char → Bool) : List Char → List (List Char)
  | [] => [[]]
  | c :: text => [] :: if p c then (beginnings p text).map (c :: ·) else []

/-- What a pattern can read of a text, in the order in which it is tried. -/
def run : Pattern → Option Char → List Char → Groups → List (List Char × Groups)
  | .empty, _, _, groups => [([], groups)]
  | .char _, _, [], _ => []
  | .char p, _, c :: _, groups => if p c then [([c], groups)] else []
  | .wordStart _, _, [], _ => []
  | .wordStart p, before, c :: _, groups => if p c && al.boundary before c then [([c], groups)] else []
  | .many lazy p, _, text, groups =>
    (if lazy then beginnings p text else (beginnings p text).reverse).map fun read => (read, groups)
  | .seq a b, before, text, groups => (run a before text groups).flatMap fun first =>
    (run b (lastOr before first.1) (text.drop first.1.length) first.2).map fun second => (first.1 ++ second.1, second.2)
  | .alt a b, before, text, groups => run a before text groups ++ run b before text groups
  | .group i a, before, text, groups => (run a before text groups).map fun read => (read.1, (i, read.1) :: read.2)
  | .backref i, _, text, groups => match groups.lookup i with
    | none => []
    | some other =>
      if (text.take other.length).map al.fold = other.map al.fold then [(text.take other.length, groups)] else []

/-- `match` at a place: the text that is read first. -/
def firstRead (p : Pattern) (before : Option Char) (text : List Char) : Option (List Char) :=
  ((run al p before text []).head?).map Prod.fst

/-- `search`, from a place on. -/
def search (p : Pattern) (before : Option Char) : List Char → Bool
  | [] => (firstRead al p before []).isSome
  | c :: text => (firstRead al p before (c :: text)).isSome || search p (some c) text

/-- `sub("")`, from a place on: the characters that stay, each with whether something was taken out
directly before it. -/
def keptFrom (p : Pattern) : ℕ → Bool → Option Char → List Char → List (Char × Bool)
  | _, _, _, [] => []
  | skip + 1, _, _, c :: text => keptFrom p skip true (some c) text
  | 0, seam, before, c :: text => match firstRead al p before (c :: text) with
    | some (_ :: read) => keptFrom p read.length true (some c) text
    | _ => (c, seam) :: keptFrom p 0 false (some c) text

/-- `sub("", text)`. -/
def remove (p : Pattern) (text : List Char) : List Char := (keptFrom al p 0 false none text).map Prod.fst

variable {al}

theorem mem_beginnings {p : Char → Bool} {text read : List Char} :
    read ∈ beginnings p text ↔ (∃ rest, text = read ++ rest) ∧ ∀ c ∈ read, p c = true := by
  induction text generalizing read with
  | nil =>
    rw [beginnings, List.mem_singleton]
    constructor
    · rintro rfl
      exact ⟨⟨[], rfl⟩, fun c no => (by cases no)⟩
    · rintro ⟨⟨rest, whole⟩, -⟩
      exact (List.append_eq_nil_iff.mp whole.symm).1
  | cons c text ih =>
    rw [beginnings, List.mem_cons]
    constructor
    · rintro (rfl | longer)
      · exact ⟨⟨c :: text, rfl⟩, fun c no => (by cases no)⟩
      · split at longer
        · obtain ⟨read, shorter, rfl⟩ := List.mem_map.mp longer
          obtain ⟨⟨rest, rfl⟩, plain⟩ := ih.mp shorter
          exact ⟨⟨rest, rfl⟩, List.forall_mem_cons.mpr ⟨‹_›, plain⟩⟩
        · cases longer
    · rintro ⟨⟨rest, whole⟩, plain⟩
      cases read with
      | nil => exact .inl rfl
      | cons d read =>
        obtain ⟨rfl, rfl⟩ := List.cons.inj whole
        rw [List.forall_mem_cons] at plain
        rw [if_pos plain.1]
        exact .inr (List.mem_map_of_mem (ih.mpr ⟨⟨rest, rfl⟩, plain.2⟩))

/-- What is read does not depend on what comes after it. -/
theorem mem_run {p : Pattern} {before : Option Char} {text read : List Char} {groups groups' : Groups} :
    (read, groups') ∈ run al p before text groups ↔ (∃ rest, text = read ++ rest) ∧ Reads al p before read groups groups' := by
  induction p generalizing before text read groups groups' with
  | empty =>
    rw [run, List.mem_singleton, Prod.mk.injEq]
    constructor
    · rintro ⟨rfl, rfl⟩
      exact ⟨⟨text, rfl⟩, .empty⟩
    · rintro ⟨-, reads⟩
      cases reads
      exact ⟨rfl, rfl⟩
  | char p =>
    cases text with
    | nil =>
      refine iff_of_false (fun no => (by cases no)) ?_
      rintro ⟨⟨rest, whole⟩, reads⟩
      cases reads
      cases whole
    | cons c text =>
      rw [run]
      constructor
      · intro member
        split at member
        · rw [List.mem_singleton, Prod.mk.injEq] at member
          obtain ⟨rfl, rfl⟩ := member
          exact ⟨⟨text, rfl⟩, .char ‹_›⟩
        · cases member
      · rintro ⟨⟨rest, whole⟩, reads⟩
        cases reads with
        | char holds =>
          obtain ⟨rfl, rfl⟩ := List.cons.inj whole
          rw [if_pos holds]
          exact List.mem_cons_self
  | wordStart p =>
    cases text with
    | nil =>
      refine iff_of_false (fun no => (by cases no)) ?_
      rintro ⟨⟨rest, whole⟩, reads⟩
      cases reads
      cases whole
    | cons c text =>
      rw [run]
      constructor
      · intro member
        split at member
        · rename_i holds
          rw [Bool.and_eq_true] at holds
          rw [List.mem_singleton, Prod.mk.injEq] at member
          obtain ⟨rfl, rfl⟩ := member
          exact ⟨⟨text, rfl⟩, .wordStart holds.1 holds.2⟩
        · cases member
      · rintro ⟨⟨rest, whole⟩, reads⟩
        cases reads with
        | wordStart holds begins =>
          obtain ⟨rfl, rfl⟩ := List.cons.inj whole
          rw [holds, begins, Bool.and_self, if_pos rfl]
          exact List.mem_cons_self
  | many lazy p =>
    have order : read ∈ (if lazy then beginnings p text else (beginnings p text).reverse) ↔ read ∈ beginnings p text := by
      split
      · rfl
      · exact List.mem_reverse
    rw [run, List.mem_map]
    constructor
    · rintro ⟨read', member, same⟩
      obtain ⟨rfl, rfl⟩ := Prod.mk.inj same
      obtain ⟨begins, plain⟩ := mem_beginnings.mp (order.mp member)
      exact ⟨begins, .many plain⟩
    · rintro ⟨begins, reads⟩
      cases reads with
      | many plain => exact ⟨read, order.mpr (mem_beginnings.mpr ⟨begins, plain⟩), rfl⟩
  | seq a b first second =>
    rw [run, List.mem_flatMap]
    constructor
    · rintro ⟨⟨read₁, groups₁⟩, member, later⟩
      obtain ⟨⟨read₂, groups₂⟩, member', same⟩ := List.mem_map.mp later
      obtain ⟨rfl, rfl⟩ := Prod.mk.inj same
      obtain ⟨⟨rest, rfl⟩, reads⟩ := first.mp member
      rw [List.drop_left] at member'
      obtain ⟨⟨rest', rfl⟩, reads'⟩ := second.mp member'
      exact ⟨⟨rest', by rw [List.append_assoc]⟩, .seq reads reads'⟩
    · rintro ⟨⟨rest, rfl⟩, reads⟩
      cases reads with
      | seq reads reads' =>
        refine ⟨_, first.mpr ⟨⟨_, List.append_assoc ..⟩, reads⟩, ?_⟩
        rw [List.append_assoc, List.drop_left]
        exact List.mem_map.mpr ⟨_, second.mpr ⟨⟨rest, rfl⟩, reads'⟩, rfl⟩
  | alt a b left right =>
    rw [run, List.mem_append, left, right]
    constructor
    · rintro (⟨begins, reads⟩ | ⟨begins, reads⟩)
      · exact ⟨begins, .altLeft reads⟩
      · exact ⟨begins, .altRight reads⟩
    · rintro ⟨begins, reads⟩
      cases reads with
      | altLeft reads => exact .inl ⟨begins, reads⟩
      | altRight reads => exact .inr ⟨begins, reads⟩
  | group i a ih =>
    rw [run, List.mem_map]
    constructor
    · rintro ⟨⟨read', groups₁⟩, member, same⟩
      obtain ⟨rfl, rfl⟩ := Prod.mk.inj same
      obtain ⟨begins, reads⟩ := ih.mp member
      exact ⟨begins, .group reads⟩
    · rintro ⟨begins, reads⟩
      cases reads with
      | group reads => exact ⟨_, ih.mpr ⟨begins, reads⟩, rfl⟩
  | backref i =>
    rw [run]
    cases found : groups.lookup i with
    | none =>
      refine iff_of_false (fun no => (by cases no)) ?_
      rintro ⟨-, reads⟩
      cases reads with
      | backref given => exact absurd (found.symm.trans given) (Option.some_ne_none _).symm
    | some other =>
      dsimp only
      constructor
      · intro member
        split at member
        · rename_i same
          rw [List.mem_singleton, Prod.mk.injEq] at member
          obtain ⟨rfl, rfl⟩ := member
          exact ⟨⟨_, (List.take_append_drop ..).symm⟩, .backref found same⟩
        · cases member
      · rintro ⟨⟨rest, rfl⟩, reads⟩
        cases reads with
        | backref given same =>
          obtain rfl : other = _ := Option.some.inj (found.symm.trans given)
          have length : read.length = other.length := by simpa using congrArg List.length same
          rw [← length, List.take_left, if_pos same]
          exact List.mem_cons_self

/-! ### Shapes of what is read -/

/-- The characters that a word boundary stands before. -/
def Pattern.wordStarts : Pattern → List (Char → Bool)
  | .wordStart p => [p]
  | .seq a b | .alt a b => a.wordStarts ++ b.wordStarts
  | .group _ a => a.wordStarts
  | _ => []

/-- The pattern only has characters of some kind, and no reference to a group. -/
def Pattern.Only (P : Char → Prop) : Pattern → Prop
  | .empty => True
  | .char q | .wordStart q | .many _ q => ∀ c, q c = true → P c
  | .seq a b | .alt a b => a.Only P ∧ b.Only P
  | .group _ a => a.Only P
  | .backref _ => False

def Pattern.minLength : Pattern → ℕ
  | .char _ | .wordStart _ => 1
  | .seq a b => a.minLength + b.minLength
  | .alt a b => min a.minLength b.minLength
  | .group _ a => a.minLength
  | _ => 0

theorem lastOr_cons (before : Option Char) (c : Char) (text : List Char) : lastOr before (c :: text) = lastOr (some c) text := by
  rw [lastOr, lastOr, List.getLast?_cons]
  cases text.getLast? <;> rfl

theorem lastOr_of_ne_nil {text : List Char} (nonempty : text ≠ []) (before other : Option Char) :
    lastOr before text = lastOr other text := by
  obtain ⟨c, rest, rfl⟩ := List.exists_cons_of_ne_nil nonempty
  rw [lastOr_cons, lastOr_cons]

theorem lastOr_append (before : Option Char) (first second : List Char) :
    lastOr before (first ++ second) = lastOr (lastOr before first) second := by
  rw [lastOr, lastOr, lastOr, List.getLast?_append, Option.or_assoc]

/-- The same text is read after any other character that no word ends with. -/
theorem Reads.context {p : Pattern} {before : Option Char} {text : List Char} {groups groups' : Groups}
    (reads : Reads al p before text groups groups') {other : Option Char}
    (same : p.wordStarts = [] ∨ other = before ∨
      other.any al.isWord = false ∧ ∀ q ∈ p.wordStarts, ∀ c, q c = true → al.isWord c = true) :
    Reads al p other text groups groups' := by
  induction reads generalizing other with
  | empty => exact .empty
  | char holds => exact .char holds
  | wordStart holds begins =>
    rename_i p before c groups
    refine .wordStart holds ?_
    rcases same with none | rfl | ⟨outside, words⟩
    · cases none
    · exact begins
    · rw [Alphabet.boundary, outside, words p List.mem_cons_self c holds]
      rfl
  | many plain => exact .many plain
  | seq first second ih ih' =>
    rename_i a b before read read' groups groups' groups''
    refine .seq (ih ?_) (ih' ?_)
    · rcases same with none | rfl | ⟨outside, words⟩
      · exact .inl (List.append_eq_nil_iff.mp none).1
      · exact .inr (.inl rfl)
      · exact .inr (.inr ⟨outside, fun q member => words q (List.mem_append_left _ member)⟩)
    · by_cases empty : read = []
      · rw [empty]
        rcases same with none | rfl | ⟨outside, words⟩
        · exact .inl (List.append_eq_nil_iff.mp none).2
        · exact .inr (.inl rfl)
        · exact .inr (.inr ⟨outside, fun q member => words q (List.mem_append_right _ member)⟩)
      · exact .inr (.inl (lastOr_of_ne_nil empty other before))
  | altLeft reads ih =>
    refine .altLeft (ih ?_)
    rcases same with none | rfl | ⟨outside, words⟩
    · exact .inl (List.append_eq_nil_iff.mp none).1
    · exact .inr (.inl rfl)
    · exact .inr (.inr ⟨outside, fun q member => words q (List.mem_append_left _ member)⟩)
  | altRight reads ih =>
    refine .altRight (ih ?_)
    rcases same with none | rfl | ⟨outside, words⟩
    · exact .inl (List.append_eq_nil_iff.mp none).2
    · exact .inr (.inl rfl)
    · exact .inr (.inr ⟨outside, fun q member => words q (List.mem_append_right _ member)⟩)
  | group reads ih => exact .group (ih same)
  | backref found same' => exact .backref found same'

theorem Reads.minLength_le {p : Pattern} {before : Option Char} {text : List Char} {groups groups' : Groups}
    (reads : Reads al p before text groups groups') : p.minLength ≤ text.length := by
  induction reads with
  | char | wordStart => exact Nat.le_refl 1
  | seq first second ih ih' =>
    rw [List.length_append]
    exact Nat.add_le_add ih ih'
  | altLeft reads ih => exact Nat.le_trans (Nat.min_le_left _ _) ih
  | altRight reads ih => exact Nat.le_trans (Nat.min_le_right _ _) ih
  | group reads ih => exact ih
  | _ => exact Nat.zero_le _

theorem Reads.all {p : Pattern} {before : Option Char} {text : List Char} {groups groups' : Groups}
    (reads : Reads al p before text groups groups') {P : Char → Prop} (only : p.Only P) : ∀ c ∈ text, P c := by
  induction reads with
  | empty => exact fun c no => (by cases no)
  | char is | wordStart is =>
    intro c member
    rw [List.mem_singleton.mp member]
    exact only _ is
  | many is => exact fun c member => only c (is c member)
  | seq first second ih ih' =>
    intro c member
    rcases List.mem_append.mp member with left | right
    · exact ih only.1 c left
    · exact ih' only.2 c right
  | altLeft reads ih => exact ih only.1
  | altRight reads ih => exact ih only.2
  | group reads ih => exact ih only
  | backref => exact only.elim

/-- Whatever a pattern reads begins with some character. -/
def Begins (al : Alphabet) (p : Pattern) (c : Char) : Prop :=
  ∀ {before text groups groups'}, Reads al p before text groups groups' → text.head? = some c

/-- Whatever a pattern reads ends with some character. -/
def Ends (al : Alphabet) (p : Pattern) (c : Char) : Prop :=
  ∀ {before text groups groups'}, Reads al p before text groups groups' → text.getLast? = some c

theorem begins_char (c : Char) : Begins al (.char (· = c)) c := by
  intro before text groups groups' reads
  cases reads with
  | char is => rw [of_decide_eq_true is]; rfl

theorem ends_char (c : Char) : Ends al (.char (· = c)) c := by
  intro before text groups groups' reads
  cases reads with
  | char is => rw [of_decide_eq_true is]; rfl

theorem Begins.seq {a : Pattern} {c : Char} (first : Begins al a c) (b : Pattern) : Begins al (.seq a b) c := by
  intro before text groups groups' reads
  cases reads with
  | seq reads _ => rw [List.head?_append, first reads]; rfl

theorem Ends.seq {b : Pattern} {c : Char} (last : Ends al b c) (a : Pattern) : Ends al (.seq a b) c := by
  intro before text groups groups' reads
  cases reads with
  | seq _ reads => rw [List.getLast?_append, last reads]; rfl

theorem Begins.alt {a b : Pattern} {c : Char} (left : Begins al a c) (right : Begins al b c) : Begins al (.alt a b) c := by
  intro before text groups groups' reads
  cases reads with
  | altLeft reads => exact left reads
  | altRight reads => exact right reads

theorem Ends.alt {a b : Pattern} {c : Char} (left : Ends al a c) (right : Ends al b c) : Ends al (.alt a b) c := by
  intro before text groups groups' reads
  cases reads with
  | altLeft reads => exact left reads
  | altRight reads => exact right reads

/-! ### Searching -/

/-- A text in which a pattern reads something. -/
def Occurs (al : Alphabet) (p : Pattern) (before : Option Char) (text : List Char) : Prop :=
  ∃ x y z groups, text = x ++ y ++ z ∧ Reads al p (lastOr before x) y [] groups

theorem firstRead_some {p : Pattern} {before : Option Char} {text read : List Char}
    (found : firstRead al p before text = some read) : ∃ rest groups, text = read ++ rest ∧ Reads al p before read [] groups := by
  obtain ⟨⟨read, groups⟩, head, rfl⟩ := Option.map_eq_some_iff.mp found
  obtain ⟨⟨rest, whole⟩, reads⟩ := mem_run.mp (List.mem_of_mem_head? head)
  exact ⟨rest, groups, whole, reads⟩

theorem firstRead_none {p : Pattern} {before : Option Char} {text : List Char} (none : firstRead al p before text = none)
    {read rest : List Char} {groups : Groups} (whole : text = read ++ rest) : ¬ Reads al p before read [] groups := by
  intro reads
  have member := mem_run.mpr ⟨⟨rest, whole⟩, reads⟩
  rw [List.head?_eq_none_iff.mp (Option.map_eq_none_iff.mp none)] at member
  cases member

theorem firstRead_isSome {p : Pattern} {before : Option Char} {text : List Char} : (firstRead al p before text).isSome = true ↔
    ∃ read rest groups, text = read ++ rest ∧ Reads al p before read [] groups := by
  constructor
  · intro some
    obtain ⟨read, found⟩ := Option.isSome_iff_exists.mp some
    obtain ⟨rest, groups, whole, reads⟩ := firstRead_some found
    exact ⟨read, rest, groups, whole, reads⟩
  · rintro ⟨read, rest, groups, whole, reads⟩
    cases found : firstRead al p before text with
    | some read => rfl
    | none => exact absurd reads (firstRead_none found whole)

theorem search_iff {p : Pattern} {before : Option Char} {text : List Char} :
    search al p before text = true ↔ Occurs al p before text := by
  induction text generalizing before with
  | nil =>
    rw [search, firstRead_isSome]
    constructor
    · rintro ⟨read, rest, groups, whole, reads⟩
      exact ⟨[], read, rest, groups, whole, reads⟩
    · rintro ⟨x, y, z, groups, whole, reads⟩
      have empty := List.append_eq_nil_iff.mp (List.append_eq_nil_iff.mp whole.symm).1
      rw [empty.1] at reads
      exact ⟨y, [], groups, by rw [empty.2, List.append_nil], reads⟩
  | cons c text ih =>
    rw [search, Bool.or_eq_true, ih, firstRead_isSome]
    constructor
    · rintro (⟨read, rest, groups, whole, reads⟩ | ⟨x, y, z, groups, rfl, reads⟩)
      · exact ⟨[], read, rest, groups, whole, reads⟩
      · exact ⟨c :: x, y, z, groups, rfl, by rw [lastOr_cons]; exact reads⟩
    · rintro ⟨x, y, z, groups, whole, reads⟩
      cases x with
      | nil => exact .inl ⟨y, z, groups, whole, reads⟩
      | cons d x =>
        obtain ⟨rfl, rfl⟩ := List.cons.inj whole
        rw [lastOr_cons] at reads
        exact .inr ⟨x, y, z, groups, rfl, reads⟩

/-! ### Taking out -/

theorem keptFrom_nil (p : Pattern) (skip : ℕ) (seam : Bool) (before : Option Char) : keptFrom al p skip seam before [] = [] := by
  cases skip <;> rfl

theorem keptFrom_skip (p : Pattern) (skip : ℕ) (seam : Bool) (before : Option Char) (c : Char) (text : List Char) :
    keptFrom al p (skip + 1) seam before (c :: text) = keptFrom al p skip true (some c) text := rfl

theorem keptFrom_read {p : Pattern} {seam : Bool} {before : Option Char} {c d : Char} {text read : List Char}
    (found : firstRead al p before (c :: text) = some (d :: read)) :
    keptFrom al p 0 seam before (c :: text) = keptFrom al p read.length true (some c) text := by
  rw [keptFrom, found]

theorem keptFrom_none {p : Pattern} {seam : Bool} {before : Option Char} {c : Char} {text : List Char}
    (none : firstRead al p before (c :: text) = none) :
    keptFrom al p 0 seam before (c :: text) = (c, seam) :: keptFrom al p 0 false (some c) text := by
  rw [keptFrom, none]

theorem firstRead_nonempty {p : Pattern} (solid : 0 < p.minLength) {before : Option Char} {text read : List Char}
    (found : firstRead al p before text = some read) : read ≠ [] := by
  obtain ⟨rest, groups, whole, reads⟩ := firstRead_some found
  rintro rfl
  exact Nat.not_lt_zero _ (Nat.lt_of_lt_of_le solid reads.minLength_le)

/-- A character that is kept after a seam stands at the seam. -/
theorem keptFrom_seam {p : Pattern} (solid : 0 < p.minLength) {skip : ℕ} {before : Option Char} {text : List Char}
    {entry : Char × Bool} {rest : List (Char × Bool)} (kept : keptFrom al p skip true before text = entry :: rest) :
    entry.2 = true := by
  induction text generalizing skip before with
  | nil =>
    rw [keptFrom_nil] at kept
    cases kept
  | cons c text ih =>
    cases skip with
    | succ skip =>
      rw [keptFrom_skip] at kept
      exact ih kept
    | zero =>
      cases found : firstRead al p before (c :: text) with
      | none =>
        rw [keptFrom_none found] at kept
        rw [← (List.cons.inj kept).1]
      | some read =>
        cases read with
        | nil => exact absurd rfl (firstRead_nonempty solid found)
        | cons d read =>
          rw [keptFrom_read found] at kept
          exact ih kept

/-- What is kept without a seam stands at the beginning of the text. -/
theorem keptFrom_begins {p : Pattern} (solid : 0 < p.minLength) {before : Option Char} {text : List Char}
    {y z : List (Char × Bool)} (kept : keptFrom al p 0 false before text = y ++ z) (joined : ∀ entry ∈ y, entry.2 = false) :
    ∃ rest, text = y.map Prod.fst ++ rest := by
  induction y generalizing before text with
  | nil => exact ⟨text, rfl⟩
  | cons entry y ih =>
    rw [List.forall_mem_cons] at joined
    cases text with
    | nil =>
      rw [keptFrom_nil] at kept
      cases kept
    | cons c text =>
      cases found : firstRead al p before (c :: text) with
      | none =>
        rw [keptFrom_none found, List.cons_append] at kept
        obtain ⟨rfl, later⟩ := List.cons.inj kept
        obtain ⟨rest, rfl⟩ := ih later joined.2
        exact ⟨rest, rfl⟩
      | some read =>
        cases read with
        | nil => exact absurd rfl (firstRead_nonempty solid found)
        | cons d read =>
          rw [keptFrom_read found, List.cons_append] at kept
          exact absurd (keptFrom_seam solid kept) (by rw [joined.1]; exact Bool.false_ne_true)

/-- The character at which what is taken out here ends, if a seam is under way. -/
def Closing (skip : ℕ) (seam : Bool) (before : Option Char) (text : List Char) (close : Char) : Prop :=
  (0 < skip → ∃ read rest, text = read ++ rest ∧ read.length = skip ∧ read.getLast? = some close) ∧
    (skip = 0 → seam = true → before = some close)

/-- A stretch of what is kept in which nothing was taken out stands in the text as it is. The pattern
reads nothing at its beginning, and before it stands what stood before it among the rest, or the end of
something that was taken out. -/
theorem keptFrom_factor {p : Pattern} {close : Char} (solid : 0 < p.minLength) (ends : Ends al p close) {skip : ℕ}
    {seam : Bool} {before : Option Char} {text : List Char} (closing : Closing skip seam before text close)
    {x y z : List (Char × Bool)} (kept : keptFrom al p skip seam before text = x ++ y ++ z) (nonempty : y ≠ [])
    (joined : ∀ entry ∈ y.tail, entry.2 = false) :
    ∃ u v, text = u ++ y.map Prod.fst ++ v ∧
      (∀ read rest groups, y.map Prod.fst ++ v = read ++ rest → ¬ Reads al p (lastOr before u) read [] groups) ∧
      (lastOr before u = some close ∨ lastOr before u = lastOr before (x.map Prod.fst) ∧ (x = [] → skip = 0 ∧ seam = false)) := by
  induction text generalizing skip seam before x with
  | nil =>
    rw [keptFrom_nil] at kept
    exact absurd (List.append_eq_nil_iff.mp (List.append_eq_nil_iff.mp kept.symm).1).2 nonempty
  | cons c text ih =>
    -- A character that is taken out comes before all that is kept.
    have taken : ∀ {skip'}, Closing skip' true (some c) text close → keptFrom al p skip' true (some c) text = x ++ y ++ z →
        ∃ u v, c :: text = u ++ y.map Prod.fst ++ v ∧
          (∀ read rest groups, y.map Prod.fst ++ v = read ++ rest → ¬ Reads al p (lastOr before u) read [] groups) ∧
          (lastOr before u = some close ∨
            lastOr before u = lastOr before (x.map Prod.fst) ∧ (x = [] → skip = 0 ∧ seam = false)) := by
      intro skip' closing' kept'
      obtain ⟨u, v, rfl, quiet, context⟩ := ih closing' kept'
      refine ⟨c :: u, v, rfl, by rw [lastOr_cons]; exact quiet, ?_⟩
      rw [lastOr_cons]
      rcases context with closes | ⟨same, first⟩
      · exact .inl closes
      · have later : x ≠ [] := fun empty => absurd (first empty).2 (by decide)
        refine .inr ⟨same.trans (lastOr_of_ne_nil ?_ _ _), fun empty => absurd empty later⟩
        exact fun empty => later (List.map_eq_nil_iff.mp empty)
    -- The rest of a match closes as the match does.
    have rest : ∀ {read after : List Char}, (c :: read).getLast? = some close → text = read ++ after →
        Closing read.length true (some c) text close := by
      intro read after last whole
      refine ⟨fun more => ⟨read, after, whole, rfl, ?_⟩, fun zero _ => ?_⟩
      · cases read with
        | nil => exact absurd more (Nat.lt_irrefl 0)
        | cons d read => rw [← last, List.getLast?_cons_cons]
      · rw [List.length_eq_zero_iff.mp zero] at last
        exact last
    cases skip with
    | succ skip =>
      rw [keptFrom_skip] at kept
      obtain ⟨read, after, whole, length, last⟩ := closing.1 (Nat.succ_pos skip)
      cases read with
      | nil => cases last
      | cons d read =>
        obtain ⟨rfl, same⟩ := List.cons.inj whole
        obtain rfl : read.length = skip := Nat.succ.inj length
        exact taken (rest last same) kept
    | zero =>
      cases found : firstRead al p before (c :: text) with
      | none =>
        rw [keptFrom_none found] at kept
        cases x with
        | nil =>
          obtain ⟨entry, y, rfl⟩ := List.exists_cons_of_ne_nil nonempty
          obtain ⟨rfl, later⟩ := List.cons.inj kept
          obtain ⟨after, rfl⟩ := keptFrom_begins solid later joined
          refine ⟨[], after, rfl, fun read rest groups whole => firstRead_none found whole, ?_⟩
          cases seam with
          | false => exact .inr ⟨rfl, fun _ => ⟨rfl, rfl⟩⟩
          | true => exact .inl (closing.2 rfl rfl)
        | cons entry x =>
          obtain ⟨rfl, later⟩ := List.cons.inj kept
          obtain ⟨u, v, rfl, quiet, context⟩ := ih ⟨fun no => absurd no (Nat.lt_irrefl 0), fun _ no => (by cases no)⟩ later
          refine ⟨c :: u, v, rfl, by rw [lastOr_cons]; exact quiet, ?_⟩
          rw [lastOr_cons, List.map_cons, lastOr_cons]
          exact context.imp_right fun same => ⟨same.1, fun no => (by cases no)⟩
      | some read =>
        cases read with
        | nil => exact absurd rfl (firstRead_nonempty solid found)
        | cons d read =>
          rw [keptFrom_read found] at kept
          obtain ⟨after, groups, whole, reads⟩ := firstRead_some found
          obtain ⟨rfl, same⟩ := List.cons.inj whole
          exact taken (rest (ends reads) same) kept

theorem keptFrom_of_not_occurs {p : Pattern} {seam : Bool} {before : Option Char} {text : List Char}
    (none : ¬ Occurs al p before text) : (keptFrom al p 0 seam before text).map Prod.fst = text := by
  induction text generalizing seam before with
  | nil => rw [keptFrom_nil, List.map_nil]
  | cons c text ih =>
    have here : firstRead al p before (c :: text) = Option.none := by
      rw [← Option.not_isSome_iff_eq_none, firstRead_isSome]
      rintro ⟨read, rest, groups, whole, reads⟩
      exact none ⟨[], read, rest, groups, whole, reads⟩
    rw [keptFrom_none here, List.map_cons, ih]
    rintro ⟨x, y, z, groups, rfl, reads⟩
    exact none ⟨c :: x, y, z, groups, rfl, by rw [lastOr_cons]; exact reads⟩

theorem length_keptFrom_le {p : Pattern} (solid : 0 < p.minLength) {skip : ℕ} {seam : Bool} {before : Option Char}
    {text : List Char} : (keptFrom al p skip seam before text).length ≤ text.length := by
  induction text generalizing skip seam before with
  | nil => simp only [keptFrom_nil, List.length_nil, Nat.le_refl]
  | cons c text ih =>
    have later : ∀ {skip}, (keptFrom al p skip true (some c) text).length ≤ (c :: text).length := Nat.le_succ_of_le ih
    cases skip with
    | succ skip =>
      rw [keptFrom_skip]
      exact later
    | zero =>
      cases found : firstRead al p before (c :: text) with
      | none =>
        rw [keptFrom_none found]
        exact Nat.succ_le_succ ih
      | some read =>
        cases read with
        | nil => exact absurd rfl (firstRead_nonempty solid found)
        | cons d read =>
          rw [keptFrom_read found]
          exact later

/-- Where something is taken out the text gets shorter. -/
theorem length_keptFrom_lt {p : Pattern} (solid : 0 < p.minLength) {seam : Bool} {before : Option Char} {text : List Char}
    (occurs : Occurs al p before text) : (keptFrom al p 0 seam before text).length < text.length := by
  induction text generalizing seam before with
  | nil =>
    obtain ⟨x, y, z, groups, whole, reads⟩ := occurs
    have empty := (List.append_eq_nil_iff.mp (List.append_eq_nil_iff.mp whole.symm).1).2
    rw [empty] at reads
    exact absurd (Nat.lt_of_lt_of_le solid reads.minLength_le) (Nat.lt_irrefl 0)
  | cons c text ih =>
    cases found : firstRead al p before (c :: text) with
    | none =>
      rw [keptFrom_none found]
      refine Nat.succ_lt_succ (ih ?_)
      obtain ⟨x, y, z, groups, whole, reads⟩ := occurs
      cases x with
      | nil => exact absurd reads (firstRead_none found whole)
      | cons d x =>
        obtain ⟨rfl, rfl⟩ := List.cons.inj whole
        rw [lastOr_cons] at reads
        exact ⟨x, y, z, groups, rfl, reads⟩
    | some read =>
      cases read with
      | nil => exact absurd rfl (firstRead_nonempty solid found)
      | cons d read =>
        rw [keptFrom_read found]
        exact Nat.lt_succ_of_le (length_keptFrom_le solid)

end Regex
