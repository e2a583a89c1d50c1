import Mathlib.Data.List.TakeWhile
import MetadataGraph.Skills.Loader

namespace MetadataGraph.Skills

open Regex

variable (ch : Characters)

/-- A text with no match of the injection pattern and none of the pattern of dangerous tags. -/
def Clean (text : List Char) : Prop :=
  search ch.toAlphabet (injection ch) none text = false ∧ search ch.toAlphabet (dangerousTag ch) none text = false

/-- The texts of a skill as its prompt block shows them, with the name if it is from the file. -/
def blockTexts (skill : SkillDefinition) (named : Bool) : List (List Char) :=
  (if named then [escape skill.name] else []) ++ skill.whenToUse.toList ++ skill.effort.toList ++
    [skill.description, joinTools skill.allowedTools, skill.content]

/-- What stays of a text, each character with whether a tag was taken out directly before it. -/
def kept (text : List Char) : List (Char × Bool) :=
  strip (ch.isSpace ∘ Prod.fst) (keptFrom ch.toAlphabet (dangerousTag ch) 0 false none text)

/-- A match that the removal of a tag has brought together. -/
def Rejoined (p : Pattern) (shown : List (Char × Bool)) : Prop :=
  ∃ x y z groups, shown = x ++ y ++ z ∧
    Reads ch.toAlphabet p (lastOr none (x.map Prod.fst)) (y.map Prod.fst) [] groups ∧ ∃ entry ∈ y.tail, entry.2 = true

/-- Nothing is brought together in what stays of a text, or the text is refused as a whole. -/
def Whole (text : List Char) (shown : List (Char × Bool)) : Prop :=
  search ch.toAlphabet (injection ch) none text = true ∨
    ¬ Rejoined ch (injection ch) shown ∧ ¬ Rejoined ch (dangerousTag ch) shown

/-! ### The patterns -/

section Patterns

variable {ch}

theorem dangerousTag_ends : Ends ch.toAlphabet (dangerousTag ch) '>' :=
  Ends.alt (Ends.seq (Ends.seq (Ends.seq (Ends.seq (Ends.seq (Ends.seq (Ends.seq (Ends.seq (ends_char '>') _) _) _) _) _) _) _) _)
    (Ends.seq (Ends.seq (Ends.seq (Ends.seq (ends_char '>') _) _) _) _)

theorem dangerousTag_solid : 0 < (dangerousTag ch).minLength :=
  Nat.lt_min.mpr ⟨Nat.lt_of_lt_of_le Nat.one_pos (Nat.le_add_right 1 _), Nat.lt_of_lt_of_le Nat.one_pos (Nat.le_add_right 1 _)⟩

theorem word_minLength (text : String) : (word ch text).minLength = text.toList.length := by
  rw [word]
  induction text.toList with
  | nil => rfl
  | cons letter rest ih =>
    cases rest with
    | nil => rfl
    | cons next rest =>
      have both : (sequence ((letter :: next :: rest).map fun letter => .char (ch.caseless letter))).minLength =
          1 + (sequence ((next :: rest).map fun letter => .char (ch.caseless letter))).minLength := rfl
      rw [both, ih, List.length_cons, List.length_cons, List.length_cons, Nat.add_comm]

/-- No injection is shorter than five characters. -/
theorem injection_length : 5 ≤ (injection ch).minLength := by
  have first : ∀ (text : String) (rest : ℕ), 5 ≤ text.toList.length → 5 ≤ (word ch text).minLength + rest := by
    intro text rest enough
    rw [word_minLength]
    exact Nat.le_add_right_of_le enough
  have second : ∀ (text next : String) (rest : ℕ), 5 ≤ text.toList.length + (1 + next.toList.length) →
      5 ≤ (word ch text).minLength + ((spaces ch).minLength + ((word ch next).minLength + rest)) := by
    intro text next rest enough
    have one : (spaces ch).minLength = 1 := rfl
    rw [word_minLength, word_minLength, one]
    omega
  refine Nat.le_min.mpr ⟨?_, Nat.le_min.mpr ⟨?_, Nat.le_min.mpr ⟨?_, Nat.le_min.mpr ⟨?_, Nat.le_min.mpr ⟨?_, ?_⟩⟩⟩⟩⟩
  · exact first "ignore" _ (by decide)
  · exact Nat.le_add_left_of_le (first "YSTEM" _ (by decide))
  · exact second "you" "are" _ (by decide)
  · exact first "disregard" _ (by decide)
  · exact second "new" "instructions" _ (by decide)
  · exact first "override" _ (by decide)

theorem injection_solid : 0 < (injection ch).minLength := Nat.lt_of_lt_of_le (by decide) injection_length

theorem dangerousTag_begins : Begins ch.toAlphabet (dangerousTag ch) '<' :=
  Begins.alt (Begins.seq (begins_char '<') _) (Begins.seq (begins_char '<') _)

/-- The characters of the injection pattern. -/
def Spoken (ch : Characters) (c : Char) : Prop := ch.isWord c = true ∨ ch.isSpace c = true ∨ c = ':'

theorem only_sequence {P : Char → Prop} {ps : List Pattern} (only : ∀ p ∈ ps, p.Only P) : (sequence ps).Only P := by
  induction ps using sequence.induct with
  | case1 => exact trivial
  | case2 p => exact only p List.mem_cons_self
  | case3 p rest more ih => 
    rw [sequence]
    · exact ⟨only p List.mem_cons_self, ih fun q member => only q (List.mem_cons_of_mem _ member)⟩
    · exact more

theorem only_word {text : String} (letters : text.toList.all Char.isAlpha = true) : (word ch text).Only (Spoken ch) := by
  refine only_sequence fun p member => ?_
  obtain ⟨letter, inside, rfl⟩ := List.mem_map.mp member
  exact fun c stands => .inl (ch.word_of_caseless (List.all_eq_true.mp letters letter inside) stands)

theorem only_spaces : (spaces ch).Only (Spoken ch) := ⟨fun _ space => .inr (.inl space), fun _ space => .inr (.inl space)⟩

theorem only_colon : (Pattern.char (· = ':')).Only (Spoken ch) := fun _ colon => .inr (.inr (of_decide_eq_true colon))

theorem injection_only : (injection ch).Only (Spoken ch) := by
  have space : ∀ c, ch.isSpace c = true → Spoken ch c := fun _ space => .inr (.inl space)
  have start : ∀ c, ch.caseless 'S' c = true → Spoken ch c := fun _ letter => .inl (ch.word_of_caseless rfl letter)
  have spoken := @only_word ch
  exact ⟨⟨spoken rfl, only_spaces, ⟨⟨spoken rfl, only_spaces⟩, trivial⟩, spoken rfl, only_spaces, spoken rfl⟩,
    ⟨start, spoken rfl, only_colon, space⟩,
    ⟨spoken rfl, only_spaces, spoken rfl, only_spaces, spoken rfl, only_spaces, spoken rfl⟩,
    ⟨spoken rfl, only_spaces, ⟨⟨spoken rfl, only_spaces⟩, trivial⟩, ⟨⟨spoken rfl, only_spaces⟩, trivial⟩, spoken rfl⟩,
    ⟨spoken rfl, only_spaces, spoken rfl, space, only_colon⟩,
    ⟨spoken rfl, only_spaces, ⟨⟨spoken rfl, only_spaces⟩, trivial⟩, spoken rfl⟩⟩

end Patterns

/-! ### What stays of a text -/

section Kept

variable {ch} {text : List Char} {shown : List (Char × Bool)}

theorem strip_spec {α : Type} (space : α → Bool) (text : List α) :
    ∃ before after, text = before ++ strip space text ++ after ∧ ∀ c ∈ before, space c = true := by
  refine ⟨text.takeWhile space, ((text.dropWhile space).reverse.takeWhile space).reverse, ?_, fun c member => ?_⟩
  · rw [strip, List.append_assoc, ← List.reverse_append, List.takeWhile_append_dropWhile, List.reverse_reverse,
      List.takeWhile_append_dropWhile]
  · exact List.mem_takeWhile_imp member

theorem strip_map {α β : Type} (f : α → β) (space : β → Bool) (text : List α) :
    (strip (space ∘ f) text).map f = strip space (text.map f) := by
  rw [strip, strip, List.map_reverse, ← List.dropWhile_map, List.map_reverse, ← List.dropWhile_map]

/-- What is shown of what stays of a text. -/
def Shown (ch : Characters) (text : List Char) (shown : List (Char × Bool)) : Prop :=
  ∃ before after, keptFrom ch.toAlphabet (dangerousTag ch) 0 false none text = before ++ shown ++ after ∧
    ∀ entry ∈ before, ch.isSpace entry.1 = true

theorem shown_kept (text : List Char) : Shown ch text (kept ch text) := by
  obtain ⟨before, after, whole, space⟩ :=
    strip_spec (ch.isSpace ∘ Prod.fst) (keptFrom ch.toAlphabet (dangerousTag ch) 0 false none text)
  exact ⟨before, after, whole, space⟩

theorem shown_slice (limit : ℤ) (text : List Char) : Shown ch text (slice limit (kept ch text)) := by
  obtain ⟨before, after, whole, space⟩ := @shown_kept ch text
  let length := if 0 ≤ limit then limit.toNat else ((kept ch text).length + limit).toNat
  refine ⟨before, (kept ch text).drop length ++ after, ?_, space⟩
  have parts : slice limit (kept ch text) ++ (kept ch text).drop length = kept ch text := List.take_append_drop ..
  rw [whole, List.append_assoc, List.append_assoc, ← List.append_assoc (slice limit (kept ch text)), parts]

/-- A stretch in which no tag was taken out stands in the text, and after the same character or after
one that is no part of a word. -/
theorem Shown.factor (is : Shown ch text shown) {x y z : List (Char × Bool)} (split : shown = x ++ y ++ z) (nonempty : y ≠ [])
    (joined : ∀ entry ∈ y.tail, entry.2 = false) : ∃ u v, text = u ++ y.map Prod.fst ++ v ∧
      (∀ read rest groups, y.map Prod.fst ++ v = read ++ rest →
        ¬ Reads ch.toAlphabet (dangerousTag ch) (lastOr none u) read [] groups) ∧
      ((lastOr none u).any ch.isWord = false ∨ lastOr none u = lastOr none (x.map Prod.fst)) := by
  obtain ⟨before, after, whole, space⟩ := is
  have kept : keptFrom ch.toAlphabet (dangerousTag ch) 0 false none text = (before ++ x) ++ y ++ (z ++ after) := by
    rw [whole, split]
    simp only [List.append_assoc]
  obtain ⟨u, v, rfl, quiet, context⟩ := keptFrom_factor dangerousTag_solid dangerousTag_ends
    ⟨fun no => absurd no (Nat.lt_irrefl 0), fun _ no => (by cases no)⟩ kept nonempty joined
  refine ⟨u, v, rfl, quiet, ?_⟩
  rcases context with closes | ⟨same, -⟩
  · rw [closes]
    exact .inl (ch.signs '>' (by decide)).1
  · by_cases first : x = []
    · refine .inl ?_
      rw [same, first, List.append_nil, lastOr, Option.or_none]
      cases last : (before.map Prod.fst).getLast? with
      | none => rfl
      | some c =>
        obtain ⟨entry, inside, rfl⟩ := List.mem_map.mp (List.mem_of_getLast? last)
        exact ch.word_of_space (space entry inside)
    · refine .inr (same.trans ?_)
      rw [List.map_append, lastOr_append]
      exact lastOr_of_ne_nil (fun empty => first (List.map_eq_nil_iff.mp empty)) _ _

theorem Rejoined.occurs {p : Pattern} (rejoined : Rejoined ch p shown) : Occurs ch.toAlphabet p none (shown.map Prod.fst) := by
  obtain ⟨x, y, z, groups, rfl, reads, -⟩ := rejoined
  exact ⟨x.map Prod.fst, y.map Prod.fst, z.map Prod.fst, groups, by rw [List.map_append, List.map_append], reads⟩

/-- A match in what is shown that is not brought together stands in the text. -/
theorem Shown.occurs (is : Shown ch text shown) {p : Pattern} (solid : 0 < p.minLength)
    (occurs : Occurs ch.toAlphabet p none (shown.map Prod.fst)) (apart : ¬ Rejoined ch p shown) :
    ∃ u read v before groups, text = u ++ read ++ v ∧ Reads ch.toAlphabet p before read [] groups ∧
      (∀ read' rest groups, read ++ v = read' ++ rest →
        ¬ Reads ch.toAlphabet (dangerousTag ch) (lastOr none u) read' [] groups) ∧
      ((lastOr none u).any ch.isWord = false ∨ lastOr none u = before) := by
  obtain ⟨x', y', z', groups, whole, reads⟩ := occurs
  obtain ⟨xy, z, rfl, joint, rfl⟩ := List.map_eq_append_iff.mp whole
  obtain ⟨x, y, rfl, rfl, rfl⟩ := List.map_eq_append_iff.mp joint
  have nonempty : y ≠ [] := by
    rintro rfl
    exact Nat.not_lt_zero _ (Nat.lt_of_lt_of_le solid reads.minLength_le)
  have joined : ∀ entry ∈ y.tail, entry.2 = false := by
    intro entry member
    rw [Bool.eq_false_iff]
    exact fun seam => apart ⟨x, y, z, groups, rfl, reads, entry, member, seam⟩
  obtain ⟨u, v, same, quiet, context⟩ := is.factor rfl nonempty joined
  exact ⟨u, _, v, _, groups, same, reads, quiet, context⟩

theorem tag_rejoined (is : Shown ch text shown) :
    Occurs ch.toAlphabet (dangerousTag ch) none (shown.map Prod.fst) ↔ Rejoined ch (dangerousTag ch) shown := by
  refine ⟨fun occurs => ?_, Rejoined.occurs⟩
  by_contra apart
  obtain ⟨u, read, v, before, groups, -, reads, quiet, -⟩ := is.occurs dangerousTag_solid occurs apart
  exact quiet read v groups rfl (reads.context (.inl rfl))

theorem injection_rejoined (is : Shown ch text shown) (passed : search ch.toAlphabet (injection ch) none text = false) :
    Occurs ch.toAlphabet (injection ch) none (shown.map Prod.fst) ↔ Rejoined ch (injection ch) shown := by
  refine ⟨fun occurs => ?_, Rejoined.occurs⟩
  by_contra apart
  obtain ⟨u, read, v, before, groups, rfl, reads, -, context⟩ := is.occurs injection_solid occurs apart
  have words : ∀ q ∈ (injection ch).wordStarts, ∀ c, q c = true → ch.isWord c = true := by
    intro q member c stands
    have one : (injection ch).wordStarts = [ch.caseless 'S'] := rfl
    rw [one, List.mem_singleton] at member
    exact ch.word_of_caseless rfl (member ▸ stands)
  have again : Reads ch.toAlphabet (injection ch) (lastOr none u) read [] groups := by
    rcases context with outside | same
    · exact reads.context (.inr (.inr ⟨outside, words⟩))
    · exact reads.context (.inr (.inl same))
  exact Bool.false_ne_true (passed.symm.trans (search_iff.mpr ⟨u, read, v, groups, rfl, again⟩))

end Kept

/-! ### The escaped name -/

section Escape

variable {ch} {text : List Char}

def escapedSigns : List Char := ['&', '<', '>', '"', '\'']

theorem escape_plain {c : Char} (plain : c ∉ escapedSigns) (text : List Char) : escape (c :: text) = c :: escape text := by
  simp only [escapedSigns, List.mem_cons, List.not_mem_nil, or_false, not_or] at plain
  obtain ⟨notAmp, notLess, notGreater, notQuote, notApostrophe⟩ := plain
  rw [escape, List.flatMap_cons, if_neg notAmp, if_neg notLess, if_neg notGreater, if_neg notQuote, if_neg notApostrophe]
  rfl

/-- A short name between an ampersand and a semicolon stands for a sign. -/
theorem escape_sign {c : Char} (sign : c ∈ escapedSigns) :
    ∃ name : List Char, name.length ≤ 4 ∧ ∀ text, escape (c :: text) = '&' :: (name ++ ';' :: escape text) := by
  simp only [escapedSigns, List.mem_cons, List.not_mem_nil, or_false] at sign
  rcases sign with rfl | rfl | rfl | rfl | rfl
  · exact ⟨['a', 'm', 'p'], by decide, fun _ => rfl⟩
  · exact ⟨['l', 't'], by decide, fun _ => rfl⟩
  · exact ⟨['g', 't'], by decide, fun _ => rfl⟩
  · exact ⟨['q', 'u', 'o', 't'], by decide, fun _ => rfl⟩
  · exact ⟨['#', 'x', '2', '7'], by decide, fun _ => rfl⟩

theorem isWord_sign {c : Char} (sign : c ∈ escapedSigns) : ch.isWord c = false := by
  have all : escapedSigns ⊆ ['<', '>', '&', ';', '#', '"', '\''] := by decide
  exact (ch.signs c (all sign)).1

theorem isWord_semicolon : ch.isWord ';' = false := (ch.signs ';' (by decide)).1

/-- No sign that is escaped, nor one of an escape, is spoken. -/
theorem Spoken.plain {c : Char} (spoken : Spoken ch c) : c ∉ escapedSigns ∧ c ≠ ';' := by
  have none : ∀ sign ∈ ['<', '>', '&', ';', '#', '"', '\''], c ≠ sign := by
    rintro sign member rfl
    obtain ⟨notWord, notSpace⟩ := ch.signs c member
    rcases spoken with word | space | rfl
    · exact Bool.false_ne_true (notWord.symm.trans word)
    · exact Bool.false_ne_true (notSpace.symm.trans space)
    · exact absurd member (by decide)
  refine ⟨fun sign => ?_, none ';' (by decide)⟩
  have all : escapedSigns ⊆ ['<', '>', '&', ';', '#', '"', '\''] := by decide
  exact none c (all sign) rfl

theorem escape_begins {text y z : List Char} (plain : ∀ c ∈ y, c ∉ escapedSigns) (whole : escape text = y ++ z) :
    ∃ rest, text = y ++ rest := by
  induction y generalizing text with
  | nil => exact ⟨text, rfl⟩
  | cons c y ih =>
    rw [List.forall_mem_cons] at plain
    cases text with
    | nil => cases whole
    | cons d text =>
      by_cases sign : d ∈ escapedSigns
      · obtain ⟨name, -, coded⟩ := escape_sign sign
        rw [coded] at whole
        exact absurd ((List.cons.inj whole).1 ▸ by decide) plain.1
      · rw [escape_plain sign] at whole
        obtain ⟨rfl, later⟩ := List.cons.inj whole
        obtain ⟨rest, rfl⟩ := ih plain.2 later
        exact ⟨rest, rfl⟩

/-- A stretch of an escaped text that holds no sign of an escape and is too long for the name of one
stands in the text. -/
theorem escape_factor {text x y z : List Char} (long : 5 ≤ y.length) (plain : ∀ c ∈ y, c ∉ escapedSigns ∧ c ≠ ';')
    (whole : escape text = x ++ y ++ z) (before : Option Char) : ∃ x' z', text = x' ++ y ++ z' ∧
      ((lastOr before x').any ch.isWord = false ∨ lastOr before x' = lastOr before x) := by
  obtain ⟨head, tail, rfl⟩ := List.exists_cons_of_length_pos (Nat.lt_of_lt_of_le (by decide) long)
  induction text generalizing x before with
  | nil => exact absurd (List.append_eq_nil_iff.mp (List.append_eq_nil_iff.mp whole.symm).1).2 (List.cons_ne_nil _ _)
  | cons c text ih =>
    by_cases sign : c ∈ escapedSigns
    · obtain ⟨name, short, coded⟩ := escape_sign sign
      rw [coded] at whole
      cases x with
      | nil => exact absurd ((List.cons.inj whole).1 ▸ by decide) (plain head List.mem_cons_self).1
      | cons d x =>
        obtain ⟨rfl, inner⟩ := List.cons.inj whole
        have parts : name ++ ';' :: escape text = x ++ (head :: tail ++ z) := inner.trans (List.append_assoc ..)
        rcases List.append_eq_append_iff.mp parts with ⟨later, rfl, split⟩ | ⟨rest, rfl, split⟩
        · cases later with
          | nil => exact absurd (List.cons.inj split).1.symm (plain head List.mem_cons_self).2
          | cons e later =>
            obtain ⟨rfl, after⟩ := List.cons.inj split
            obtain ⟨x', z', rfl, context⟩ := ih (some c) (x := later) (after.trans (List.append_assoc ..).symm)
            refine ⟨c :: x', z', rfl, ?_⟩
            rw [lastOr_cons, lastOr_cons, lastOr_append, lastOr_cons]
            rcases context with outside | same
            · exact .inl outside
            · by_cases empty : later = []
              · refine .inl ?_
                rw [same, empty]
                exact isWord_sign sign
              · exact .inr (same.trans (lastOr_of_ne_nil empty _ _))
        · rw [List.length_append] at short
          rcases List.append_eq_append_iff.mp split with ⟨more, rfl, -⟩ | ⟨more, same, after⟩
          · rw [List.length_append] at short
            omega
          · cases more with
            | nil =>
              rw [List.append_nil] at same
              rw [same] at long
              omega
            | cons e more =>
              obtain ⟨rfl, -⟩ := List.cons.inj after
              have inside : ';' ∈ head :: tail := same ▸ List.mem_append_right _ List.mem_cons_self
              exact absurd rfl (plain ';' inside).2
    · rw [escape_plain sign] at whole
      cases x with
      | nil =>
        obtain ⟨rfl, later⟩ := List.cons.inj whole
        obtain ⟨rest, rfl⟩ := escape_begins (fun d member => (plain d (List.mem_cons_of_mem _ member)).1) later
        exact ⟨[], rest, rfl, .inr rfl⟩
      | cons d x =>
        obtain ⟨rfl, later⟩ := List.cons.inj whole
        obtain ⟨x', z', rfl, context⟩ := ih (some c) later
        exact ⟨c :: x', z', rfl, by rw [lastOr_cons, lastOr_cons]; exact context⟩

theorem escape_append (a b : List Char) : escape (a ++ b) = escape a ++ escape b := List.flatMap_append

theorem escape_eq_self {text : List Char} (plain : ∀ c ∈ text, c ∉ escapedSigns) : escape text = text := by
  induction text with
  | nil => rfl
  | cons c text ih =>
    rw [List.forall_mem_cons] at plain
    rw [escape_plain plain.1, ih plain.2]

theorem lastOr_escape (x : List Char) : (lastOr none (escape x)).any ch.isWord = false ∨ lastOr none (escape x) = lastOr none x := by
  rcases List.eq_nil_or_concat x with rfl | ⟨x, c, rfl⟩
  · exact .inr rfl
  · rw [List.concat_eq_append, escape_append, lastOr_append, lastOr_append]
    by_cases sign : c ∈ escapedSigns
    · obtain ⟨name, -, coded⟩ := escape_sign sign
      have last : escape [c] = ('&' :: name) ++ [';'] := coded []
      rw [last, lastOr_append]
      exact .inl isWord_semicolon
    · rw [escape_plain sign]
      exact .inr rfl

/-- Escaping a text neither makes an injection nor breaks one. -/
theorem occurs_escape : Occurs ch.toAlphabet (injection ch) none (escape text) ↔ Occurs ch.toAlphabet (injection ch) none text := by
  have words : ∀ q ∈ (injection ch).wordStarts, ∀ c, q c = true → ch.isWord c = true := by
    intro q member c stands
    have one : (injection ch).wordStarts = [ch.caseless 'S'] := rfl
    rw [one, List.mem_singleton] at member
    exact ch.word_of_caseless rfl (member ▸ stands)
  constructor
  · rintro ⟨x, y, z, groups, whole, reads⟩
    have plain : ∀ c ∈ y, c ∉ escapedSigns ∧ c ≠ ';' := fun c member => (reads.all injection_only c member).plain
    obtain ⟨x', z', same, context⟩ := escape_factor (injection_length.trans reads.minLength_le) plain whole none
    refine ⟨x', y, z', groups, same, reads.context ?_⟩
    rcases context with outside | equal
    · exact .inr (.inr ⟨outside, words⟩)
    · exact .inr (.inl equal)
  · rintro ⟨x, y, z, groups, rfl, reads⟩
    have plain : ∀ c ∈ y, c ∉ escapedSigns := fun c member => (reads.all injection_only c member).plain.1
    refine ⟨escape x, y, escape z, groups, ?_, reads.context ?_⟩
    · rw [escape_append, escape_append, escape_eq_self plain]
    · rcases lastOr_escape x with outside | equal
      · exact .inr (.inr ⟨outside, words⟩)
      · exact .inr (.inl equal)

/-- No tag is left in an escaped text. -/
theorem escape_noTag : ¬ Occurs ch.toAlphabet (dangerousTag ch) none (escape text) := by
  have noLess : ∀ text, '<' ∉ escape text := by
    intro text
    induction text with
    | nil => exact List.not_mem_nil
    | cons c text ih =>
      by_cases sign : c ∈ escapedSigns
      · simp only [escapedSigns, List.mem_cons, List.not_mem_nil, or_false] at sign
        rw [escape, List.flatMap_cons, List.mem_append, not_or]
        refine ⟨?_, ih⟩
        rcases sign with rfl | rfl | rfl | rfl | rfl <;> decide
      · rw [escape_plain sign, List.mem_cons, not_or]
        refine ⟨?_, ih⟩
        rintro rfl
        exact sign (by decide)
  rintro ⟨x, y, z, groups, whole, reads⟩
  have inside : '<' ∈ y := List.mem_of_mem_head? (dangerousTag_begins reads)
  refine noLess text ?_
  rw [whole]
  exact List.mem_append_left _ (List.mem_append_right _ inside)

end Escape

/-! ### Sanitised texts -/

section Sanitised

variable {ch} {text : List Char}

theorem clean_iff : Clean ch text ↔
    ¬ Occurs ch.toAlphabet (injection ch) none text ∧ ¬ Occurs ch.toAlphabet (dangerousTag ch) none text := by
  rw [Clean, ← search_iff, ← search_iff, Bool.not_eq_true, Bool.not_eq_true]

theorem clean_nil : Clean ch [] := by
  have empty : ∀ {p : Pattern}, 0 < p.minLength → ¬ Occurs ch.toAlphabet p none [] := by
    rintro p solid ⟨x, y, z, groups, whole, reads⟩
    rw [(List.append_eq_nil_iff.mp (List.append_eq_nil_iff.mp whole.symm).1).2] at reads
    exact Nat.not_lt_zero _ (Nat.lt_of_lt_of_le solid reads.minLength_le)
  exact clean_iff.mpr ⟨empty injection_solid, empty dangerousTag_solid⟩

theorem sanitize_eq (text : List Char) : sanitize ch text =
    if search ch.toAlphabet (injection ch) none text then [] else (kept ch text).map Prod.fst := by
  rw [sanitize, kept, strip_map]
  rfl

theorem slice_map {α β : Type} (f : α → β) (limit : ℤ) (text : List α) : slice limit (text.map f) = (slice limit text).map f := by
  rw [slice, slice, List.map_take, List.length_map]

theorem slice_nil {α : Type} (limit : ℤ) : slice limit ([] : List α) = [] := List.take_nil

/-- What is shown of a sanitised text is clean if and only if nothing was brought together in it. -/
theorem clean_shown_iff {shown : List (Char × Bool)} (is : Shown ch text shown) :
    Clean ch (if search ch.toAlphabet (injection ch) none text then [] else shown.map Prod.fst) ↔ Whole ch text shown := by
  cases passed : search ch.toAlphabet (injection ch) none text with
  | true => exact iff_of_true clean_nil (.inl passed)
  | false =>
    rw [if_neg Bool.false_ne_true, clean_iff, injection_rejoined is passed, tag_rejoined is, Whole, passed]
    exact (or_iff_right Bool.false_ne_true).symm

theorem clean_sanitize_iff (text : List Char) : Clean ch (sanitize ch text) ↔ Whole ch text (kept ch text) := by
  rw [sanitize_eq]
  exact clean_shown_iff (shown_kept text)

theorem clean_slice_iff (limit : ℤ) (text : List Char) :
    Clean ch (slice limit (sanitize ch text)) ↔ Whole ch text (slice limit (kept ch text)) := by
  have same : slice limit (sanitize ch text) = if search ch.toAlphabet (injection ch) none text then []
      else (slice limit (kept ch text)).map Prod.fst := by
    rw [sanitize_eq]
    split
    · exact slice_nil limit
    · exact slice_map Prod.fst limit _
  rw [same]
  exact clean_shown_iff (shown_slice limit text)

/-- A name is clean in its block if and only if no injection was brought together in it. -/
theorem clean_escape_iff (text : List Char) : Clean ch (escape (sanitize ch text)) ↔
    search ch.toAlphabet (injection ch) none text = true ∨ ¬ Rejoined ch (injection ch) (kept ch text) := by
  rw [clean_iff, and_iff_left escape_noTag, occurs_escape, sanitize_eq]
  cases passed : search ch.toAlphabet (injection ch) none text with
  | true => exact iff_of_true (clean_iff.mp clean_nil).1 (.inl rfl)
  | false =>
    rw [if_neg Bool.false_ne_true, injection_rejoined (shown_kept text) passed]
    exact (or_iff_right Bool.false_ne_true).symm

theorem dropWhile_of_head? {α : Type} {p : α → Bool} {text : List α} (stays : ∀ c ∈ text.head?, p c = false) :
    text.dropWhile p = text := by
  cases text with
  | nil => rfl
  | cons c rest => exact List.dropWhile_cons_of_neg (Bool.eq_false_iff.mp (stays c rfl))

theorem head?_dropWhile {α : Type} (p : α → Bool) (text : List α) : ∀ c ∈ (text.dropWhile p).head?, p c = false := by
  intro c head
  have stops := List.head?_dropWhile_not p text
  rw [Option.mem_def.mp head] at stops
  exact stops

theorem strip_strip {α : Type} (space : α → Bool) (text : List α) : strip space (strip space text) = strip space text := by
  have last : (strip space text).reverse.dropWhile space = (strip space text).reverse := by
    rw [strip, List.reverse_reverse]
    exact dropWhile_of_head? (head?_dropWhile space _)
  have first : (strip space text).dropWhile space = strip space text := by
    refine dropWhile_of_head? fun c head => head?_dropWhile space text c ?_
    have whole : text.dropWhile space = strip space text ++ ((text.dropWhile space).reverse.takeWhile space).reverse := by
      rw [strip, ← List.reverse_append, List.takeWhile_append_dropWhile, List.reverse_reverse]
    rw [whole, List.head?_append, Option.mem_def.mp head]
    rfl
  rw [strip, first, last, List.reverse_reverse]

theorem length_strip_le {α : Type} (space : α → Bool) (text : List α) : (strip space text).length ≤ text.length := by
  obtain ⟨before, after, whole, -⟩ := strip_spec space text
  have length := congrArg List.length whole
  rw [List.length_append, List.length_append] at length
  omega

/-- Sanitising a text again changes nothing if and only if the text is clean by then. -/
theorem sanitize_sanitize_iff (text : List Char) : sanitize ch (sanitize ch text) = sanitize ch text ↔ Clean ch (sanitize ch text) := by
  constructor
  · intro same
    rw [clean_iff]
    by_cases refused : search ch.toAlphabet (injection ch) none (sanitize ch text) = true
    · have empty : sanitize ch (sanitize ch text) = [] := if_pos refused
      rw [← same, empty]
      exact clean_iff.mp clean_nil
    · refine ⟨fun occurs => refused (search_iff.mpr occurs), fun occurs => ?_⟩
      have shorter : (keptFrom ch.toAlphabet (dangerousTag ch) 0 false none (sanitize ch text)).length < _ :=
        length_keptFrom_lt dangerousTag_solid occurs
      have again : sanitize ch (sanitize ch text) = strip ch.isSpace (remove ch.toAlphabet (dangerousTag ch) (sanitize ch text)) :=
        if_neg refused
      have length := length_strip_le ch.isSpace (remove ch.toAlphabet (dangerousTag ch) (sanitize ch text))
      rw [← again, same, remove, List.length_map] at length
      omega
  · intro clean
    obtain ⟨noInjection, noTag⟩ := clean_iff.mp clean
    have passed : ¬ search ch.toAlphabet (injection ch) none (sanitize ch text) = true := fun found => noInjection (search_iff.mp found)
    have again : sanitize ch (sanitize ch text) = strip ch.isSpace (remove ch.toAlphabet (dangerousTag ch) (sanitize ch text)) :=
      if_neg passed
    rw [again, remove, keptFrom_of_not_occurs noTag, sanitize]
    split
    · rfl
    · exact strip_strip _ _

end Sanitised

/-! ### Files -/

/-- A file begins with front matter. -/
def hasFrontMatter (l : Loader) (text : List Char) : Bool := "---".toList.isPrefixOf (strip l.isSpace text)

/-- What the fields of the front matter and the body must be like. The effort and the tools are shown
as they are. -/
structure SoundFields (l : Loader) (fm : Dict Entry) (body : List Char) : Prop where
  name : ∀ raw, textOf l fm "name" = some raw →
    search l.toAlphabet (injection l.toCharacters) none raw = true ∨
      ¬ Rejoined l.toCharacters (injection l.toCharacters) (kept l.toCharacters raw)
  description : ∀ raw, textOf l fm "description" = some raw → Whole l.toCharacters raw (kept l.toCharacters raw)
  whenToUse : ∀ raw, raw ≠ [] → whenToUseOf fm = some (.text raw) → Whole l.toCharacters raw (kept l.toCharacters raw)
  effort : ∀ effort, l.optionalText fm["effort"]? = some (some effort) → Clean l.toCharacters effort
  tools : Clean l.toCharacters (joinTools (toolsOf l fm))
  body : Whole l.toCharacters body (slice l.maxSkillBodyChars (kept l.toCharacters body))

/-- What a file must be like. -/
def Sound (l : Loader) (text : List Char) : Prop :=
  let text := strip l.isSpace text
  if "---".toList.isPrefixOf text then
    ∀ front body fm, cut (text.drop 3) = some (front, body) → l.yaml (strip l.isSpace front) = .dict fm →
      SoundFields l fm (strip l.isSpace (strip l.isSpace body))
  else Whole l.toCharacters text (slice l.maxSkillBodyChars (kept l.toCharacters text))

section Files

variable {l : Loader} {skill : SkillDefinition}

/-- The fields of a skill that is accepted with front matter. -/
structure Fields (l : Loader) (fm : Dict Entry) (body : List Char) (skill : SkillDefinition) : Prop where
  name : ∃ raw, textOf l fm "name" = some raw ∧ skill.name = sanitize l.toCharacters raw
  description : ∃ raw, textOf l fm "description" = some raw ∧ skill.description = sanitize l.toCharacters raw
  whenToUse : (∃ raw, raw ≠ [] ∧ whenToUseOf fm = some (.text raw) ∧ skill.whenToUse = some (sanitize l.toCharacters raw)) ∨
    (∀ raw, raw ≠ [] → whenToUseOf fm ≠ some (.text raw)) ∧ skill.whenToUse = none
  effort : l.optionalText fm["effort"]? = some skill.effort
  tools : skill.allowedTools = toolsOf l fm
  content : skill.content = slice l.maxSkillBodyChars (sanitize l.toCharacters (strip l.isSpace body))

theorem parseFrontMatter_accepted {fm : Dict Entry} {body : List Char} (accepted : parseFrontMatter l fm body = .accepted skill) :
    Fields l fm body skill := by
  rw [parseFrontMatter] at accepted
  split at accepted
  · cases accepted
  rename_i rawName name
  dsimp only at accepted
  split at accepted
  · cases accepted
  split at accepted
  · cases accepted
  split at accepted
  · cases accepted
  rename_i rawDescription description
  split at accepted
  · cases accepted
  split at accepted
  · cases accepted
  -- The constructor is called in the end, with one of two values for the text of the use.
  have built : ∀ whenToUse, construct l fm (sanitize l.toCharacters rawName) (sanitize l.toCharacters rawDescription)
      (sanitize l.toCharacters (strip l.isSpace body)) whenToUse = .accepted skill →
      ((∃ raw, raw ≠ [] ∧ whenToUseOf fm = some (.text raw) ∧ whenToUse = some (sanitize l.toCharacters raw)) ∨
        (∀ raw, raw ≠ [] → whenToUseOf fm ≠ some (.text raw)) ∧ whenToUse = none) → Fields l fm body skill := by
    intro whenToUse made use
    rw [construct] at made
    split at made
    · rename_i effort license given valid
      cases made
      exact ⟨⟨rawName, name, rfl⟩, ⟨rawDescription, description, rfl⟩, use, given, rfl, rfl⟩
    · cases made
  split at accepted
  · rename_i absent
    exact built none accepted (.inr ⟨fun raw _ => by rw [absent]; exact fun no => (by cases no), rfl⟩)
  · rename_i entry given
    split at accepted
    · rename_i untrue
      refine built none accepted (.inr ⟨fun raw nonempty same => ?_, rfl⟩)
      rw [given] at same
      rw [Option.some.inj same, Entry.truthy, decide_eq_true nonempty] at untrue
      cases untrue
    · rename_i isTrue
      split at accepted
      · rename_i raw
        have nonempty : raw ≠ [] := by
          rintro rfl
          exact isTrue rfl
        exact built _ accepted (.inl ⟨raw, nonempty, given, rfl⟩)
      · cases accepted

theorem mem_blockTexts {named : Bool} {text : List Char} : text ∈ blockTexts skill named ↔
    named = true ∧ text = escape skill.name ∨ skill.whenToUse = some text ∨ skill.effort = some text ∨
      text = skill.description ∨ text = joinTools skill.allowedTools ∨ text = skill.content := by
  rw [blockTexts]
  simp only [List.mem_append, List.mem_cons, List.not_mem_nil, or_false, Option.mem_toList]
  cases named with
  | true => rw [if_pos rfl, List.mem_singleton]; simp only [true_and, or_assoc]
  | false =>
    rw [if_neg Bool.false_ne_true]
    simp only [List.not_mem_nil, false_or, or_assoc]
    exact (or_iff_right fun no => Bool.false_ne_true no.1).symm

theorem blockTexts_clean_iff {fm : Dict Entry} {body : List Char} (fields : Fields l fm body skill) :
    (∀ text ∈ blockTexts skill true, Clean l.toCharacters text) ↔ SoundFields l fm (strip l.isSpace body) := by
  obtain ⟨rawName, name, named⟩ := fields.name
  obtain ⟨rawDescription, description, described⟩ := fields.description
  constructor
  · intro clean
    have field : ∀ text, (true = true ∧ text = escape skill.name ∨ skill.whenToUse = some text ∨ skill.effort = some text ∨
        text = skill.description ∨ text = joinTools skill.allowedTools ∨ text = skill.content) → Clean l.toCharacters text :=
      fun text shown => clean text (mem_blockTexts.mpr shown)
    refine ⟨fun raw given => ?_, fun raw given => ?_, fun raw nonempty given => ?_, fun effort given => ?_, ?_, ?_⟩
    · obtain rfl : rawName = raw := Option.some.inj (name.symm.trans given)
      exact (clean_escape_iff rawName).mp (named ▸ field _ (.inl ⟨rfl, rfl⟩))
    · obtain rfl : rawDescription = raw := Option.some.inj (description.symm.trans given)
      exact (clean_sanitize_iff rawDescription).mp (described ▸ field _ (.inr (.inr (.inr (.inl rfl)))))
    · rcases fields.whenToUse with ⟨raw', -, given', shown⟩ | ⟨none, -⟩
      · obtain rfl : raw' = raw := Entry.text.inj (Option.some.inj (given'.symm.trans given))
        exact (clean_sanitize_iff raw').mp (field _ (.inr (.inl shown)))
      · exact absurd given (none raw nonempty)
    · exact field effort (.inr (.inr (.inl (Option.some.inj (fields.effort.symm.trans given)))))
    · exact fields.tools ▸ field _ (.inr (.inr (.inr (.inr (.inl rfl)))))
    · exact (clean_slice_iff _ _).mp (fields.content ▸ field _ (.inr (.inr (.inr (.inr (.inr rfl))))))
  · intro sound text member
    rcases mem_blockTexts.mp member with ⟨-, rfl⟩ | use | effort | rfl | rfl | rfl
    · rw [named]
      exact (clean_escape_iff rawName).mpr (sound.name rawName name)
    · rcases fields.whenToUse with ⟨raw, nonempty, given, shown⟩ | ⟨-, none⟩
      · rw [← Option.some.inj (shown.symm.trans use)]
        exact (clean_sanitize_iff raw).mpr (sound.whenToUse raw nonempty given)
      · cases none.symm.trans use
    · exact sound.effort text (effort ▸ fields.effort)
    · rw [described]
      exact (clean_sanitize_iff rawDescription).mpr (sound.description rawDescription description)
    · rw [fields.tools]
      exact sound.tools
    · rw [fields.content]
      exact (clean_slice_iff _ _).mpr sound.body

theorem block_clean_iff {nameFromUrl text : List Char} (accepted : parseSkillMd l nameFromUrl text = .accepted skill) :
    (∀ shown ∈ blockTexts skill (hasFrontMatter l text), Clean l.toCharacters shown) ↔ Sound l text := by
  rw [parseSkillMd] at accepted
  rw [Sound, hasFrontMatter]
  dsimp only at accepted ⊢
  cases dashes : "---".toList.isPrefixOf (strip l.isSpace text) with
  | false =>
    rw [dashes, Bool.not_false, if_pos rfl] at accepted
    rw [if_neg Bool.false_ne_true]
    split at accepted
    · cases accepted
    · cases accepted
      rw [← clean_slice_iff]
      constructor
      · intro clean
        exact clean _ (mem_blockTexts.mpr (.inr (.inr (.inr (.inr (.inr rfl))))))
      · intro clean shown member
        rcases mem_blockTexts.mp member with ⟨no, -⟩ | no | no | rfl | rfl | rfl
        · cases no
        · cases no
        · cases no
        · exact clean_nil
        · exact clean_nil
        · exact clean
  | true =>
    rw [dashes, Bool.not_true, if_neg Bool.false_ne_true] at accepted
    rw [if_pos rfl]
    split at accepted
    · cases accepted
    rename_i front body split
    split at accepted
    · cases accepted
    · cases accepted
    rename_i fm parsed
    rw [blockTexts_clean_iff (parseFrontMatter_accepted accepted)]
    constructor
    · intro sound front' body' fm' split' parsed'
      obtain ⟨rfl, rfl⟩ := Prod.mk.inj (Option.some.inj (split.symm.trans split'))
      obtain rfl := Parsed.dict.inj (parsed.symm.trans parsed')
      exact sound
    · intro sound
      exact sound front body fm split parsed

/-- What a skill that is accepted shows is clean if and only if its file is sound. A text is
sanitised for good, and is clean, if and only if nothing is brought together where a tag was. -/
theorem skill_clean_iff (l : Loader) :
    (∀ nameFromUrl text skill, parseSkillMd l nameFromUrl text = .accepted skill →
      ((∀ shown ∈ blockTexts skill (hasFrontMatter l text), Clean l.toCharacters shown) ↔ Sound l text)) ∧
    ∀ text, sanitize l.toCharacters (sanitize l.toCharacters text) = sanitize l.toCharacters text ∧
      Clean l.toCharacters (sanitize l.toCharacters text) ↔ Whole l.toCharacters text (kept l.toCharacters text) := by
  refine ⟨fun nameFromUrl text skill accepted => block_clean_iff accepted, fun text => ?_⟩
  rw [sanitize_sanitize_iff, and_self, clean_sanitize_iff]

end Files

/-- Nothing is brought together where no tag was. -/
theorem whole_of_noSeam {ch : Characters} {text : List Char} {shown : List (Char × Bool)} (none : shown.all (!·.2) = true) :
    Whole ch text shown := by
  have apart : ∀ p, ¬ Rejoined ch p shown := by
    rintro p ⟨x, y, z, groups, rfl, -, entry, member, seam⟩
    have flag := List.all_eq_true.mp none entry (List.mem_append_left _ (List.mem_append_right _ (List.mem_of_mem_tail member)))
    rw [seam] at flag
    cases flag
  exact .inr ⟨apart _, apart _⟩

private theorem sampleCharacters_word {letter c : Char} (stands : (c.isAlpha && c.toLower = letter.toLower) = true) :
    (c.isAlphanum || c = '_') = true := by
  rw [Bool.and_eq_true] at stands
  have letter : (c.isAlpha || c.isDigit) = true := by rw [stands.1, Bool.true_or]
  change ((c.isAlpha || c.isDigit) || c = '_') = true
  rw [letter, Bool.true_or]

private theorem sampleCharacters_space {c : Char} (space : decide (c ∈ [' ', '\t', '\n', '\r']) = true) :
    (c.isAlphanum || c = '_') = false := by
  have all : [' ', '\t', '\n', '\r'].all (fun c => !(c.isAlphanum || c = '_')) = true := by decide
  have outside := List.all_eq_true.mp all c (of_decide_eq_true space)
  rw [Bool.not_eq_true'] at outside
  exact outside

private theorem sampleCharacters_signs (c : Char) (sign : c ∈ ['<', '>', '&', ';', '#', '"', '\'']) :
    (c.isAlphanum || c = '_') = false ∧ decide (c ∈ [' ', '\t', '\n', '\r']) = false := by
  have all : ['<', '>', '&', ';', '#', '"', '\''].all (fun c => (c.isAlphanum || c = '_') = false ∧
      decide (c ∈ [' ', '\t', '\n', '\r']) = false) = true := by decide
  exact of_decide_eq_true (List.all_eq_true.mp all c sign)

def sampleFrontMatter : Dict Entry := .of [("name", .text "reader".toList)]

private theorem sampleFrontMatter_none {key : String} (other : key ≠ "name") : sampleFrontMatter[key]? = none :=
  Dict.getElem?_of_eq_none (by rw [List.map_singleton, List.mem_singleton]; exact other)

def sampleLoader : Loader where
  isWord c := c.isAlphanum || c = '_'
  fold := Char.toLower
  isSpace c := c ∈ [' ', '\t', '\n', '\r']
  caseless letter c := c.isAlpha && c.toLower = letter.toLower
  word_of_caseless := fun _ stands => sampleCharacters_word stands
  word_of_space := fun space => sampleCharacters_space space
  signs := sampleCharacters_signs
  yaml _ := .dict sampleFrontMatter
  optionalText := fun entry => match entry with
    | none => some none
    | some (.text value) => some (some value)
    | some _ => none
  maxSkillBodyChars := 8000

def plainFile : List Char := "---\nname: reader\n---\nRead the <b>files</b>.".toList

private def plainSkill : SkillDefinition where
  name := "reader".toList
  description := []
  content := "Read the <b>files</b>.".toList

/-- A body in which a tag stands inside a tag. -/
private def nestedTag : List Char := "<<meta>meta>".toList

private theorem sampleFiles_facts : hasFrontMatter sampleLoader plainFile = true ∧ parseSkillMd sampleLoader [] plainFile = .accepted plainSkill ∧
    textOf sampleLoader sampleFrontMatter "name" = some "reader".toList ∧
    (kept sampleLoader.toCharacters "reader".toList).all (!·.2) = true ∧
    cut ((strip sampleLoader.isSpace plainFile).drop 3) = some ("\nname: reader\n".toList, "\nRead the <b>files</b>.".toList) ∧
    (kept sampleLoader.toCharacters (strip sampleLoader.isSpace (strip sampleLoader.isSpace
      "\nRead the <b>files</b>.".toList))).all (!·.2) = true ∧
    parseSkillMd sampleLoader [] nestedTag = .accepted { name := [], description := [], content := "<meta>".toList } ∧
    search sampleLoader.toAlphabet (dangerousTag sampleLoader.toCharacters) none "<meta>".toList = true := by
  decide +kernel

private theorem plainFile_sound : Sound sampleLoader plainFile := by
  obtain ⟨dashes, -, named, noSeam, split, noSeam', -, -⟩ := sampleFiles_facts
  rw [Sound]
  refine (if_pos dashes).mpr ?_
  intro front body fm split' parsed
  obtain ⟨-, rfl⟩ := Prod.mk.inj (Option.some.inj (split.symm.trans split'))
  obtain rfl : sampleFrontMatter = fm := Parsed.dict.inj parsed
  have empty : ∀ {raw}, textOf sampleLoader sampleFrontMatter "description" = some raw → raw = [] := by
    intro raw given
    rw [textOf, sampleFrontMatter_none (by decide)] at given
    exact (Option.some.inj given).symm
  have noUse : whenToUseOf sampleFrontMatter = none := by
    rw [whenToUseOf, sampleFrontMatter_none (by decide)]
    exact sampleFrontMatter_none (by decide)
  have noTools : toolsOf sampleLoader sampleFrontMatter = [] := by
    rw [toolsOf, sampleFrontMatter_none (by decide), sampleFrontMatter_none (by decide)]
    rfl
  refine ⟨fun raw given => ?_, fun raw given => ?_, fun raw _ given => ?_, fun effort given => ?_, ?_, ?_⟩
  · obtain rfl := Option.some.inj (named.symm.trans given)
    exact (whole_of_noSeam noSeam).imp_right And.left
  · rw [empty given]
    exact whole_of_noSeam rfl
  · cases noUse.symm.trans given
  · rw [sampleFrontMatter_none (by decide)] at given
    cases given
  · rw [noTools]
    exact clean_nil
  · have shown := List.all_eq_true.mp noSeam'
    exact whole_of_noSeam (List.all_eq_true.mpr fun entry member => shown entry (List.mem_of_mem_take member))

theorem skill_clean_plain : ∀ shown ∈ blockTexts plainSkill (hasFrontMatter sampleLoader plainFile),
    Clean sampleLoader.toCharacters shown :=
  ((skill_clean_iff sampleLoader).1 [] plainFile plainSkill sampleFiles_facts.2.1).mpr plainFile_sound

/-- What is left of two tags, one inside the other, is a tag. -/
theorem nested_tag_rejoins : ¬ ((∀ (l : Loader) nameFromUrl text skill, parseSkillMd l nameFromUrl text = .accepted skill →
      ∀ shown ∈ blockTexts skill (hasFrontMatter l text), Clean l.toCharacters shown) ∧
    ∀ (l : Loader) text, sanitize l.toCharacters (sanitize l.toCharacters text) = sanitize l.toCharacters text ∧
      Clean l.toCharacters (sanitize l.toCharacters text)) := by
  rintro ⟨clean, -⟩
  obtain ⟨-, -, -, -, -, -, accepted, found⟩ := sampleFiles_facts
  have content := clean sampleLoader [] nestedTag _ accepted _ (mem_blockTexts.mpr (.inr (.inr (.inr (.inr (.inr rfl))))))
  exact Bool.false_ne_true (content.2.symm.trans found)

end MetadataGraph.Skills
