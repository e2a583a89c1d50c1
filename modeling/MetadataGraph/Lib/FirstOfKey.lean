import Mathlib.Data.List.Induction

namespace FirstOfKey

variable {α κ : Type} [DecidableEq κ]

/-- The first element of each key, where some keys have been seen. -/
def firstOfKey (key : α → κ) (seen : List κ) : List α → List α
  | [] => []
  | a :: rest => if key a ∈ seen then firstOfKey key seen rest else a :: firstOfKey key (key a :: seen) rest

variable {key : α → κ}

theorem firstOfKey_concat (seen : List κ) (l : List α) (a : α) :
    firstOfKey key seen (l ++ [a]) =
      firstOfKey key seen l ++ if key a ∈ seen ∨ key a ∈ l.map key then [] else [a] := by
  induction l generalizing seen with
  | nil => simp [firstOfKey]
  | cons b l ih =>
    rw [List.cons_append, firstOfKey, firstOfKey]
    split
    · rename_i known
      rw [ih]
      have same : (key a ∈ seen ∨ key a ∈ (b :: l).map key) ↔ (key a ∈ seen ∨ key a ∈ l.map key) := by
        rw [List.map_cons, List.mem_cons]
        constructor
        · rintro (before | here | later)
          · exact .inl before
          · exact .inl (here ▸ known)
          · exact .inr later
        · rintro (before | later)
          · exact .inl before
          · exact .inr (.inr later)
      simp only [same]
    · rw [ih, List.cons_append]
      have same : (key a ∈ key b :: seen ∨ key a ∈ l.map key) ↔ (key a ∈ seen ∨ key a ∈ (b :: l).map key) := by
        rw [List.map_cons, List.mem_cons, List.mem_cons]
        tauto
      simp only [same]

theorem mem_keys_firstOfKey (l : List α) (k : κ) : k ∈ (firstOfKey key [] l).map key ↔ k ∈ l.map key := by
  induction l using List.reverseRec with
  | nil => rfl
  | append_singleton l a ih =>
    rw [firstOfKey_concat, List.map_append, List.mem_append, ih, List.map_append, List.mem_append]
    split
    · rename_i seen
      rw [or_iff_right List.not_mem_nil] at seen
      constructor
      · exact fun member => .inl (member.resolve_right List.not_mem_nil)
      · rintro (member | last)
        · exact .inl member
        · rw [List.map_singleton, List.mem_singleton] at last
          exact .inl (last ▸ seen)
    · rfl

/-- An element is kept where its key comes first. -/
theorem mem_firstOfKey {l : List α} {a : α} (kept : a ∈ firstOfKey key [] l) :
    ∃ before after, l = before ++ a :: after ∧ key a ∉ before.map key := by
  induction l using List.reverseRec with
  | nil => cases kept
  | append_singleton l b ih =>
    rw [firstOfKey_concat, List.mem_append] at kept
    rcases kept with earlier | last
    · obtain ⟨before, after, rfl, fresh⟩ := ih earlier
      exact ⟨before, after ++ [b], by simp, fresh⟩
    · split at last
      · cases last
      · rename_i unseen
        obtain rfl := List.mem_singleton.mp last
        exact ⟨l, [], rfl, fun member => unseen (.inr member)⟩

theorem map_firstOfKey {β : Type} (other : β → κ) (f : α → β) (same : ∀ a, other (f a) = key a) (seen : List κ) (l : List α) :
    (firstOfKey key seen l).map f = firstOfKey other seen (l.map f) := by
  induction l generalizing seen with
  | nil => rfl
  | cons a l ih =>
    rw [List.map_cons, firstOfKey, firstOfKey, same]
    split
    · exact ih seen
    · rw [List.map_cons, ih]

section Stages

variable {σ β ι : Type} [DecidableEq ι]

/-- Sources are looked at once for a quick key, and again for what they hold. -/
structure Stages (σ β κ ι : Type) where
  quick : σ → Option κ
  full : σ → Option β
  name : β → ι

variable (g : Stages σ β κ ι)

/-- What the sources hold, the first of each name. -/
def direct (sources : List σ) : List β := firstOfKey g.name [] (sources.filterMap g.full)

/-- The sources with a quick key, the first of each, under that key. -/
def quickly (sources : List σ) : List (κ × σ) :=
  firstOfKey Prod.fst [] (sources.filterMap fun s => (g.quick s).map fun k => (k, s))

/-- What those sources hold, the first of each name. -/
def staged (sources : List σ) : List β := firstOfKey g.name [] ((quickly g sources).filterMap fun entry => g.full entry.2)

/-- Where a source is the first to hold something of its name, its quick key is new as well. -/
def Agree (sources : List σ) : Prop :=
  ∀ before s after, sources = before ++ s :: after → ∀ b, g.full s = some b →
    (∀ earlier ∈ before, ∀ c, g.full earlier = some c → g.name c ≠ g.name b) →
    ∃ k, g.quick s = some k ∧ ∀ earlier ∈ before, g.quick earlier ≠ some k

variable {g}

omit [DecidableEq κ] [DecidableEq ι] in
theorem mem_names {sources : List σ} {i : ι} :
    i ∈ (sources.filterMap g.full).map g.name ↔ ∃ s ∈ sources, ∃ b, g.full s = some b ∧ g.name b = i := by
  simp only [List.mem_map, List.mem_filterMap]
  constructor
  · rintro ⟨b, ⟨s, member, holds⟩, rfl⟩
    exact ⟨s, member, b, holds, rfl⟩
  · rintro ⟨s, member, b, holds, rfl⟩
    exact ⟨b, ⟨s, member, holds⟩, rfl⟩

omit [DecidableEq κ] [DecidableEq ι] in
theorem mem_quicks {sources : List σ} {k : κ} :
    k ∈ (sources.filterMap fun s => (g.quick s).map fun k => (k, s)).map Prod.fst ↔ ∃ s ∈ sources, g.quick s = some k := by
  simp only [List.mem_map, List.mem_filterMap, Option.map_eq_some_iff]
  constructor
  · rintro ⟨_, ⟨s, member, k, holds, rfl⟩, rfl⟩
    exact ⟨s, member, holds⟩
  · rintro ⟨s, member, holds⟩
    exact ⟨(k, s), ⟨s, member, k, holds, rfl⟩, rfl⟩

omit [DecidableEq κ] [DecidableEq ι] in
theorem Agree.of_append {l m : List σ} (agree : Agree g (l ++ m)) : Agree g l := by
  rintro before s after rfl
  exact agree before s (after ++ m) (by simp)

/-- A new quick key. -/
def IsNew (g : Stages σ β κ ι) (l : List σ) (s : σ) (k : κ) : Prop :=
  g.quick s = some k ∧ ∀ earlier ∈ l, g.quick earlier ≠ some k

omit [DecidableEq ι] in
theorem quickly_of_new {l : List σ} {s : σ} {k : κ} (new : IsNew g l s k) : quickly g (l ++ [s]) = quickly g l ++ [(k, s)] := by
  have unmatched : ¬ (k ∈ ([] : List κ) ∨ k ∈ (l.filterMap fun s => (g.quick s).map fun k => (k, s)).map Prod.fst) := by
    rw [mem_quicks, or_iff_right List.not_mem_nil]
    exact fun ⟨earlier, member, same⟩ => new.2 earlier member same
  have last : [s].filterMap (fun s => (g.quick s).map fun k => (k, s)) = [(k, s)] := by simp [new.1]
  rw [quickly, List.filterMap_append, last, firstOfKey_concat, if_neg unmatched, quickly]

omit [DecidableEq ι] in
theorem quickly_of_old {l : List σ} {s : σ} (old : ∀ k, ¬ IsNew g l s k) : quickly g (l ++ [s]) = quickly g l := by
  rw [quickly, List.filterMap_append, quickly]
  cases quick : g.quick s with
  | none => simp [quick]
  | some k =>
    have last : [s].filterMap (fun s => (g.quick s).map fun k => (k, s)) = [(k, s)] := by simp [quick]
    have matched : k ∈ (l.filterMap fun s => (g.quick s).map fun k => (k, s)).map Prod.fst := by
      rw [mem_quicks]
      by_contra unmatched
      exact old k ⟨quick, fun earlier member same => unmatched ⟨earlier, member, same⟩⟩
    rw [last, firstOfKey_concat, if_pos (.inr matched), List.append_nil]

omit [DecidableEq κ] in
theorem direct_of_none {l : List σ} {s : σ} (holds : g.full s = none) : direct g (l ++ [s]) = direct g l := by
  rw [direct, List.filterMap_append, List.filterMap_cons_none holds, List.filterMap_nil, List.append_nil, direct]

omit [DecidableEq κ] in
theorem direct_of_some {l : List σ} {s : σ} {b : β} (holds : g.full s = some b) :
    direct g (l ++ [s]) = direct g l ++ if g.name b ∈ (direct g l).map g.name then [] else [b] := by
  rw [direct, List.filterMap_append, List.filterMap_cons_some holds, List.filterMap_nil, firstOfKey_concat, direct]
  simp only [mem_keys_firstOfKey, List.not_mem_nil, false_or]

theorem staged_of_old {l : List σ} {s : σ} (old : ∀ k, ¬ IsNew g l s k) : staged g (l ++ [s]) = staged g l := by
  rw [staged, quickly_of_old old, staged]

theorem staged_of_none {l : List σ} {s : σ} (holds : g.full s = none) : staged g (l ++ [s]) = staged g l := by
  by_cases new : ∃ k, IsNew g l s k
  · obtain ⟨k, new⟩ := new
    rw [staged, quickly_of_new new, List.filterMap_append]
    simp [holds, staged]
  · exact staged_of_old fun k is_new => new ⟨k, is_new⟩

theorem staged_of_new {l : List σ} {s : σ} {k : κ} (new : IsNew g l s k) {b : β} (holds : g.full s = some b) :
    staged g (l ++ [s]) = staged g l ++ if g.name b ∈ (staged g l).map g.name then [] else [b] := by
  have last : [(k, s)].filterMap (fun entry => g.full entry.2) = [b] := by simp [holds]
  rw [staged, quickly_of_new new, List.filterMap_append, last, firstOfKey_concat, staged]
  simp only [mem_keys_firstOfKey, List.not_mem_nil, false_or]

/-- Lists of first elements that grow by one source stay the same if both take it or none does. -/
theorem staged_eq_direct {sources : List σ} (agree : Agree g sources) : staged g sources = direct g sources := by
  induction sources using List.reverseRec with
  | nil => rfl
  | append_singleton l s ih =>
    have before : staged g l = direct g l := ih agree.of_append
    cases holds : g.full s with
    | none => rw [staged_of_none holds, direct_of_none holds, before]
    | some b =>
      by_cases new : ∃ k, IsNew g l s k
      · obtain ⟨k, new⟩ := new
        rw [staged_of_new new holds, direct_of_some holds, before]
      · have old := staged_of_old fun k is_new => new ⟨k, is_new⟩
        have named : g.name b ∈ (direct g l).map g.name := by
          by_contra unnamed
          refine new (agree l s [] rfl b holds fun earlier member c held same => unnamed ?_)
          rw [direct, mem_keys_firstOfKey]
          exact mem_names.mpr ⟨earlier, member, c, held, same⟩
        rw [old, direct_of_some holds, if_pos named, List.append_nil, before]

omit [DecidableEq κ] in
/-- A source that is the first to hold something of its name is kept by the direct way. -/
theorem mem_direct {before : List σ} {s : σ} {b : β} (holds : g.full s = some b)
    (fresh : ∀ earlier ∈ before, ∀ c, g.full earlier = some c → g.name c ≠ g.name b) (after : List σ) :
    b ∈ direct g (before ++ s :: after) := by
  induction after using List.reverseRec with
  | nil =>
    have unnamed : g.name b ∉ (direct g before).map g.name := by
      rw [direct, mem_keys_firstOfKey, mem_names]
      rintro ⟨earlier, member, c, held, same⟩
      exact fresh earlier member c held same
    rw [direct_of_some holds, if_neg unnamed]
    exact List.mem_append_right _ List.mem_cons_self
  | append_singleton after t ih =>
    rw [← List.cons_append, ← List.append_assoc]
    cases held : g.full t with
    | none =>
      rw [direct_of_none held]
      exact ih
    | some c =>
      rw [direct_of_some held]
      exact List.mem_append_left _ ih

/-- The two ways agree iff no source that counts is hidden, where what is held tells its source. -/
theorem staged_eq_direct_iff (source : β → σ) (tells : ∀ s b, g.full s = some b → source b = s) {sources : List σ} :
    staged g sources = direct g sources ↔ Agree g sources := by
  refine ⟨fun same => ?_, staged_eq_direct⟩
  rintro before s after rfl b holds fresh
  have kept : b ∈ staged g (before ++ s :: after) := same ▸ mem_direct holds fresh after
  obtain ⟨_, _, split, _⟩ := mem_firstOfKey kept
  have among : b ∈ (quickly g (before ++ s :: after)).filterMap fun entry => g.full entry.2 := by
    rw [split]
    exact List.mem_append_right _ List.mem_cons_self
  obtain ⟨⟨k, t⟩, entry, held⟩ := List.mem_filterMap.mp among
  obtain rfl : t = s := (tells t b held).symm.trans (tells s b holds)
  obtain ⟨first, rest, quicks, new⟩ := mem_firstOfKey entry
  have split_sources : ∃ m n, before ++ t :: after = m ++ t :: n ∧ g.quick t = some k ∧ ∀ earlier ∈ m, g.quick earlier ≠ some k := by
    obtain ⟨m, n, whole, pre, post⟩ := List.filterMap_eq_append_iff.mp quicks
    obtain ⟨skipped, u, n, rfl, none_there, here, -⟩ := List.filterMap_eq_cons_iff.mp post
    obtain ⟨k', quick, pair⟩ := Option.map_eq_some_iff.mp here
    obtain ⟨rfl, rfl⟩ := Prod.mk.inj pair
    refine ⟨m ++ skipped, n, by rw [whole, List.append_assoc], quick, fun earlier member quick' => ?_⟩
    rcases List.mem_append.mp member with inside | between
    · refine new (pre ▸ mem_quicks.mpr ⟨earlier, inside, quick'⟩)
    · have none_here := none_there earlier between
      rw [quick'] at none_here
      cases none_here
  obtain ⟨m, n, whole, quick, unmatched⟩ := split_sources
  refine ⟨k, quick, ?_⟩
  -- A place of the source before the one that counts would hold the same.
  rcases List.append_eq_append_iff.mp whole with ⟨more, rfl, _⟩ | ⟨less, rfl, tail⟩
  · exact fun earlier member => unmatched earlier (List.mem_append_left _ member)
  · cases less with
    | nil =>
      rw [List.append_nil]
      exact unmatched
    | cons u less =>
      obtain ⟨rfl, -⟩ := List.cons.inj tail
      exact absurd rfl (fresh t (by simp) b holds)

end Stages

end FirstOfKey
