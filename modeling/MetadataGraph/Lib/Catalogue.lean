import MetadataGraph.Lib.OrderedDict

/-- A dict of objects, each filed under its own key. -/
structure Catalogue (κ α : Type) (key : α → κ) where
  dict : OrderedDict κ α := {}
  filed : ∀ entry ∈ dict.entries, key entry.2 = entry.1 := by simp

namespace Catalogue

variable {κ α : Type} {key : α → κ}

instance : Inhabited (Catalogue κ α key) := ⟨{}⟩

def values (c : Catalogue κ α key) : List α := c.dict.values

theorem keys_eq (c : Catalogue κ α key) : c.dict.keys = c.values.map key := by
  rw [OrderedDict.keys, values, OrderedDict.values, List.map_map]
  exact List.map_congr_left fun entry member => (c.filed entry member).symm

theorem nodup_values (c : Catalogue κ α key) : (c.values.map key).Nodup := by
  rw [← keys_eq]
  exact c.dict.distinct

/-- The objects changed in place; none of them changes its key. -/
def change (f : α → α) (c : Catalogue κ α key) (keeps : ∀ a, key (f a) = key a := by intro; rfl) :
    Catalogue κ α key where
  dict.entries := c.dict.entries.map fun entry => (entry.1, f entry.2)
  dict.distinct := by
    rw [List.map_map]
    exact c.dict.distinct
  filed := by
    intro entry member
    obtain ⟨old, present, rfl⟩ := List.mem_map.mp member
    exact (keeps old.2).trans (c.filed old present)

@[simp]
theorem values_change (f : α → α) (c : Catalogue κ α key) (keeps : ∀ a, key (f a) = key a) :
    (c.change f keeps).values = c.values.map f := by
  rw [values, values, OrderedDict.values, OrderedDict.values, List.map_map, change, List.map_map]
  rfl

variable [DecidableEq κ]

def get? (c : Catalogue κ α key) (k : κ) : Option α := c.dict.get? k

theorem get?_eq_some {c : Catalogue κ α key} {k : κ} {a : α} : c.get? k = some a ↔ a ∈ c.values ∧ key a = k := by
  rw [get?, OrderedDict.get?_eq_some, values, OrderedDict.values, List.mem_map]
  constructor
  · intro member
    exact ⟨⟨_, member, rfl⟩, c.filed _ member⟩
  · rintro ⟨⟨⟨j, b⟩, member, rfl⟩, rfl⟩
    rw [c.filed _ member]
    exact member

theorem get?_eq_none {c : Catalogue κ α key} {k : κ} : c.get? k = none ↔ ∀ a ∈ c.values, key a ≠ k := by
  rw [Option.eq_none_iff_forall_ne_some]
  constructor
  · intro none a member same
    exact none a (get?_eq_some.mpr ⟨member, same⟩)
  · intro none a found
    exact none a (get?_eq_some.mp found).1 (get?_eq_some.mp found).2

theorem key_of_get? {c : Catalogue κ α key} {k : κ} {a : α} (found : c.get? k = some a) : key a = k :=
  (get?_eq_some.mp found).2

theorem get?_of_mem {c : Catalogue κ α key} {a : α} (member : a ∈ c.values) : c.get? (key a) = some a :=
  get?_eq_some.mpr ⟨member, rfl⟩

theorem mem_assign {k : κ} {a : α} {l : List (κ × α)} {entry : κ × α}
    (member : entry ∈ OrderedDict.assign k a l) : entry = (k, a) ∨ entry ∈ l := by
  induction l with
  | nil => exact .inl (List.mem_singleton.mp member)
  | cons head rest ih =>
    rw [OrderedDict.assign] at member
    split at member
    · rcases List.mem_cons.mp member with here | later
      · exact .inl here
      · exact .inr (List.mem_cons_of_mem _ later)
    · rcases List.mem_cons.mp member with rfl | later
      · exact .inr List.mem_cons_self
      · exact (ih later).imp id (List.mem_cons_of_mem _)

/-- The object filed under its key, in the place of one that is there. -/
def put (a : α) (c : Catalogue κ α key) : Catalogue κ α key where
  dict := c.dict.set (key a) a
  filed := by
    intro entry member
    rcases mem_assign member with rfl | old
    · rfl
    · exact c.filed entry old

theorem get?_put (a : α) (c : Catalogue κ α key) (k : κ) : (c.put a).get? k = if k = key a then some a else c.get? k :=
  OrderedDict.get?_set (key a) a c.dict k

theorem get?_put_self {a : α} (c : Catalogue κ α key) {k : κ} (own : key a = k) : (c.put a).get? k = some a := by
  rw [get?_put, if_pos own.symm]

theorem get?_put_other {a : α} (c : Catalogue κ α key) {k : κ} (other : k ≠ key a) : (c.put a).get? k = c.get? k := by
  rw [get?_put, if_neg other]

theorem get?_change (f : α → α) (c : Catalogue κ α key) (keeps : ∀ a, key (f a) = key a) (k : κ) :
    (c.change f keeps).get? k = (c.get? k).map f := by
  apply Option.ext
  intro b
  rw [get?_eq_some, values_change, List.mem_map, Option.map_eq_some_iff]
  constructor
  · rintro ⟨⟨a, member, rfl⟩, same⟩
    exact ⟨a, get?_eq_some.mpr ⟨member, (keeps a).symm.trans same⟩, rfl⟩
  · rintro ⟨a, found, rfl⟩
    exact ⟨⟨a, (get?_eq_some.mp found).1, rfl⟩, (keeps a).trans (key_of_get? found)⟩

theorem values_assign_absent {k : κ} {a : α} {l : List (κ × α)} (absent : k ∉ l.map Prod.fst) :
    (OrderedDict.assign k a l).map Prod.snd = l.map Prod.snd ++ [a] := by
  induction l with
  | nil => rfl
  | cons head rest ih =>
    rw [List.map_cons, List.mem_cons, not_or] at absent
    rw [OrderedDict.assign, if_neg (Ne.symm absent.1), List.map_cons, ih absent.2]
    rfl

theorem values_put_new {a : α} {c : Catalogue κ α key} (absent : c.get? (key a) = none) :
    (c.put a).values = c.values ++ [a] := by
  apply values_assign_absent
  intro present
  obtain ⟨b, found⟩ := OrderedDict.mem_keys.mp present
  rw [get?, found] at absent
  cases absent

theorem values_assign_present {a : α} {l : List (κ × α)} (distinct : (l.map Prod.fst).Nodup)
    (filed : ∀ entry ∈ l, key entry.2 = entry.1) (present : key a ∈ l.map Prod.fst) :
    (OrderedDict.assign (key a) a l).map Prod.snd =
      (l.map Prod.snd).map fun b => if key b = key a then a else b := by
  induction l with
  | nil => cases present
  | cons head rest ih =>
    rw [List.map_cons, List.nodup_cons] at distinct
    have own := filed head List.mem_cons_self
    rw [OrderedDict.assign]
    split
    · rename_i here
      rw [List.map_cons, List.map_cons, List.map_cons, if_pos (own.trans here)]
      refine congrArg _ ?_
      rw [List.map_map]
      apply List.map_congr_left
      intro entry member
      have other : key entry.2 ≠ key a := by
        rw [filed entry (List.mem_cons_of_mem _ member), ← here]
        intro same
        exact distinct.1 (List.mem_map.mpr ⟨entry, member, same⟩)
      exact (if_neg other).symm
    · rename_i apart
      rw [List.map_cons, List.mem_cons] at present
      have later := present.resolve_left (Ne.symm apart)
      rw [List.map_cons, List.map_cons, List.map_cons, if_neg (own ▸ apart),
        ih distinct.2 (fun entry member => filed entry (List.mem_cons_of_mem _ member)) later]

theorem values_put_old {a b : α} {c : Catalogue κ α key} (present : c.get? (key a) = some b) :
    (c.put a).values = c.values.map fun other => if key other = key a then a else other :=
  values_assign_present c.dict.distinct c.filed (OrderedDict.mem_keys.mpr ⟨b, present⟩)

/-- An object that no longer passes a test leaves the ones that do as they are. -/
theorem filter_values_put {a b : α} {c : Catalogue κ α key} (present : c.get? (key a) = some b) (test : α → Bool)
    (fails : test a = false) :
    (c.put a).values.filter test = (c.values.filter test).filter fun other => key other ≠ key a := by
  have tests : (test ∘ fun other => if key other = key a then a else other) =
      fun other => decide (key other ≠ key a) && test other := by
    funext other
    rw [Function.comp_apply]
    by_cases same : key other = key a
    · rw [if_pos same, fails, decide_eq_false (not_not_intro same), Bool.false_and]
    · rw [if_neg same, decide_eq_true same, Bool.true_and]
  rw [values_put_old present, List.filter_map, tests, List.filter_filter]
  refine (List.map_congr_left ?_).trans (List.map_id _)
  intro other member
  have passed := (List.mem_filter.mp member).2
  rw [Bool.and_eq_true, decide_eq_true_eq] at passed
  exact if_neg passed.1

/-- Only one object is filed under a key. -/
theorem find?_values (c : Catalogue κ α key) (k : κ) : c.values.find? (fun a => key a = k) = c.get? k := by
  cases found : c.get? k with
  | none =>
    rw [List.find?_eq_none]
    intro a member same
    exact get?_eq_none.mp found a member (of_decide_eq_true same)
  | some a =>
    obtain ⟨member, here⟩ := get?_eq_some.mp found
    cases first : c.values.find? (fun a => key a = k) with
    | none => exact absurd (decide_eq_true here) (List.find?_eq_none.mp first a member)
    | some b =>
      have same : key b = k := by simpa using List.find?_some first
      have filed := get?_eq_some.mpr ⟨List.mem_of_find?_eq_some first, same⟩
      rw [← found, filed]

end Catalogue
