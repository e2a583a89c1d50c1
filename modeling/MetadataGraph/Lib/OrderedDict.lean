import Mathlib.Data.List.Induction
import Mathlib.Data.List.Nodup
import Mathlib.Data.List.Perm.Basic

/-- A finite map that remembers the order in which its keys were first set. -/
structure OrderedDict (κ α : Type) where
  entries : List (κ × α) := []
  distinct : (entries.map Prod.fst).Nodup := by exact List.nodup_nil

namespace OrderedDict

variable {κ α : Type}

instance : Inhabited (OrderedDict κ α) := ⟨{}⟩

def keys (d : OrderedDict κ α) : List κ := d.entries.map Prod.fst

def values (d : OrderedDict κ α) : List α := d.entries.map Prod.snd

/-- The entries whose keys pass a test, in their order. -/
def filterKeys (keep : κ → Bool) (d : OrderedDict κ α) : OrderedDict κ α where
  entries := d.entries.filter fun entry => keep entry.1
  distinct := (List.filter_sublist.map Prod.fst).nodup d.distinct

variable [DecidableEq κ]

def get? (d : OrderedDict κ α) (k : κ) : Option α := d.entries.lookup k

/-- The entries after an assignment: a key that is there keeps its place, a new one comes last. -/
def assign (k : κ) (a : α) : List (κ × α) → List (κ × α)
  | [] => [(k, a)]
  | entry :: rest => if entry.1 = k then (k, a) :: rest else entry :: assign k a rest

theorem mem_keys_assign {k : κ} {a : α} {l : List (κ × α)} {j : κ} :
    j ∈ (assign k a l).map Prod.fst ↔ j = k ∨ j ∈ l.map Prod.fst := by
  induction l with
  | nil => simp [assign]
  | cons entry rest ih =>
    rw [assign]
    split
    · rename_i same
      simp [same]
    · rw [List.map_cons, List.mem_cons, ih, List.map_cons, List.mem_cons]
      exact or_left_comm

theorem nodup_assign (k : κ) (a : α) {l : List (κ × α)} (distinct : (l.map Prod.fst).Nodup) :
    ((assign k a l).map Prod.fst).Nodup := by
  induction l with
  | nil => simp [assign]
  | cons entry rest ih =>
    rw [List.map_cons, List.nodup_cons] at distinct
    rw [assign]
    split
    · rename_i same
      rw [List.map_cons, List.nodup_cons, ← same]
      exact distinct
    · rename_i other
      rw [List.map_cons, List.nodup_cons, mem_keys_assign]
      exact ⟨fun member => member.elim other distinct.1, ih distinct.2⟩

def set (k : κ) (a : α) (d : OrderedDict κ α) : OrderedDict κ α where
  entries := assign k a d.entries
  distinct := nodup_assign k a d.distinct

def erase (k : κ) (d : OrderedDict κ α) : OrderedDict κ α := d.filterKeys (· ≠ k)

theorem get?_eq_some {d : OrderedDict κ α} {k : κ} {a : α} : d.get? k = some a ↔ (k, a) ∈ d.entries := by
  obtain ⟨entries, distinct⟩ := d
  rw [get?]
  induction entries with
  | nil => simp
  | cons entry rest ih =>
    obtain ⟨j, b⟩ := entry
    rw [List.map_cons, List.nodup_cons] at distinct
    rw [List.lookup_cons, List.mem_cons, Prod.mk.injEq]
    by_cases same : k = j
    · subst same
      have absent : (k, a) ∉ rest := fun member => distinct.1 (List.mem_map.mpr ⟨(k, a), member, rfl⟩)
      simp only [beq_self_eq_true, true_and, absent, or_false, Option.some.injEq]
      exact eq_comm
    · simp only [beq_eq_false_iff_ne.mpr same, same, false_and, false_or]
      exact ih distinct.2

theorem mem_keys {d : OrderedDict κ α} {k : κ} : k ∈ d.keys ↔ ∃ a, d.get? k = some a := by
  simp only [get?_eq_some, keys, List.mem_map]
  constructor
  · rintro ⟨⟨j, a⟩, member, rfl⟩
    exact ⟨a, member⟩
  · rintro ⟨a, member⟩
    exact ⟨(k, a), member, rfl⟩

theorem get?_eq_none {d : OrderedDict κ α} {k : κ} : d.get? k = none ↔ k ∉ d.keys := by
  rw [mem_keys, Option.eq_none_iff_forall_ne_some]
  exact not_exists.symm

theorem get?_empty (k : κ) : ({} : OrderedDict κ α).get? k = none := rfl

theorem lookup_cons (j : κ) (entry : κ × α) (rest : List (κ × α)) :
    (entry :: rest).lookup j = if j = entry.1 then some entry.2 else rest.lookup j := by
  rw [List.lookup_cons]
  by_cases same : j = entry.1
  · rw [if_pos same, beq_iff_eq.mpr same]
  · rw [if_neg same, beq_eq_false_iff_ne.mpr same]

theorem get?_set (k : κ) (a : α) (d : OrderedDict κ α) (j : κ) :
    (d.set k a).get? j = if j = k then some a else d.get? j := by
  rw [get?, get?, set]
  dsimp only
  induction d.entries with
  | nil => rw [assign, lookup_cons]
  | cons entry rest ih =>
    rw [assign]
    split
    · rename_i here
      rw [lookup_cons, lookup_cons, here]
      by_cases same : j = k <;> simp [same]
    · rename_i other
      rw [lookup_cons, lookup_cons, ih]
      by_cases same : j = k
      · subst same
        rw [if_neg (Ne.symm other), if_pos rfl, if_pos rfl]
      · rw [if_neg same, if_neg same]

theorem get?_filterKeys (keep : κ → Bool) (d : OrderedDict κ α) (j : κ) :
    (d.filterKeys keep).get? j = if keep j = true then d.get? j else none := by
  apply Option.ext
  intro a
  rw [get?_eq_some, filterKeys, List.mem_filter]
  split
  · rename_i kept
    rw [get?_eq_some]
    exact and_iff_left kept
  · rename_i dropped
    simp [dropped]

theorem get?_erase (k : κ) (d : OrderedDict κ α) (j : κ) :
    (d.erase k).get? j = if j = k then none else d.get? j := by
  rw [erase, get?_filterKeys]
  by_cases same : j = k <;> simp [same]

theorem mem_keys_set {k : κ} {a : α} {d : OrderedDict κ α} {j : κ} : j ∈ (d.set k a).keys ↔ j = k ∨ j ∈ d.keys :=
  mem_keys_assign

theorem mem_keys_erase {k : κ} {d : OrderedDict κ α} {j : κ} : j ∈ (d.erase k).keys ↔ j ≠ k ∧ j ∈ d.keys := by
  simp only [mem_keys, get?_erase]
  by_cases same : j = k <;> simp [same]

/-- A dict that is filled from a list of pairs. -/
def ofList (pairs : List (κ × α)) : OrderedDict κ α := pairs.foldl (fun d pair => d.set pair.1 pair.2) {}

theorem get?_foldl_set {pairs : List (κ × α)} {d : OrderedDict κ α} {k : κ} {a : α}
    (found : (pairs.foldl (fun d pair => d.set pair.1 pair.2) d).get? k = some a) :
    (k, a) ∈ pairs ∨ d.get? k = some a := by
  induction pairs generalizing d with
  | nil => exact .inr found
  | cons pair pairs ih =>
    rcases ih found with later | before
    · exact .inl (List.mem_cons_of_mem _ later)
    · rw [get?_set] at before
      split at before
      · rename_i same
        cases before
        exact .inl (by rw [same]; exact List.mem_cons_self)
      · exact .inr before

/-- A key that is not there comes last. -/
theorem entries_set_of_notMem {k : κ} {d : OrderedDict κ α} (new : k ∉ d.keys) (a : α) :
    (d.set k a).entries = d.entries ++ [(k, a)] := by
  have appended : ∀ {l : List (κ × α)}, k ∉ l.map Prod.fst → assign k a l = l ++ [(k, a)] := by
    intro l
    induction l with
    | nil => exact fun _ => rfl
    | cons entry rest ih =>
      intro new
      rw [List.map_cons, List.mem_cons, not_or] at new
      rw [assign, if_neg (Ne.symm new.1), ih new.2, List.cons_append]
  exact appended new

/-- An entry that comes after others is found unless its key is among theirs. -/
theorem get?_of_append {d e : OrderedDict κ α} {l : List (κ × α)} (appended : e.entries = d.entries ++ l) (k : κ) :
    e.get? k = (d.get? k).or (l.lookup k) := by
  rw [get?, get?, appended, List.lookup_append]

theorem mem_of_get?_ofList {pairs : List (κ × α)} {k : κ} {a : α} (found : (ofList pairs).get? k = some a) :
    (k, a) ∈ pairs := by
  rcases get?_foldl_set found with member | none
  · exact member
  · cases none

/-- A key that is listed has a last entry. -/
theorem exists_last {pairs : List (κ × α)} {k : κ} (listed : k ∈ pairs.map Prod.fst) :
    ∃ before a after, pairs = before ++ (k, a) :: after ∧ k ∉ after.map Prod.fst := by
  induction pairs with
  | nil => cases listed
  | cons pair pairs ih =>
    by_cases later : k ∈ pairs.map Prod.fst
    · obtain ⟨before, a, after, rfl, last⟩ := ih later
      exact ⟨pair :: before, a, after, rfl, last⟩
    · rw [List.map_cons, List.mem_cons] at listed
      obtain rfl := listed.resolve_right later
      exact ⟨[], pair.2, pairs, rfl, later⟩

theorem ofList_concat (pairs : List (κ × α)) (pair : κ × α) :
    ofList (pairs ++ [pair]) = (ofList pairs).set pair.1 pair.2 := by
  rw [ofList, List.foldl_append]
  rfl

/-- What a dict shows of its values is what it is filled from shows of them. -/
theorem map_get?_ofList {β : Type} (view : α → β) (pairs : List (κ × α)) (k : κ) :
    ((ofList pairs).get? k).map view = (ofList (pairs.map fun pair => (pair.1, view pair.2))).get? k := by
  induction pairs using List.reverseRecOn with
  | nil => rfl
  | append_singleton pairs pair ih =>
    rw [ofList_concat, List.map_append, List.map_singleton, ofList_concat, get?_set, get?_set, ← ih]
    split <;> rfl

/-- Of the pairs with one key, the last is the entry. -/
theorem mem_entries_ofList {pairs : List (κ × α)} {k : κ} {a : α} :
    (k, a) ∈ (ofList pairs).entries ↔
      ∃ before after, pairs = before ++ (k, a) :: after ∧ k ∉ after.map Prod.fst := by
  rw [← get?_eq_some]
  induction pairs using List.reverseRecOn with
  | nil => simp [ofList, get?_empty]
  | append_singleton pairs pair ih =>
    obtain ⟨j, b⟩ := pair
    rw [ofList_concat, get?_set]
    split
    · rename_i same
      subst same
      constructor
      · intro found
        cases found
        exact ⟨pairs, [], rfl, List.not_mem_nil⟩
      · rintro ⟨before, after, split, last⟩
        rcases List.eq_nil_or_concat after with rfl | ⟨rest, pair, rfl⟩
        · have ends := List.append_inj_right' split rfl
          cases ends
          rfl
        · rw [List.concat_eq_append] at split last
          rw [← List.cons_append, ← List.append_assoc] at split
          cases List.append_inj_right' split rfl
          simp at last
    · rename_i other
      rw [ih]
      constructor
      · rintro ⟨before, after, rfl, last⟩
        refine ⟨before, after ++ [(j, b)], by simp, ?_⟩
        rw [List.map_append, List.mem_append, not_or]
        exact ⟨last, by simpa using other⟩
      · rintro ⟨before, after, split, last⟩
        rcases List.eq_nil_or_concat after with rfl | ⟨rest, pair, rfl⟩
        · cases List.append_inj_right' split rfl
          exact absurd rfl other
        · rw [List.concat_eq_append] at split last
          rw [← List.cons_append, ← List.append_assoc] at split
          rw [List.map_append, List.mem_append, not_or] at last
          exact ⟨before, rest, List.append_inj_left' split rfl, last.1⟩

theorem mem_keys_ofList {pairs : List (κ × α)} {k : κ} : k ∈ (ofList pairs).keys ↔ k ∈ pairs.map Prod.fst := by
  constructor
  · intro key
    obtain ⟨entry, member, rfl⟩ := List.mem_map.mp key
    obtain ⟨before, after, rfl, -⟩ := mem_entries_ofList.mp (show (entry.1, entry.2) ∈ _ from member)
    simp
  · intro listed
    obtain ⟨before, a, after, split, last⟩ := exists_last listed
    exact List.mem_map.mpr ⟨(k, a), mem_entries_ofList.mpr ⟨before, after, split, last⟩, rfl⟩

/-- The dict of a list has exactly the pairs to be kept, when their keys are distinct and every
other pair is overwritten by one of them. -/
theorem entries_ofList_perm_filter {pairs : List (κ × α)} (keep : κ × α → Bool) :
    (ofList pairs).entries.Perm (pairs.filter keep) ↔
      ((pairs.filter keep).map Prod.fst).Nodup ∧ ∀ before pair after, pairs = before ++ pair :: after →
        keep pair = false → ∃ later ∈ after, later.1 = pair.1 ∧ keep later = true := by
  constructor
  · intro same
    refine ⟨(same.map Prod.fst).nodup_iff.mp (ofList pairs).distinct, ?_⟩
    rintro before pair after rfl dropped
    obtain ⟨earlier, a, rest, split, last⟩ := exists_last (show pair.1 ∈ (pair :: after).map Prod.fst by simp)
    have entry : (pair.1, a) ∈ (ofList (before ++ pair :: after)).entries :=
      mem_entries_ofList.mpr ⟨before ++ earlier, rest, by rw [split, List.append_assoc], last⟩
    have kept := (List.mem_filter.mp (same.mem_iff.mp entry)).2
    cases earlier with
    | nil =>
      rw [← (List.cons.inj split).1, dropped] at kept
      cases kept
    | cons first earlier =>
      obtain ⟨-, rfl⟩ := List.cons.inj split
      exact ⟨(pair.1, a), by simp, rfl, kept⟩
  · rintro ⟨distinct, overwritten⟩
    have kept : ∀ {k a}, (k, a) ∈ (ofList pairs).entries → (k, a) ∈ pairs.filter keep := by
      intro k a entry
      obtain ⟨before, after, split, last⟩ := mem_entries_ofList.mp entry
      refine List.mem_filter.mpr ⟨by rw [split]; simp, ?_⟩
      by_contra dropped
      obtain ⟨later, member, same, -⟩ := overwritten before (k, a) after split (Bool.eq_false_iff.mpr dropped)
      exact last (List.mem_map.mpr ⟨later, member, same⟩)
    refine (List.perm_ext_iff_of_nodup (.of_map _ (ofList pairs).distinct) (.of_map _ distinct)).mpr ?_
    rintro ⟨k, a⟩
    refine ⟨kept, fun member => ?_⟩
    obtain ⟨before, a', after, split, last⟩ :=
      exists_last (List.mem_map.mpr ⟨(k, a), (List.mem_filter.mp member).1, rfl⟩)
    have entry := mem_entries_ofList.mpr ⟨before, after, split, last⟩
    rwa [List.inj_on_of_nodup_map distinct member (kept entry) rfl]

/-- A dict has all the pairs that it is filled from when their keys are distinct. -/
theorem entries_ofList_perm {pairs : List (κ × α)} :
    (ofList pairs).entries.Perm pairs ↔ (pairs.map Prod.fst).Nodup := by
  simpa using (entries_ofList_perm_filter fun _ => true : (ofList pairs).entries.Perm _ ↔ _)

/-- Pairs with distinct keys are the entries. -/
theorem entries_ofList_of_nodup {pairs : List (κ × α)} (distinct : (pairs.map Prod.fst).Nodup) :
    (ofList pairs).entries = pairs := by
  induction pairs using List.reverseRecOn with
  | nil => rfl
  | append_singleton pairs pair ih =>
    rw [List.map_append, List.map_singleton, List.nodup_append] at distinct
    have new : pair.1 ∉ (ofList pairs).keys := fun member =>
      distinct.2.2 _ (mem_keys_ofList.mp member) _ (List.mem_singleton_self _) rfl
    rw [ofList_concat, entries_set_of_notMem new, ih distinct.1]

theorem get?_ofList_append (front back : List (κ × α)) (k : κ) :
    (ofList (front ++ back)).get? k = ((ofList back).get? k).or ((ofList front).get? k) := by
  induction back using List.reverseRecOn with
  | nil => rw [List.append_nil]; rfl
  | append_singleton back pair ih =>
    rw [← List.append_assoc, ofList_concat, ofList_concat, get?_set, get?_set, ih]
    split <;> rfl

/-- Only the pairs with a key matter for its entry. -/
theorem get?_ofList_filter (pairs : List (κ × α)) (k : κ) :
    (ofList (pairs.filter fun pair => pair.1 = k)).get? k = (ofList pairs).get? k := by
  induction pairs using List.reverseRecOn with
  | nil => rfl
  | append_singleton pairs pair ih =>
    rw [List.filter_append, get?_ofList_append, get?_ofList_append, ih, List.filter_cons, List.filter_nil]
    by_cases same : pair.1 = k
    · rw [if_pos (by simpa using same)]
    · rw [if_neg (by simpa using same)]
      have other : (ofList [pair]).get? k = none := by
        rw [← List.nil_append [pair], ofList_concat, get?_set, if_neg (Ne.symm same)]
        rfl
      rw [other]
      rfl

/-- A sum over the entries to which only the one with a key contributes. -/
theorem flatMap_entries {β : Type} {d : OrderedDict κ α} {k : κ} {f : κ × α → List β}
    (others : ∀ entry ∈ d.entries, entry.1 ≠ k → f entry = []) :
    d.entries.flatMap f = ((d.get? k).map fun a => f (k, a)).getD [] := by
  obtain ⟨entries, distinct⟩ := d
  rw [get?]
  dsimp only at others ⊢
  induction entries with
  | nil => rfl
  | cons entry rest ih =>
    rw [List.map_cons, List.nodup_cons] at distinct
    rw [List.flatMap_cons, lookup_cons]
    have later := ih distinct.2 fun entry member => others entry (List.mem_cons_of_mem _ member)
    split
    · rename_i here
      have absent : rest.lookup k = none := by
        rw [List.lookup_eq_none_iff]
        intro other member
        exact bne_iff_ne.mpr fun same => distinct.1 (List.mem_map.mpr ⟨other, member, by rw [← same, here]⟩)
      rw [absent] at later
      rw [later, here]
      exact List.append_nil _
    · rename_i differ
      rw [others entry List.mem_cons_self (Ne.symm differ), later]
      rfl

theorem nodup_eraseDups {α : Type} [BEq α] [LawfulBEq α] (as : List α) : as.eraseDups.Nodup := by
  induction length : as.length using Nat.strongRecOn generalizing as with
  | _ n ih =>
    cases as with
    | nil => exact List.nodup_nil
    | cons a others =>
      rw [List.eraseDups_cons, List.nodup_cons, List.mem_eraseDups]
      have shorter : (others.filter fun other => !other == a).length < n := by
        rw [← length, List.length_cons]
        exact Nat.lt_succ_of_le (List.length_filter_le _ _)
      exact ⟨fun member => by simpa using (List.mem_filter.mp member).2, ih _ shorter _ rfl⟩

end OrderedDict
