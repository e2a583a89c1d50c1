import Mathlib.Data.List.Induction
import Mathlib.Data.List.Sort

namespace StableSort

variable {α : Type} (r : α → α → Prop) [DecidableRel r]

theorem filter_orderedInsert [IsTrans α r] (keep : α → Bool) (a : α) {l : List α} (sorted : l.Pairwise r) :
    (l.orderedInsert r a).filter keep =
      if keep a = true then (l.filter keep).orderedInsert r a else l.filter keep := by
  induction l with
  | nil => cases kept : keep a <;> simp [kept]
  | cons b rest ih =>
    rw [List.pairwise_cons] at sorted
    rw [List.orderedInsert_cons]
    split
    · rename_i below
      rw [List.filter_cons]
      split
      · have ahead : ∀ c ∈ (b :: rest).filter keep, r a c := by
          intro c member
          rcases List.mem_cons.mp (List.mem_of_mem_filter member) with rfl | later
          · exact below
          · exact IsTrans.trans a b c below (sorted.1 c later)
        cases kept : (b :: rest).filter keep with
        | nil => rfl
        | cons c others =>
          rw [kept] at ahead
          rw [List.orderedInsert_cons_of_le r others (ahead c List.mem_cons_self)]
      · rfl
    · rename_i above
      rw [List.filter_cons, ih sorted.2, List.filter_cons]
      split
      · split
        · rw [List.orderedInsert_of_not_le r _ above]
        · rfl
      · rfl

/-- A stable sort leaves the order among the kept elements as it finds it. -/
theorem filter_insertionSort [Std.Total r] [IsTrans α r] (keep : α → Bool) (l : List α) :
    (l.insertionSort r).filter keep = (l.filter keep).insertionSort r := by
  induction l with
  | nil => rfl
  | cons a rest ih =>
    rw [List.insertionSort_cons, filter_orderedInsert r keep a (List.pairwise_insertionSort r rest), ih, List.filter_cons]
    split <;> rfl

variable {β κ : Type} [LinearOrder κ]

/-- Sorted by a key, ties in the order of the list. -/
def sortOn (key : α → κ) (l : List α) : List α := l.insertionSort fun a b => key a ≤ key b

variable {key : α → κ}

theorem perm_sortOn (l : List α) : (sortOn key l).Perm l := List.perm_insertionSort _ l

@[simp]
theorem mem_sortOn {l : List α} {a : α} : a ∈ sortOn key l ↔ a ∈ l := List.mem_insertionSort _

theorem filter_sortOn (keep : α → Bool) (l : List α) : (sortOn key l).filter keep = sortOn key (l.filter keep) := by
  have : Std.Total fun a b => key a ≤ key b := ⟨fun a b => le_total (key a) (key b)⟩
  have : IsTrans α fun a b => key a ≤ key b := ⟨fun _ _ _ first second => le_trans first second⟩
  exact filter_insertionSort _ keep l

theorem map_sortOn (f : α → β) {other : β → κ} (same : ∀ a, other (f a) = key a) (l : List α) :
    (sortOn key l).map f = sortOn other (l.map f) :=
  List.map_insertionSort _ _ f l fun a _ b _ => by rw [same, same]

/-- Two sorted lists that agree on the elements of each key are the same. -/
theorem eq_of_filter_eq {l m : List α} (sorted : l.Pairwise fun a b => key a ≤ key b)
    (sorted' : m.Pairwise fun a b => key a ≤ key b)
    (same : ∀ k, l.filter (fun a => key a = k) = m.filter fun a => key a = k) : l = m := by
  have mem_of : ∀ {l m : List α}, (∀ k, l.filter (fun a => key a = k) = m.filter fun a => key a = k) → ∀ a ∈ l, a ∈ m :=
    fun same a member =>
      List.mem_of_mem_filter (same (key a) ▸ List.mem_filter.mpr ⟨member, decide_eq_true rfl⟩)
  induction l generalizing m with
  | nil =>
    cases m with
    | nil => rfl
    | cons b m => cases mem_of (fun k => (same k).symm) b List.mem_cons_self
  | cons a l ih =>
    cases m with
    | nil => cases mem_of same a List.mem_cons_self
    | cons b m =>
      have least : ∀ {a b : α} {l : List α}, (b :: l).Pairwise (fun a b => key a ≤ key b) → a ∈ b :: l → key b ≤ key a := by
        intro a b l sorted member
        rcases List.mem_cons.mp member with rfl | later
        · exact le_rfl
        · exact (List.pairwise_cons.mp sorted).1 a later
      have tied : key a = key b := le_antisymm (least sorted (mem_of (fun k => (same k).symm) b List.mem_cons_self))
        (least sorted' (mem_of same a List.mem_cons_self))
      have heads := same (key a)
      rw [List.filter_cons, if_pos (decide_eq_true rfl), List.filter_cons, if_pos (decide_eq_true tied.symm)] at heads
      obtain rfl := (List.cons.inj heads).1
      rw [ih (List.pairwise_cons.mp sorted).2 (List.pairwise_cons.mp sorted').2 fun k => ?_]
      have tails := same k
      rw [List.filter_cons, List.filter_cons] at tails
      split at tails
      · exact (List.cons.inj tails).2
      · exact tails

theorem pairwise_sortOn (l : List α) : (sortOn key l).Pairwise fun a b => key a ≤ key b := by
  have : Std.Total fun a b => key a ≤ key b := ⟨fun a b => le_total (key a) (key b)⟩
  have : IsTrans α fun a b => key a ≤ key b := ⟨fun _ _ _ first second => le_trans first second⟩
  exact List.pairwise_insertionSort _ l

theorem sortOn_of_pairwise {l : List α} (sorted : l.Pairwise fun a b => key a ≤ key b) : sortOn key l = l :=
  sorted.insertionSort_eq

/-- A sorted list is the sorted form of every list that has the elements of each key in the same order. -/
theorem sortOn_eq_of_filter_eq {l m : List α} (sorted : m.Pairwise fun a b => key a ≤ key b)
    (same : ∀ k, m.filter (fun a => key a = k) = l.filter fun a => key a = k) : sortOn key l = m := by
  refine eq_of_filter_eq (pairwise_sortOn l) sorted fun k => ?_
  rw [filter_sortOn, same, sortOn_of_pairwise]
  refine List.pairwise_of_forall_mem_list fun a first b second => ?_
  rw [of_decide_eq_true (List.mem_filter.mp first).2, of_decide_eq_true (List.mem_filter.mp second).2]

/-- A sorted list begins with the elements up to a key. -/
theorem filter_append_filter_of_pairwise (k : κ) {l : List α} (sorted : l.Pairwise fun a b => key a ≤ key b) :
    l.filter (fun a => key a ≤ k) ++ l.filter (fun a => k < key a) = l := by
  induction sorted with
  | nil => rfl
  | @cons a l before _ ih =>
    by_cases within : key a ≤ k
    · rw [List.filter_cons_of_pos (by simpa using within), List.filter_cons_of_neg (by simp [not_lt.mpr within]),
        List.cons_append, ih]
    · have beyond := not_le.mp within
      have none_within : l.filter (fun a => key a ≤ k) = [] :=
        List.filter_eq_nil_iff.mpr fun b member => by simp [lt_of_lt_of_le beyond (before b member)]
      rw [none_within, List.nil_append] at ih
      rw [List.filter_cons_of_neg (by simpa using beyond), none_within, List.nil_append,
        List.filter_cons_of_pos (by simpa using beyond), ih]

theorem countP_take_of_pairwise (k : κ) (n : ℕ) {l : List α} (sorted : l.Pairwise fun a b => key a ≤ key b) :
    (l.take n).countP (fun a => key a ≤ k) = min n (l.countP fun a => key a ≤ k) := by
  induction sorted generalizing n with
  | nil => simp
  | @cons a l before _ ih =>
    cases n with
    | zero => simp
    | succ n =>
      rw [List.take_succ_cons, List.countP_cons, List.countP_cons, ih]
      by_cases within : key a ≤ k
      · simp only [within, decide_true, if_true]
        omega
      · have none_within : l.countP (fun a => key a ≤ k) = 0 :=
          List.countP_eq_zero.mpr fun b member => by simp [lt_of_lt_of_le (not_le.mp within) (before b member)]
        simp [within, none_within]

theorem countP_sortOn (p : α → Bool) (l : List α) : (sortOn key l).countP p = l.countP p := (perm_sortOn l).countP_eq p

/-- A last element comes after those with its key. -/
theorem sortOn_concat (l : List α) (b : α) :
    sortOn key (l ++ [b]) = (sortOn key l).filter (fun a => key a ≤ key b) ++
      b :: (sortOn key l).filter fun a => key b < key a := by
  have sorted : (sortOn key l).Pairwise fun a b => key a ≤ key b := pairwise_sortOn l
  refine sortOn_eq_of_filter_eq ?_ fun k => ?_
  · rw [List.pairwise_append, List.pairwise_cons]
    refine ⟨sorted.filter _, ⟨fun a member => ?_, sorted.filter _⟩, fun a first c second => ?_⟩
    · exact (of_decide_eq_true (List.mem_filter.mp member).2).le
    · have below := of_decide_eq_true (List.mem_filter.mp first).2
      rcases List.mem_cons.mp second with rfl | later
      · exact below
      · exact below.trans (of_decide_eq_true (List.mem_filter.mp later).2).le
  · have split := filter_append_filter_of_pairwise (key b) sorted
    have whole : (sortOn key l).filter (fun a => key a = k) = l.filter fun a => key a = k := by
      rw [filter_sortOn]
      exact sortOn_of_pairwise (List.pairwise_of_forall_mem_list fun a first c second => by
        rw [of_decide_eq_true (List.mem_filter.mp first).2, of_decide_eq_true (List.mem_filter.mp second).2])
    rw [List.filter_append, List.filter_append, ← whole]
    conv_rhs => rw [← split]
    rw [List.filter_append]
    by_cases tied : key b = k
    · have none_after : ((sortOn key l).filter fun a => key b < key a).filter (fun a => key a = k) = [] :=
        List.filter_eq_nil_iff.mpr fun a member same =>
          absurd (of_decide_eq_true same) (tied ▸ (of_decide_eq_true (List.mem_filter.mp member).2).ne')
      rw [List.filter_cons_of_pos (by simpa using tied), none_after, List.append_nil,
        List.filter_cons_of_pos (by simpa using tied), List.filter_nil]
    · rw [List.filter_cons_of_neg (by simpa using tied), List.filter_cons_of_neg (by simpa using tied), List.filter_nil,
        List.append_nil]

/-- More elements leave the first ones as they are iff each of them finds enough before it. -/
theorem take_sortOn_append_iff (n : ℕ) (l m : List α) :
    (sortOn key (l ++ m)).take n = (sortOn key l).take n ↔ ∀ b ∈ m, n ≤ l.countP fun a => key a ≤ key b := by
  constructor
  · intro same b member
    have counts := congrArg (List.countP fun a => decide (key a ≤ key b)) same
    rw [countP_take_of_pairwise _ _ (pairwise_sortOn _), countP_take_of_pairwise _ _ (pairwise_sortOn _), countP_sortOn,
      countP_sortOn, List.countP_append] at counts
    have some_late : 0 < m.countP fun a => key a ≤ key b := List.countP_pos_iff.mpr ⟨b, member, decide_eq_true le_rfl⟩
    omega
  · intro enough
    induction m using List.reverseRec with
    | nil => rw [List.append_nil]
    | append_singleton m b ih =>
      rw [← ih fun c member => enough c (List.mem_append_left _ member), ← List.append_assoc, sortOn_concat]
      have sorted : (sortOn key (l ++ m)).Pairwise fun a b => key a ≤ key b := pairwise_sortOn (l ++ m)
      have split := filter_append_filter_of_pairwise (key b) sorted
      have first : n ≤ ((sortOn key (l ++ m)).filter fun a => key a ≤ key b).length := by
        rw [← List.countP_eq_length_filter, countP_sortOn, List.countP_append]
        exact (enough b (by simp)).trans (Nat.le_add_right _ _)
      conv_rhs => rw [← split]
      rw [List.take_append_of_le_length first, List.take_append_of_le_length first]

end StableSort
