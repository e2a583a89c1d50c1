import Mathlib.Data.List.Basic
import Mathlib.Data.List.Nodup

namespace ObjectHeap

/-- The address of a mutable object; two holders of one object hold the same address. -/
abbrev Ref := Nat

/-- Mutable objects by address. Addresses are never reused, so an object that
nobody reaches any more simply keeps its last contents. -/
structure Heap (α : Type) where
  objects : List α := []
  deriving DecidableEq

variable {α : Type}

def Heap.size (h : Heap α) : Nat := h.objects.length

def Heap.read [Inhabited α] (h : Heap α) (r : Ref) : α := h.objects.getD r default

def Heap.write (h : Heap α) (r : Ref) (a : α) : Heap α := ⟨h.objects.set r a⟩

/-- Fresh objects for a list of contents, with their addresses in the same order. -/
def Heap.allocAll (h : Heap α) (contents : List α) : Heap α × List Ref :=
  (⟨h.objects ++ contents⟩, List.range' h.size contents.length)

/-- In-place assignment to several objects, left to right. -/
def Heap.writeAll (h : Heap α) : List Ref → List α → Heap α
  | r :: refs, a :: contents => (h.write r a).writeAll refs contents
  | _, _ => h

/-- The addresses that point at allocated objects. -/
def Heap.Valid (h : Heap α) (refs : List Ref) : Prop := ∀ r : Nat, r ∈ refs → r < h.size

theorem Heap.size_write (h : Heap α) (r : Ref) (a : α) : (h.write r a).size = h.size := by
  simp only [size, write, List.length_set]

theorem Heap.write_write (h : Heap α) (r : Ref) (a b : α) : (h.write r a).write r b = h.write r b := by
  rw [write, write, write, List.set_set]

theorem Heap.size_allocAll (h : Heap α) (contents : List α) :
    (h.allocAll contents).1.size = h.size + contents.length := by
  simp only [allocAll, size, List.length_append]

theorem Heap.allocAll_fresh {h : Heap α} {contents : List α} {r : Ref}
    (member : r ∈ (h.allocAll contents).2) : h.size ≤ r ∧ r < h.size + contents.length := by
  simpa only [allocAll, List.mem_range'_1] using member

theorem Heap.allocAll_nodup (h : Heap α) (contents : List α) : (h.allocAll contents).2.Nodup :=
  List.nodup_range'

theorem Heap.size_writeAll (h : Heap α) (refs : List Ref) (contents : List α) :
    (h.writeAll refs contents).size = h.size := by
  induction refs generalizing h contents with
  | nil => rfl
  | cons r refs ih =>
    cases contents with
    | nil => rfl
    | cons a contents => rw [writeAll, ih, size_write]

/-- An entry of a list paired with its own image. -/
theorem of_mem_zip_map {β : Type} {f : α → β} {l : List α} {a : α} {b : β} (member : (a, b) ∈ l.zip (l.map f)) :
    b = f a := by
  induction l with
  | nil => cases member
  | cons c l ih =>
    rw [List.map_cons, List.zip_cons_cons, List.mem_cons, Prod.mk.injEq] at member
    rcases member with ⟨rfl, rfl⟩ | later
    · rfl
    · exact ih later

variable [Inhabited α]

theorem Heap.read_write_self {h : Heap α} {r : Ref} (valid : r < h.size) (a : α) :
    (h.write r a).read r = a := by
  simp only [read, write, size] at valid ⊢
  simp only [List.getD_eq_getElem?_getD, List.getElem?_set_self valid, Option.getD_some]

theorem Heap.read_write_of_ne {h : Heap α} {r s : Ref} (other : r ≠ s) (a : α) :
    (h.write r a).read s = h.read s := by
  simp only [read, write, List.getD_eq_getElem?_getD, List.getElem?_set_ne other]

/-- An object that is given the contents that it has is not changed. -/
theorem Heap.read_write_read (h : Heap α) (r s : Ref) : (h.write r (h.read r)).read s = h.read s := by
  by_cases same : r = s
  · rw [← same]
    by_cases inside : r < h.size
    · exact read_write_self inside _
    · rw [write, List.set_eq_of_length_le (Nat.not_lt.mp inside)]
  · exact read_write_of_ne same _

theorem Heap.read_allocAll_of_lt {h : Heap α} {r : Ref} (valid : r < h.size) (contents : List α) :
    (h.allocAll contents).1.read r = h.read r := by
  simp only [read, allocAll, size] at valid ⊢
  simp only [List.getD_eq_getElem?_getD, List.getElem?_append_left valid]

theorem Heap.map_read_allocAll (h : Heap α) (contents : List α) :
    (h.allocAll contents).2.map (h.allocAll contents).1.read = contents := by
  apply List.ext_getElem
  · simp only [allocAll, List.length_map, List.length_range']
  · intro i lower upper
    simp only [allocAll, List.getElem_map, List.getElem_range', read, size,
      List.getD_eq_getElem?_getD, Nat.one_mul,
      List.getElem?_append_right (Nat.le_add_right h.objects.length i), Nat.add_sub_cancel_left,
      List.getElem?_eq_getElem upper, Option.getD_some]

theorem Heap.read_writeAll_of_notMem {h : Heap α} {refs : List Ref} {r : Ref} (other : r ∉ refs)
    (contents : List α) : (h.writeAll refs contents).read r = h.read r := by
  induction refs generalizing h contents with
  | nil => rfl
  | cons s refs ih =>
    cases contents with
    | nil => rfl
    | cons a contents =>
      rw [List.mem_cons, not_or] at other
      rw [writeAll, ih other.2, read_write_of_ne (Ne.symm other.1)]

/-- Distinct allocated objects hold exactly the contents assigned to them. -/
theorem Heap.map_read_writeAll {h : Heap α} {refs : List Ref} {contents : List α}
    (distinct : refs.Nodup) (valid : h.Valid refs) (same : refs.length = contents.length) :
    refs.map (h.writeAll refs contents).read = contents := by
  induction refs generalizing h contents with
  | nil => exact (List.length_eq_zero_iff.mp same.symm).symm
  | cons r refs ih =>
    cases contents with
    | nil => cases same
    | cons a contents =>
      obtain ⟨fresh, distinct⟩ := List.nodup_cons.mp distinct
      have tailValid : (h.write r a).Valid refs := fun s member => by
        rw [size_write]
        exact valid s (List.mem_cons_of_mem _ member)
      rw [writeAll, List.map_cons, ih distinct tailValid (Nat.succ.inj same),
        read_writeAll_of_notMem fresh, read_write_self (valid r List.mem_cons_self)]

/-- An object whose assigned contents equal its present ones is not changed by the assignment. -/
theorem Heap.read_writeAll_of_same {h : Heap α} {refs : List Ref} {contents : List α} {r : Ref}
    (distinct : refs.Nodup) (valid : h.Valid refs)
    (keep : ∀ a, (r, a) ∈ refs.zip contents → a = h.read r) :
    (h.writeAll refs contents).read r = h.read r := by
  induction refs generalizing h contents with
  | nil => rfl
  | cons s refs ih =>
    cases contents with
    | nil => rfl
    | cons a contents =>
      obtain ⟨fresh, distinct⟩ := List.nodup_cons.mp distinct
      by_cases same : s = r
      · subst s
        rw [writeAll, read_writeAll_of_notMem fresh, read_write_self (valid r List.mem_cons_self)]
        exact keep a (by simp)
      · have step : (h.write s a).read r = h.read r := read_write_of_ne same a
        have tailValid : (h.write s a).Valid refs := fun t member => by
          rw [size_write]
          exact valid t (List.mem_cons_of_mem _ member)
        rw [writeAll, ih distinct tailValid, step]
        intro b member
        rw [step]
        exact keep b (List.mem_cons_of_mem _ member)

/-- A one-to-one correspondence between objects of two heaps with the same contents. -/
structure Heap.Twins (R : Ref → Ref → Prop) (h k : Heap α) : Prop where
  same : ∀ {r s}, R r s → h.read r = k.read s
  inside : ∀ {r s : Nat}, R r s → r < h.size ∧ s < k.size
  injective : ∀ {r s r' s'}, R r s → R r' s' → (r = r' ↔ s = s')

theorem Heap.Twins.write {R : Ref → Ref → Prop} {h k : Heap α} (twins : Twins R h k) {r s : Ref}
    (related : R r s) (a : α) : Twins R (h.write r a) (k.write s a) := by
  refine ⟨fun {r' s'} related' => ?_, fun related' => ?_, twins.injective⟩
  · by_cases here : r = r'
    · obtain rfl := here
      obtain rfl := (twins.injective related related').mp rfl
      rw [read_write_self (twins.inside related).1, read_write_self (twins.inside related).2]
    · have there : s ≠ s' := fun same => here ((twins.injective related related').mpr same)
      rw [read_write_of_ne here, read_write_of_ne there]
      exact twins.same related'
  · rw [size_write, size_write]
    exact twins.inside related'

/-- Corresponding objects may be assigned the same contents. -/
theorem Heap.Twins.writeAll {R : Ref → Ref → Prop} {h k : Heap α} (twins : Twins R h k)
    {refs refs' : List Ref} (related : List.Forall₂ R refs refs') (contents : List α) :
    Twins R (h.writeAll refs contents) (k.writeAll refs' contents) := by
  induction related generalizing h k contents with
  | nil => exact twins
  | cons head _ ih =>
    cases contents with
    | nil => exact twins
    | cons a contents => exact ih (twins.write head a) contents

/-- The correspondence extended to two new objects. -/
def Heap.Paired (R : Ref → Ref → Prop) (h k : Heap α) (r s : Ref) : Prop :=
  R r s ∨ r = h.size ∧ s = k.size

theorem Heap.read_allocAll_one (h : Heap α) (a : α) : (h.allocAll [a]).1.read h.size = a := by
  have contents := h.map_read_allocAll [a]
  simpa [allocAll] using contents

theorem Heap.Twins.alloc {R : Ref → Ref → Prop} {h k : Heap α} (twins : Twins R h k) (a : α) :
    Twins (Paired R h k) (h.allocAll [a]).1 (k.allocAll [a]).1 := by
  constructor
  · rintro r s (related | ⟨rfl, rfl⟩)
    · rw [read_allocAll_of_lt (twins.inside related).1, read_allocAll_of_lt (twins.inside related).2]
      exact twins.same related
    · rw [read_allocAll_one, read_allocAll_one]
  · rintro r s (related | ⟨rfl, rfl⟩)
    · obtain ⟨left, right⟩ := twins.inside related
      rw [size_allocAll, size_allocAll]
      omega
    · rw [size_allocAll, size_allocAll]
      exact ⟨Nat.lt_succ_self _, Nat.lt_succ_self _⟩
  · rintro r s r' s' (related | ⟨rfl, rfl⟩) (related' | ⟨rfl, rfl⟩)
    · exact twins.injective related related'
    · obtain ⟨left, right⟩ := twins.inside related
      exact ⟨fun same => absurd same (Nat.ne_of_lt left), fun same => absurd same (Nat.ne_of_lt right)⟩
    · obtain ⟨left, right⟩ := twins.inside related'
      exact ⟨fun same => absurd same (Nat.ne_of_gt left), fun same => absurd same (Nat.ne_of_gt right)⟩
    · simp

end ObjectHeap
