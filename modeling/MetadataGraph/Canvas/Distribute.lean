import MetadataGraph.Lib.OrderedDict
import MetadataGraph.Lib.StableSort
import Mathlib.Algebra.Order.Field.Rat
import Mathlib.Algebra.BigOperators.Group.List.Basic
import Mathlib.Tactic.Linarith
import Mathlib.Tactic.Ring
import Mathlib.Tactic.FieldSimp

namespace MetadataGraph.Canvas

open StableSort

structure Position where
  x : ℚ
  y : ℚ
  deriving DecidableEq

/-- A node on the canvas, with the size that it was measured to have. -/
structure CanvasNode where
  id : String
  position : Option Position
  width : Option ℚ := none
  height : Option ℚ := none
  deriving DecidableEq

inductive Axis
  | horizontal
  | vertical
  deriving DecidableEq

/-- A box that takes part. -/
structure Item where
  id : String
  x : ℚ
  y : ℚ
  w : ℚ
  h : ℚ
  deriving DecidableEq

instance : Inhabited Item := ⟨{ id := "", x := 0, y := 0, w := 0, h := 0 }⟩

def itemOf (n : CanvasNode) : Option Item :=
  n.position.map fun position => { id := n.id, x := position.x, y := position.y, w := n.width.getD 0, h := n.height.getD 0 }

def items (nodes : List CanvasNode) : List Item := nodes.filterMap itemOf

namespace Item

def primary : Axis → Item → ℚ
  | .vertical, n => n.y
  | .horizontal, n => n.x

def size : Axis → Item → ℚ
  | .vertical, n => n.h
  | .horizontal, n => n.w

def other : Axis → Item → ℚ
  | .vertical, n => n.x
  | .horizontal, n => n.y

def center (axis : Axis) (n : Item) : ℚ := n.primary axis + n.size axis / 2

/-- The position with another first coordinate. -/
def positionAt : Axis → ℚ → Item → Position
  | .vertical, cursor, n => { x := n.x, y := cursor }
  | .horizontal, cursor, n => { x := cursor, y := n.y }

end Item

/-- The gap between the boxes, which are given in the order of their centres. -/
def gapOf (axis : Axis) (sorted : List Item) : ℚ :=
  let first := sorted.headD default
  let last := sorted.getLastD default
  let totalSize := (sorted.map (Item.size axis)).sum
  let span := last.primary axis + last.size axis - first.primary axis
  (span - totalSize) / (sorted.length - 1)

/-- The loop of `distributeNodes`. -/
def spread (axis : Axis) (gap : ℚ) : ℚ → List Item → List (String × Position)
  | _, [] => []
  | cursor, n :: rest => (n.id, n.positionAt axis cursor) :: spread axis gap (cursor + (n.size axis + gap)) rest

def inOrder (axis : Axis) (nodes : List CanvasNode) : List Item := sortOn (Item.center axis) (items nodes)

def distributeNodes (nodes : List CanvasNode) (axis : Axis) : OrderedDict String Position :=
  if nodes.length < 3 ∨ (items nodes).length < 3 then {}
  else
    let sorted := inOrder axis nodes
    .ofList (spread axis (gapOf axis sorted) ((sorted.headD default).primary axis) sorted)

def alignedNode (positions : OrderedDict String Position) (n : CanvasNode) : CanvasNode :=
  match positions.get? n.id with
  | some position => { n with position := some position }
  | none => n

/-- The nodes where `applyAlignedPositions` puts them, outside of groups. -/
def aligned (positions : OrderedDict String Position) (nodes : List CanvasNode) : List CanvasNode :=
  nodes.map (alignedNode positions)

/-! ### One box after the other -/

namespace Item

variable (axis : Axis) (cursor : ℚ) (n : Item)

/-- The box with another first coordinate. -/
def moveTo : Item := { n with x := (n.positionAt axis cursor).x, y := (n.positionAt axis cursor).y }

@[simp]
theorem moveTo_id : (n.moveTo axis cursor).id = n.id := rfl

@[simp]
theorem moveTo_primary : (n.moveTo axis cursor).primary axis = cursor := by cases axis <;> rfl

@[simp]
theorem moveTo_size : (n.moveTo axis cursor).size axis = n.size axis := by cases axis <;> rfl

@[simp]
theorem moveTo_other : (n.moveTo axis cursor).other axis = n.other axis := by cases axis <;> rfl

@[simp]
theorem moveTo_self : n.moveTo axis (n.primary axis) = n := by cases axis <;> rfl

@[simp]
theorem moveTo_positionAt (cursor' : ℚ) : (n.moveTo axis cursor).positionAt axis cursor' = n.positionAt axis cursor' := by
  cases axis <;> rfl

end Item

/-- The boxes after the loop. -/
def moved (axis : Axis) (gap : ℚ) : ℚ → List Item → List Item
  | _, [] => []
  | cursor, n :: rest => n.moveTo axis cursor :: moved axis gap (cursor + (n.size axis + gap)) rest

section Moved

variable {axis : Axis} {gap cursor : ℚ} {sorted : List Item}

theorem moved_cons (n : Item) (rest : List Item) :
    moved axis gap cursor (n :: rest) = n.moveTo axis cursor :: moved axis gap (cursor + (n.size axis + gap)) rest := rfl

@[simp]
theorem length_moved : (moved axis gap cursor sorted).length = sorted.length := by
  induction sorted generalizing cursor with
  | nil => rfl
  | cons n rest ih => rw [moved_cons, List.length_cons, ih, List.length_cons]

theorem map_moved {β : Type} {f : Item → β} (same : ∀ c n, f (n.moveTo axis c) = f n) :
    (moved axis gap cursor sorted).map f = sorted.map f := by
  induction sorted generalizing cursor with
  | nil => rfl
  | cons n rest ih => rw [moved_cons, List.map_cons, same, ih, List.map_cons]

/-- Between two boxes there is the gap. -/
theorem moved_isChain : (moved axis gap cursor sorted).IsChain fun a b => b.primary axis - (a.primary axis + a.size axis) = gap := by
  induction sorted generalizing cursor with
  | nil => exact .nil
  | cons n rest ih =>
    cases rest with
    | nil => exact .singleton _
    | cons m rest =>
      refine List.isChain_cons_cons.mpr ⟨?_, ih⟩
      rw [Item.moveTo_primary, Item.moveTo_primary, Item.moveTo_size]
      ring

/-- The far edge of the last box. -/
theorem moved_last {n : Item} (last : (moved axis gap cursor sorted).getLast? = some n) :
    n.primary axis + n.size axis = cursor + (sorted.map (Item.size axis)).sum + gap * (sorted.length - 1) := by
  induction sorted generalizing cursor with
  | nil => cases last
  | cons m rest ih =>
    cases rest with
    | nil =>
      have same : m.moveTo axis cursor = n := Option.some.inj last
      rw [← same, Item.moveTo_primary, Item.moveTo_size]
      simp
    | cons k rest =>
      rw [moved_cons, moved_cons, List.getLast?_cons_cons, ← moved_cons] at last
      rw [ih last, List.map_cons (a := m), List.sum_cons, List.length_cons (a := m), Nat.cast_add, Nat.cast_one]
      ring

end Moved

/-- The loop writes down where it puts the boxes. -/
theorem spread_eq {axis : Axis} {gap cursor : ℚ} {sorted : List Item} :
    spread axis gap cursor sorted = (moved axis gap cursor sorted).map fun n => (n.id, { x := n.x, y := n.y }) := by
  induction sorted generalizing cursor with
  | nil => rfl
  | cons n rest ih =>
    rw [spread, ih]
    rfl

/-- The boxes in the order of their centres, after they have been distributed. -/
def distributed (axis : Axis) (sorted : List Item) : List Item :=
  moved axis (gapOf axis sorted) ((sorted.headD default).primary axis) sorted

section Distributed

variable {axis : Axis} {sorted : List Item}

theorem distributed_head? : (distributed axis sorted).head? = sorted.head? := by
  cases sorted with
  | nil => rfl
  | cons first rest =>
    rw [distributed, List.headD_cons, moved_cons, Item.moveTo_self, List.head?_cons, List.head?_cons]

theorem moved_getLast? {gap cursor : ℚ} {n : Item} (last : sorted.getLast? = some n) :
    ∃ c, (moved axis gap cursor sorted).getLast? = some (n.moveTo axis c) := by
  induction sorted generalizing cursor with
  | nil => cases last
  | cons m rest ih =>
    cases rest with
    | nil =>
      obtain rfl := Option.some.inj last
      exact ⟨cursor, rfl⟩
    | cons k rest =>
      rw [List.getLast?_cons_cons] at last
      rw [moved_cons, moved_cons, List.getLast?_cons_cons, ← moved_cons]
      exact ih last

theorem distributed_getLast? (several : 2 ≤ sorted.length) : (distributed axis sorted).getLast? = sorted.getLast? := by
  obtain ⟨n, last⟩ : ∃ n, sorted.getLast? = some n := by
    cases given : sorted.getLast? with
    | none => rw [List.getLast?_eq_none_iff.mp given] at several; cases several
    | some n => exact ⟨n, rfl⟩
  obtain ⟨c, ends⟩ := @moved_getLast? axis sorted (gapOf axis sorted) ((sorted.headD default).primary axis) n last
  have edge := moved_last ends
  have apart : (sorted.length : ℚ) - 1 ≠ 0 := by
    have more : (2 : ℚ) ≤ sorted.length := by exact_mod_cast several
    linarith
  rw [gapOf, div_mul_cancel₀ _ apart, List.getLastD_eq_getLast?, last, Option.getD_some, Item.moveTo_primary,
    Item.moveTo_size] at edge
  have back : c = n.primary axis := by linarith
  rw [distributed, ends, last, back, Item.moveTo_self]

end Distributed

/-- How far the centre of a box comes to stand after the centre of the box before it. -/
def stride (axis : Axis) (gap : ℚ) (a b : Item) : ℚ := a.size axis / 2 + gap + b.size axis / 2

theorem moved_sorted_iff {axis : Axis} {gap cursor : ℚ} {sorted : List Item} :
    (moved axis gap cursor sorted).Pairwise (fun a b => a.center axis ≤ b.center axis) ↔
      sorted.IsChain fun a b => 0 ≤ stride axis gap a b := by
  have transitive : IsTrans Item fun a b => a.center axis ≤ b.center axis := ⟨fun _ _ _ first second => first.trans second⟩
  rw [← List.isChain_iff_pairwise]
  induction sorted generalizing cursor with
  | nil => exact iff_of_true .nil .nil
  | cons n rest ih =>
    cases rest with
    | nil => exact iff_of_true (.singleton _) (.singleton _)
    | cons m rest =>
      rw [moved_cons, moved_cons, List.isChain_cons_cons, List.isChain_cons_cons]
      refine and_congr ?_ ih
      rw [Item.center, Item.center, Item.moveTo_primary, Item.moveTo_primary, Item.moveTo_size, Item.moveTo_size, stride]
      constructor <;> intro le <;> linarith

/-! ### The boxes in the list -/

/-- A box where the result puts it. -/
def relocated (positions : OrderedDict String Position) (n : Item) : Item :=
  match positions.get? n.id with
  | some position => { n with x := position.x, y := position.y }
  | none => n

theorem relocated_id (positions : OrderedDict String Position) (n : Item) : (relocated positions n).id = n.id := by
  rw [relocated]
  split <;> rfl

theorem itemOf_alignedNode {positions : OrderedDict String Position} {n : CanvasNode}
    (placed : n.position = none → positions.get? n.id = none) :
    itemOf (alignedNode positions n) = (itemOf n).map (relocated positions) := by
  rw [alignedNode]
  cases found : positions.get? n.id with
  | none =>
    cases given : n.position with
    | none => rw [itemOf, given]; rfl
    | some position =>
      rw [itemOf, given, Option.map_some, Option.map_some, relocated, found]
  | some there =>
    cases given : n.position with
    | none => exact absurd ((placed given).symm.trans found) (by simp)
    | some position =>
      rw [itemOf, itemOf, given, Option.map_some, Option.map_some, Option.map_some, relocated, found]

theorem items_aligned {positions : OrderedDict String Position} {nodes : List CanvasNode}
    (placed : ∀ n ∈ nodes, n.position = none → positions.get? n.id = none) :
    items (aligned positions nodes) = (items nodes).map (relocated positions) := by
  rw [items, aligned, List.filterMap_map, items, List.map_filterMap]
  exact List.filterMap_congr fun n member => itemOf_alignedNode (placed n member)

theorem map_id_items (nodes : List CanvasNode) : ((items nodes).map Item.id).Sublist (nodes.map CanvasNode.id) := by
  induction nodes with
  | nil => exact .slnil
  | cons n nodes ih =>
    rw [items]
    cases given : itemOf n with
    | none =>
      rw [List.filterMap_cons_none given]
      exact ih.cons _
    | some item =>
      rw [List.filterMap_cons_some given]
      obtain ⟨position, -, rfl⟩ := Option.map_eq_some_iff.mp given
      exact ih.cons_cons _

theorem keys_spread {axis : Axis} {gap cursor : ℚ} {sorted : List Item} :
    (spread axis gap cursor sorted).map Prod.fst = sorted.map Item.id := by
  rw [spread_eq, List.map_map]
  exact map_moved (fun _ _ => rfl)

/-- Where the ids are distinct, each box goes where the loop puts it. -/
theorem map_relocated_spread {axis : Axis} {gap cursor : ℚ} {sorted : List Item} (distinct : (sorted.map Item.id).Nodup) :
    sorted.map (relocated (.ofList (spread axis gap cursor sorted))) = moved axis gap cursor sorted := by
  have found : ∀ m ∈ moved axis gap cursor sorted,
      (OrderedDict.ofList (spread axis gap cursor sorted)).get? m.id = some { x := m.x, y := m.y } := by
    intro m member
    rw [OrderedDict.get?_eq_some, OrderedDict.entries_ofList_of_nodup (keys_spread ▸ distinct), spread_eq]
    exact List.mem_map_of_mem member
  generalize OrderedDict.ofList (spread axis gap cursor sorted) = positions at found
  clear distinct
  induction sorted generalizing cursor with
  | nil => rfl
  | cons n rest ih =>
    rw [moved_cons, List.forall_mem_cons] at found
    have here := found.1
    rw [Item.moveTo_id] at here
    rw [List.map_cons, ih found.2, moved_cons, relocated, here]
    rfl

section Nodes

variable {nodes : List CanvasNode} {axis : Axis}

theorem nodup_inOrder (distinct : (nodes.map CanvasNode.id).Nodup) : ((inOrder axis nodes).map Item.id).Nodup :=
  ((perm_sortOn (items nodes)).map Item.id).nodup_iff.mpr ((map_id_items nodes).nodup distinct)

theorem distributeNodes_eq (several : 3 ≤ (items nodes).length) :
    distributeNodes nodes axis = .ofList (spread axis (gapOf axis (inOrder axis nodes))
      (((inOrder axis nodes).headD default).primary axis) (inOrder axis nodes)) := by
  have enough : ¬ (nodes.length < 3 ∨ (items nodes).length < 3) := by
    have fewer := List.length_filterMap_le itemOf nodes
    rw [items] at several ⊢
    omega
  rw [distributeNodes, if_neg enough]

/-- The boxes in the old order, where the result puts them. -/
theorem map_relocated (distinct : (nodes.map CanvasNode.id).Nodup) (several : 3 ≤ (items nodes).length) :
    (inOrder axis nodes).map (relocated (distributeNodes nodes axis)) = distributed axis (inOrder axis nodes) := by
  rw [distributeNodes_eq several, map_relocated_spread (nodup_inOrder distinct), distributed]

/-- A node without a position is not put anywhere. -/
theorem get?_distributeNodes_of_unplaced (distinct : (nodes.map CanvasNode.id).Nodup) (several : 3 ≤ (items nodes).length) :
    ∀ n ∈ nodes, n.position = none → (distributeNodes nodes axis).get? n.id = none := by
  intro n member unplaced
  rw [OrderedDict.get?_eq_none, distributeNodes_eq several, OrderedDict.mem_keys_ofList, keys_spread]
  intro key
  obtain ⟨item, inSorted, same⟩ := List.mem_map.mp key
  obtain ⟨m, inNodes, given⟩ := List.mem_filterMap.mp (mem_sortOn.mp inSorted)
  obtain ⟨position, placed, rfl⟩ := Option.map_eq_some_iff.mp given
  obtain rfl := List.inj_on_of_nodup_map distinct inNodes member same
  exact absurd (unplaced.symm.trans placed) (by simp)

/-- No box passes the one before it. -/
def KeepsOrder (axis : Axis) (sorted : List Item) : Prop :=
  sorted.IsChain fun a b => 0 ≤ stride axis (gapOf axis sorted) a b

/-- Boxes whose centres come to the same place are in the order of the list. -/
def TiesInOrder (axis : Axis) (nodes : List CanvasNode) : Prop :=
  ∀ c, (distributed axis (inOrder axis nodes)).filter (fun n => n.center axis = c) =
    ((items nodes).map (relocated (distributeNodes nodes axis))).filter fun n => n.center axis = c

theorem gapOf_distributed {sorted : List Item} (several : 2 ≤ sorted.length) :
    gapOf axis (distributed axis sorted) = gapOf axis sorted := by
  have sizes : (distributed axis sorted).map (Item.size axis) = sorted.map (Item.size axis) := map_moved (fun _ _ => by simp)
  have length : (distributed axis sorted).length = sorted.length := length_moved
  rw [gapOf, gapOf, sizes, length, List.headD_eq_head?_getD, distributed_head?, List.getLastD_eq_getLast?,
    distributed_getLast? several, List.headD_eq_head?_getD, List.getLastD_eq_getLast?]

theorem spread_moved {gap cursor : ℚ} {sorted : List Item} :
    spread axis gap cursor (moved axis gap cursor sorted) = spread axis gap cursor sorted := by
  induction sorted generalizing cursor with
  | nil => rfl
  | cons n rest ih =>
    rw [moved_cons, spread, spread, Item.moveTo_id, Item.moveTo_positionAt, Item.moveTo_size, ih]

/-- Boxes that keep their order stay where they have been put. -/
theorem distributeNodes_aligned (distinct : (nodes.map CanvasNode.id).Nodup) (several : 3 ≤ (items nodes).length)
    (keeps : KeepsOrder axis (inOrder axis nodes)) (ties : TiesInOrder axis nodes) :
    distributeNodes (aligned (distributeNodes nodes axis) nodes) axis = distributeNodes nodes axis := by
  have there := items_aligned (@get?_distributeNodes_of_unplaced nodes axis distinct several)
  have sorted : inOrder axis (aligned (distributeNodes nodes axis) nodes) = distributed axis (inOrder axis nodes) := by
    rw [inOrder, there]
    exact sortOn_eq_of_filter_eq (moved_sorted_iff.mpr keeps) ties
  have many : 2 ≤ (inOrder axis nodes).length := by
    rw [inOrder, (perm_sortOn _).length_eq]
    omega
  have again : 3 ≤ (items (aligned (distributeNodes nodes axis) nodes)).length := by
    rw [there, List.length_map]
    exact several
  rw [distributeNodes_eq again, sorted, gapOf_distributed many, List.headD_eq_head?_getD, distributed_head?,
    ← List.headD_eq_head?_getD, distributed, spread_moved, ← distributeNodes_eq several]

/-- The first and the last box stay, the gaps are the same, and the boxes move along one axis only. They
keep the order of their centres precisely if no box passes the one before it, and then nothing more is
left to do. -/
theorem distributeNodes_even (distinct : (nodes.map CanvasNode.id).Nodup) (several : 3 ≤ (items nodes).length) :
    items (aligned (distributeNodes nodes axis) nodes) = (items nodes).map (relocated (distributeNodes nodes axis)) ∧
      ((inOrder axis nodes).map (relocated (distributeNodes nodes axis))).head? = (inOrder axis nodes).head? ∧
      ((inOrder axis nodes).map (relocated (distributeNodes nodes axis))).getLast? = (inOrder axis nodes).getLast? ∧
      ((inOrder axis nodes).map (relocated (distributeNodes nodes axis))).IsChain (fun a b =>
        b.primary axis - (a.primary axis + a.size axis) = gapOf axis (inOrder axis nodes)) ∧
      ((inOrder axis nodes).map (relocated (distributeNodes nodes axis))).map (fun n => (n.id, n.other axis, n.w, n.h)) =
        (inOrder axis nodes).map (fun n => (n.id, n.other axis, n.w, n.h)) ∧
      (((inOrder axis nodes).map (relocated (distributeNodes nodes axis))).Pairwise (fun a b => a.center axis ≤ b.center axis) ↔
        KeepsOrder axis (inOrder axis nodes)) ∧
      (KeepsOrder axis (inOrder axis nodes) → TiesInOrder axis nodes →
        distributeNodes (aligned (distributeNodes nodes axis) nodes) axis = distributeNodes nodes axis) := by
  have many : 2 ≤ (inOrder axis nodes).length := by
    rw [inOrder, (perm_sortOn _).length_eq]
    omega
  rw [map_relocated distinct several]
  refine ⟨items_aligned (get?_distributeNodes_of_unplaced distinct several), distributed_head?, distributed_getLast? many,
    moved_isChain, map_moved fun c n => ?_, moved_sorted_iff, distributeNodes_aligned distinct several⟩
  rw [Item.moveTo_id, Item.moveTo_other]
  rfl

end Nodes

/-- A wide box over three that have no width. -/
def wideBox : List CanvasNode :=
  [ { id := "a", position := some { x := 0, y := 0 } },
    { id := "b", position := some { x := -49, y := 0 }, width := some 100 },
    { id := "c", position := some { x := 2, y := 0 } },
    { id := "d", position := some { x := 4, y := 0 } } ]

/-- The wide box ends up behind the last one, so that the boxes are taken in another order the next time. -/
theorem wide_box_passes_last :
    (wideBox.map CanvasNode.id).Nodup ∧ 3 ≤ (items wideBox).length ∧
      ¬ (((inOrder .horizontal wideBox).map (relocated (distributeNodes wideBox .horizontal))).Pairwise fun a b =>
        a.center .horizontal ≤ b.center .horizontal) ∧
      (distributeNodes (aligned (distributeNodes wideBox .horizontal) wideBox) .horizontal).get? "d" ≠
        (distributeNodes wideBox .horizontal).get? "d" := by
  decide +kernel

def threeBoxes : List CanvasNode :=
  [ { id := "a", position := some { x := 10, y := 1 } },
    { id := "b", position := some { x := 1, y := 2 }, width := some 2 },
    { id := "c", position := some { x := 0, y := 3 } } ]

theorem distributeNodes_even_three :
    (items threeBoxes).length = 3 ∧
      (inOrder .horizontal threeBoxes).IsChain (fun a b => 0 ≤ stride .horizontal (gapOf .horizontal (inOrder .horizontal threeBoxes)) a b) ∧
      ((inOrder .horizontal threeBoxes).map (relocated (distributeNodes threeBoxes .horizontal))).Pairwise (fun a b =>
        a.center .horizontal ≤ b.center .horizontal) := by
  have facts : (threeBoxes.map CanvasNode.id).Nodup ∧ (items threeBoxes).length = 3 ∧ (inOrder .horizontal threeBoxes).IsChain
      (fun a b => 0 ≤ stride .horizontal (gapOf .horizontal (inOrder .horizontal threeBoxes)) a b) := by
    decide +kernel
  obtain ⟨distinct, three, keeps⟩ := facts
  exact ⟨three, keeps, (distributeNodes_even distinct three.ge).2.2.2.2.2.1.mpr keeps⟩

end MetadataGraph.Canvas
