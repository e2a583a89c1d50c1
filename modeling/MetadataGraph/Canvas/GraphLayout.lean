import MetadataGraph.Canvas.Distribute
import MetadataGraph.Session.Json
import Mathlib.Algebra.Order.Floor.Semiring
import Mathlib.Data.Rat.Floor
import Mathlib.Data.List.Dedup
import Mathlib.Data.List.Perm.Basic

namespace MetadataGraph.Canvas

/-- A node as React Flow takes it, with the fields that the layout reads or sets; an empty type
counts as none, and `rest` is everything that is only passed on. -/
structure FlowNode where
  id : String
  type : String := ""
  dataType : String := ""
  savedPosition : Bool := false
  position : Option Position := none
  parentId : Option String := none
  style : Option Json := none
  rest : Json := .null
  deriving DecidableEq

/-- A node that is on the canvas: it has a position. -/
structure LiveNode where
  id : String
  position : Position
  parentId : Option String := none
  style : Option Json := none

structure FlowEdge where
  source : String
  target : String
  deriving DecidableEq

/-- What JavaScript's `Math` says of numbers whose values are not rational. -/
structure MathFunctions where
  pi : ℚ
  cos : ℚ → ℚ
  sin : ℚ → ℚ
  sqrt : ℚ → ℚ

def FlowNode.moved (n : FlowNode) (position : Position) : FlowNode := { n with position := some position }

/-- The node without its place. -/
def FlowNode.unplaced (n : FlowNode) : FlowNode := { n with position := none }

/-- What no reconciliation changes of a node. -/
def FlowNode.bare (n : FlowNode) : FlowNode := { n with position := none, parentId := none, style := none }

section FlowNode

variable (n : FlowNode) (p : Position)

@[simp] theorem FlowNode.id_moved : (n.moved p).id = n.id := rfl
@[simp] theorem FlowNode.position_moved : (n.moved p).position = some p := rfl
@[simp] theorem FlowNode.unplaced_moved : (n.moved p).unplaced = n.unplaced := rfl
@[simp] theorem FlowNode.bare_moved : (n.moved p).bare = n.bare := rfl

end FlowNode

@[simp] theorem FlowNode.id_unplaced (n : FlowNode) : n.unplaced.id = n.id := rfl

theorem FlowNode.id_of_unplaced {a b : FlowNode} (same : a.unplaced = b.unplaced) : a.id = b.id := by
  rw [← a.id_unplaced, same, b.id_unplaced]

section Layout

variable (m : MathFunctions)

def gridCellW : ℚ := 280
def gridCellH : ℚ := 180
def parentMinHspan : ℚ := 320
def childVoffset : ℚ := 240
def childHspacing : ℚ := 280
def childVspacing : ℚ := 180
def childGridThreshold : ℕ := 6
def overlapMinDist : ℚ := 220

def nodesOverlap (pos1 pos2 : Position) (minDistance : ℚ) : Bool :=
  let dx := pos1.x - pos2.x
  let dy := pos1.y - pos2.y
  m.sqrt (dx * dx + dy * dy) < minDistance

def positionsOf (nodes : List FlowNode) : List Position := nodes.filterMap FlowNode.position

/-- The middle of `getBoundingBox`, where there is a position. -/
def computeOrigin (existingNodes : List FlowNode) (viewportCenter : Option Position) : Position :=
  match viewportCenter, positionsOf existingNodes with
  | some center, _ => center
  | none, [] => { x := 400, y := 300 }
  | none, first :: rest =>
    let xs := rest.map Position.x
    let ys := rest.map Position.y
    { x := (xs.foldl min first.x + xs.foldl max first.x) / 2, y := (ys.foldl min first.y + ys.foldl max first.y) / 2 }

def getNodeType (n : FlowNode) : String :=
  if n.dataType ≠ "" then n.dataType else if n.type ≠ "" then n.type else "unknown"

/-- `nodeTypeMap.get`; of several nodes with one id the last one counts. -/
def typeAt (nodes : List FlowNode) (id : String) : Option String :=
  (nodes.reverse.find? (·.id = id)).map getNodeType

def gridLayoutAt (nodes : List FlowNode) (center : Position) : List FlowNode :=
  let cols := ⌈m.sqrt (nodes.length * (6 / 5))⌉₊
  let rows := ⌈(nodes.length : ℚ) / cols⌉₊
  let startX := center.x - cols * gridCellW / 2
  let startY := center.y - rows * gridCellH / 2
  nodes.mapIdx fun i n => n.moved {
    x := startX + (i % cols : ℕ) * gridCellW
    y := startY + (i / cols : ℕ) * gridCellH }

/-- The ids of the children of a node, in the order of the edges. -/
def childIds (crossTypeEdges : List FlowEdge) (parent : String) : List String :=
  ((crossTypeEdges.filter (·.source = parent)).map FlowEdge.target).eraseDups

def childColumns (count : ℕ) : ℕ := if count ≤ childGridThreshold then count else ⌈m.sqrt count⌉₊

/-- The horizontal span that a parent needs. -/
def parentHSpan (crossTypeEdges : List FlowEdge) (parent : FlowNode) : ℚ :=
  let count := (childIds crossTypeEdges parent.id).length
  if count = 0 then parentMinHspan else max (childColumns m count * childHspacing) parentMinHspan

/-- The children of a parent that no earlier parent took. -/
def freeChildren (nodes : List FlowNode) (crossTypeEdges : List FlowEdge) (placedIds : List String)
    (parent : FlowNode) : List FlowNode :=
  ((childIds crossTypeEdges parent.id).filterMap fun id => nodes.find? (·.id = id)).filter
    fun child => child.id ∉ parent.id :: placedIds

/-- The children of one parent, in rows below it. -/
def childRows (parentPos : Position) (children : List FlowNode) : List FlowNode :=
  let cols := childColumns m children.length
  let childStartX := parentPos.x - ((cols : ℚ) - 1) * childHspacing / 2
  children.mapIdx fun j child => child.moved {
    x := childStartX + (j % cols : ℕ) * childHspacing
    y := parentPos.y + childVoffset + (j / cols : ℕ) * childVspacing }

/-- The loop over the parents, from the left edge that is reached and the ids that are placed. -/
def placeParents (nodes : List FlowNode) (crossTypeEdges : List FlowEdge) (y : ℚ) :
    ℚ → List String → List FlowNode → List FlowNode
  | _, _, [] => []
  | curX, placedIds, parent :: rest =>
    let span := parentHSpan m crossTypeEdges parent
    let parentPos : Position := { x := curX + span / 2, y := y }
    let children := freeChildren nodes crossTypeEdges placedIds parent
    parent.moved parentPos :: childRows m parentPos children ++
      placeParents nodes crossTypeEdges y (curX + span) (children.map FlowNode.id ++ parent.id :: placedIds) rest

/-- The types that are the source of an edge between types and the target of none. -/
def rootTypes (nodes : List FlowNode) (crossTypeEdges : List FlowEdge) : List (Option String) :=
  let targetTypes := crossTypeEdges.map fun e => typeAt nodes e.target
  (crossTypeEdges.map fun e => typeAt nodes e.source).eraseDups.filter (· ∉ targetTypes)

def hierarchicalLayout (nodes : List FlowNode) (crossTypeEdges : List FlowEdge) (origin : Position) : List FlowNode :=
  let roots := rootTypes nodes crossTypeEdges
  if roots = [] then gridLayoutAt m nodes origin
  else
    let parentNodes := nodes.filter fun n => typeAt nodes n.id ∈ roots
    let totalWidth := (parentNodes.map (parentHSpan m crossTypeEdges)).sum
    let positioned := placeParents m nodes crossTypeEdges origin.y (origin.x - totalWidth / 2) [] parentNodes
    let orphans := nodes.filter fun n => n.id ∉ positioned.map FlowNode.id
    positioned ++ gridLayoutAt m orphans { x := origin.x, y := origin.y + childVoffset * 3 }

/-- The search for a free place: a bounded number of further candidates, the last one unchecked. -/
def settle (overlaps : Position → Bool) (candidate : ℕ → Position) : ℕ → ℕ → Position → Position
  | 0, _, here => here
  | attempts + 1, attempt, here =>
    if overlaps here then settle overlaps candidate attempts (attempt + 1) (candidate attempt) else here

/-- The candidates of a search, on a spiral round the position that was meant. -/
def spiral (turn start stride : ℚ) (around : Position) (attempt : ℕ) : Position :=
  let angle := attempt * turn
  let dist := start + attempt * stride
  { x := around.x + dist * m.cos angle, y := around.y + dist * m.sin angle }

def isOccupied (allOccupied : List Position) (here : Position) : Bool :=
  allOccupied.any fun pos => nodesOverlap m here pos overlapMinDist

/-- The loop of `resolveOverlaps`, from the positions that are taken. -/
def resolveOverlaps : List Position → List FlowNode → List FlowNode
  | _, [] => []
  | occupied, n :: rest =>
    let meant := n.position.getD { x := 0, y := 0 }
    let found := settle (isOccupied m occupied) (spiral m (7 / 10) 180 55 meant) 20 0 meant
    n.moved found :: resolveOverlaps (occupied ++ [found]) rest

/-- The edges between two of the nodes. -/
def internalEdges (nodes : List FlowNode) (edges : List FlowEdge) : List FlowEdge :=
  edges.filter fun e => e.source ∈ nodes.map FlowNode.id ∧ e.target ∈ nodes.map FlowNode.id

def crossTypeEdges (nodes : List FlowNode) (edges : List FlowEdge) : List FlowEdge :=
  (internalEdges nodes edges).filter fun e => typeAt nodes e.source ≠ typeAt nodes e.target

/-- The batch has several types and an edge between two of them. -/
def spansTypes (nodes : List FlowNode) (edges : List FlowEdge) : Bool :=
  2 ≤ (nodes.map fun n => typeAt nodes n.id).dedup.length && crossTypeEdges nodes edges ≠ []

def layoutBatch (nodes : List FlowNode) (edges : List FlowEdge) (origin : Position) : List FlowNode :=
  if spansTypes nodes edges then hierarchicalLayout m nodes (crossTypeEdges nodes edges) origin
  else gridLayoutAt m nodes origin

/-- The positions of the placed nodes that an edge joins to the node. -/
def connectedPositions (existingNodes : List FlowNode) (edges : List FlowEdge) (id : String) : List Position :=
  let existing := fun other => existingNodes.reverse.find? fun n : FlowNode => n.id = other
  (edges.filter fun e => (e.source = id ∨ e.target = id) ∧ ((existing e.source).isSome ∨ (existing e.target).isSome)).filterMap
    fun e => (existing (if e.source = id then e.target else e.source)).bind FlowNode.position

/-- Where a node of a small addition is meant to stand: near what it is connected to, or else near
the origin. -/
def meantPosition (existingNodes : List FlowNode) (edges : List FlowEdge) (origin : Position) (placed : ℕ)
    (n : FlowNode) : Position :=
  let connected := connectedPositions existingNodes edges n.id
  if connected = [] then
    { x := origin.x + (((placed % 3 : ℕ) : ℚ) - 1) * gridCellW, y := origin.y + (placed / 3 : ℕ) * gridCellH }
  else
    let angle := placed * (6 / 5) + m.pi / 4
    { x := (connected.map Position.x).sum / connected.length + 280 * m.cos angle
      y := (connected.map Position.y).sum / connected.length + 280 * m.sin angle }

/-- The loop over a small addition, from the positions that are taken and the number of nodes that
are placed. -/
def placeEach (existingNodes : List FlowNode) (edges : List FlowEdge) (origin : Position) :
    List Position → ℕ → List FlowNode → List FlowNode
  | _, _, [] => []
  | occupied, placed, n :: rest =>
    let meant := meantPosition m existingNodes edges origin placed n
    let found := settle (isOccupied m occupied) (spiral m (4 / 5) 180 60 meant) 15 0 meant
    n.moved found :: placeEach existingNodes edges origin (occupied ++ [found]) (placed + 1) rest

def positionNewNodes (newNodes existingNodes : List FlowNode) (edges : List FlowEdge)
    (viewportCenter : Option Position := none) : List FlowNode :=
  let existingPositions := positionsOf existingNodes
  let origin := computeOrigin existingNodes viewportCenter
  if newNodes = [] then []
  else if existingPositions = [] then resolveOverlaps m [] (layoutBatch m newNodes edges origin)
  else if spansTypes newNodes edges || 5 < newNodes.length then
    resolveOverlaps m existingPositions (layoutBatch m newNodes edges origin)
  else placeEach m existingNodes edges origin existingPositions 0 newNodes

end Layout

/-- The arguments of `reconcileSessionNodes`. -/
structure Reconciliation where
  prevNodes : List LiveNode
  incomingNodes : List FlowNode
  incomingEdges : List FlowEdge := []
  sessionChanged : Bool := false
  inLazyMode : Bool := false

namespace Reconciliation

variable (m : MathFunctions) (call : Reconciliation)

/-- `prevById.get`. -/
def prevById (id : String) : Option LiveNode :=
  if call.sessionChanged then none else call.prevNodes.reverse.find? (·.id = id)

/-- A node as it comes in, or with the place that it has on the canvas. -/
def keepLive (n : FlowNode) : FlowNode :=
  match call.prevById n.id with
  | some existing =>
    if existing.position.x ≠ 0 then
      { n with position := some existing.position, parentId := existing.parentId, style := existing.style <|> n.style }
    else n
  | none => n

def isPlaced (n : FlowNode) : Bool := n.position.any fun p => p.x ≠ 0 || p.y ≠ 0

def mapped : List FlowNode := call.incomingNodes.map call.keepLive

def existingPlaced : List FlowNode := call.mapped.filter fun n => (call.prevById n.id).isSome && isPlaced n

def freshNodes : List FlowNode := call.mapped.filter fun n => (call.prevById n.id).isNone && !n.savedPosition

/-- `posById.get` over the nodes that were placed. -/
def placedAt (placed : List FlowNode) (id : String) : Option Position :=
  (placed.reverse.find? (·.id = id)).bind FlowNode.position

def reconcileSessionNodes : List FlowNode :=
  if call.freshNodes ≠ [] ∧ call.existingPlaced ≠ [] ∧ call.inLazyMode = false then
    let placed := positionNewNodes m call.freshNodes call.existingPlaced call.incomingEdges
    call.mapped.map fun n => (placedAt placed n.id).elim n n.moved
  else call.mapped

end Reconciliation

section Placed

variable (m : MathFunctions)

/-- The nodes of a batch, each of them once and with a position. -/
structure Placed (nodes placed : List FlowNode) : Prop where
  perm : (placed.map FlowNode.unplaced).Perm (nodes.map FlowNode.unplaced)
  positioned : ∀ n ∈ placed, n.position.isSome

theorem ids_of_unplaced {xs ys : List FlowNode} (same : (xs.map FlowNode.unplaced).Perm (ys.map FlowNode.unplaced)) :
    (xs.map FlowNode.id).Perm (ys.map FlowNode.id) := by
  have ids := same.map FlowNode.id
  rw [List.map_map, List.map_map] at ids
  exact ids

theorem map_id_of_unplaced {xs ys : List FlowNode} (same : xs.map FlowNode.unplaced = ys.map FlowNode.unplaced) :
    xs.map FlowNode.id = ys.map FlowNode.id := by
  have ids := congrArg (List.map FlowNode.id) same
  rw [List.map_map, List.map_map] at ids
  exact ids

theorem map_unplaced_mapIdx (f : ℕ → Position) (nodes : List FlowNode) :
    (nodes.mapIdx fun i n => n.moved (f i)).map FlowNode.unplaced = nodes.map FlowNode.unplaced := by
  induction nodes generalizing f with
  | nil => rfl
  | cons n rest ih =>
    rw [List.mapIdx_cons, List.map_cons, List.map_cons, ih fun i => f (i + 1), FlowNode.unplaced_moved]

theorem mem_mapIdx_moved {f : ℕ → Position} {nodes : List FlowNode} {n : FlowNode}
    (member : n ∈ nodes.mapIdx fun i n => n.moved (f i)) : n.position.isSome ∧ ∃ n' ∈ nodes, n.unplaced = n'.unplaced := by
  obtain ⟨i, bound, rfl⟩ := List.mem_mapIdx.mp member
  exact ⟨rfl, nodes[i], List.getElem_mem bound, rfl⟩

theorem placed_gridLayoutAt (nodes : List FlowNode) (center : Position) : Placed nodes (gridLayoutAt m nodes center) where
  perm := by rw [gridLayoutAt, map_unplaced_mapIdx]
  positioned := fun _ member => (mem_mapIdx_moved member).1

theorem resolveOverlaps_unplaced (occupied : List Position) (nodes : List FlowNode) :
    (resolveOverlaps m occupied nodes).map FlowNode.unplaced = nodes.map FlowNode.unplaced := by
  induction nodes generalizing occupied with
  | nil => rfl
  | cons n rest ih => rw [resolveOverlaps, List.map_cons, List.map_cons, ih, FlowNode.unplaced_moved]

theorem resolveOverlaps_positioned {occupied : List Position} {nodes : List FlowNode} {n : FlowNode}
    (member : n ∈ resolveOverlaps m occupied nodes) : n.position.isSome := by
  induction nodes generalizing occupied with
  | nil => cases member
  | cons first rest ih =>
    rcases List.mem_cons.mp member with rfl | later
    · rfl
    · exact ih later

theorem Placed.resolveOverlaps {nodes placed : List FlowNode} (h : Placed nodes placed) (occupied : List Position) :
    Placed nodes (resolveOverlaps m occupied placed) where
  perm := by rw [resolveOverlaps_unplaced]; exact h.perm
  positioned := fun _ member => resolveOverlaps_positioned m member

theorem placeEach_unplaced (existingNodes : List FlowNode) (edges : List FlowEdge) (origin : Position)
    (occupied : List Position) (placed : ℕ) (nodes : List FlowNode) :
    (placeEach m existingNodes edges origin occupied placed nodes).map FlowNode.unplaced = nodes.map FlowNode.unplaced := by
  induction nodes generalizing occupied placed with
  | nil => rfl
  | cons n rest ih => rw [placeEach, List.map_cons, List.map_cons, ih, FlowNode.unplaced_moved]

theorem placeEach_positioned {existingNodes : List FlowNode} {edges : List FlowEdge} {origin : Position}
    {occupied : List Position} {placed : ℕ} {nodes : List FlowNode} {n : FlowNode}
    (member : n ∈ placeEach m existingNodes edges origin occupied placed nodes) : n.position.isSome := by
  induction nodes generalizing occupied placed with
  | nil => cases member
  | cons first rest ih =>
    rcases List.mem_cons.mp member with rfl | later
    · rfl
    · exact ih later

end Placed

section Hierarchy

variable (m : MathFunctions) (nodes : List FlowNode) (cross : List FlowEdge)

theorem mem_freeChildren {placedIds : List String} {parent child : FlowNode}
    (member : child ∈ freeChildren nodes cross placedIds parent) :
    child ∈ nodes ∧ child.id ∉ parent.id :: placedIds ∧ ∃ e ∈ cross, e.source = parent.id ∧ e.target = child.id := by
  obtain ⟨found, free⟩ := List.mem_filter.mp member
  obtain ⟨id, listed, find⟩ := List.mem_filterMap.mp found
  have named : child.id = id := by simpa using List.find?_some find
  rw [childIds, List.mem_eraseDups, List.mem_map] at listed
  obtain ⟨e, ofParent, rfl⟩ := listed
  obtain ⟨isEdge, source⟩ := List.mem_filter.mp ofParent
  exact ⟨List.mem_of_find?_eq_some find, by simpa using free, e, isEdge, by simpa using source, named.symm⟩

theorem nodup_freeChildren (placedIds : List String) (parent : FlowNode) :
    ((freeChildren nodes cross placedIds parent).map FlowNode.id).Nodup := by
  have each : ∀ ids : List String, ids.Nodup →
      ((ids.filterMap fun id => nodes.find? (·.id = id)).map FlowNode.id).Nodup := by
    intro ids distinct
    rw [List.map_filterMap]
    refine distinct.filterMap fun a b c inA inB => ?_
    have named : ∀ id, c ∈ (nodes.find? (·.id = id)).map FlowNode.id → c = id := by
      intro id holds
      obtain ⟨n, find, rfl⟩ := Option.map_eq_some_iff.mp holds
      simpa using List.find?_some find
    rw [← named a inA, ← named b inB]
  exact (each _ (OrderedDict.nodup_eraseDups _)).sublist (List.filter_sublist.map _)

theorem childRows_unplaced (parentPos : Position) (children : List FlowNode) :
    (childRows m parentPos children).map FlowNode.unplaced = children.map FlowNode.unplaced :=
  map_unplaced_mapIdx _ children

theorem placeParents_spec (y curX : ℚ) (placedIds : List String) (parents : List FlowNode)
    (known : ∀ p ∈ parents, p ∈ nodes) (distinct : (parents.map FlowNode.id).Nodup)
    (free : ∀ p ∈ parents, p.id ∉ placedIds) (apart : ∀ e ∈ cross, ∀ p ∈ parents, e.target ≠ p.id) :
    ((placeParents m nodes cross y curX placedIds parents).map FlowNode.id).Nodup ∧
      ∀ n ∈ placeParents m nodes cross y curX placedIds parents,
        n.position.isSome ∧ n.id ∉ placedIds ∧ ∃ n' ∈ nodes, n.unplaced = n'.unplaced := by
  induction parents generalizing curX placedIds with
  | nil => exact ⟨.nil, by simp [placeParents]⟩
  | cons parent rest ih =>
    rw [placeParents]
    set children := freeChildren nodes cross placedIds parent with named
    have child : ∀ c ∈ children, c ∈ nodes ∧ c.id ∉ parent.id :: placedIds ∧ ∃ e ∈ cross, e.source = parent.id ∧ e.target = c.id :=
      fun c member => mem_freeChildren nodes cross member
    rw [List.map_cons, List.nodup_cons] at distinct
    have notChild : ∀ p ∈ parent :: rest, p.id ∉ children.map FlowNode.id := by
      intro p member listed
      obtain ⟨c, isChild, same⟩ := List.mem_map.mp listed
      obtain ⟨-, -, e, isEdge, -, target⟩ := child c isChild
      exact apart e isEdge p member (target.trans same)
    obtain ⟨laterDistinct, later⟩ := ih (curX + parentHSpan m cross parent) (children.map FlowNode.id ++ parent.id :: placedIds)
      (fun p member => known p (List.mem_cons_of_mem _ member)) distinct.2
      (fun p member => by
        rw [List.mem_append, List.mem_cons, not_or, not_or]
        exact ⟨notChild p (List.mem_cons_of_mem _ member),
          fun same => distinct.1 (List.mem_map.mpr ⟨p, member, same⟩), free p (List.mem_cons_of_mem _ member)⟩)
      (fun e isEdge p member => apart e isEdge p (List.mem_cons_of_mem _ member))
    have rowIds : ∀ parentPos, (childRows m parentPos children).map FlowNode.id = children.map FlowNode.id :=
      fun parentPos => map_id_of_unplaced (childRows_unplaced m parentPos children)
    refine ⟨?_, fun n member => ?_⟩
    · rw [List.cons_append, List.map_cons, List.map_append, rowIds, List.nodup_cons, List.nodup_append]
      refine ⟨fun again => ?_, nodup_freeChildren nodes cross placedIds parent, laterDistinct, fun a inRow b inRest same => ?_⟩
      · rcases List.mem_append.mp again with inRow | inRest
        · exact notChild parent List.mem_cons_self inRow
        · obtain ⟨n, member, named⟩ := List.mem_map.mp inRest
          refine (later n member).2.1 (List.mem_append_right _ ?_)
          exact named ▸ List.mem_cons_self
      · obtain ⟨n, member, named⟩ := List.mem_map.mp inRest
        refine (later n member).2.1 (List.mem_append_left _ ?_)
        exact named ▸ same ▸ inRow
    · rw [List.cons_append, List.mem_cons, List.mem_append] at member
      rcases member with rfl | inRow | inRest
      · exact ⟨rfl, free parent List.mem_cons_self, parent, known parent List.mem_cons_self, rfl⟩
      · obtain ⟨positioned, c, isChild, same⟩ := mem_mapIdx_moved inRow
        obtain ⟨isNode, new, -⟩ := child c isChild
        exact ⟨positioned, FlowNode.id_of_unplaced same ▸ fun old => new (List.mem_cons_of_mem _ old), c, isNode, same⟩
      · obtain ⟨positioned, new, origin⟩ := later n inRest
        exact ⟨positioned, fun old => new (List.mem_append_right _ (List.mem_cons_of_mem _ old)), origin⟩

variable {nodes cross}

/-- A node that an edge between types ends in is of no root type, so no parent is a child. -/
theorem not_root_of_target {e : FlowEdge} (isEdge : e ∈ cross) :
    typeAt nodes e.target ∉ rootTypes nodes cross := by
  intro root
  have noTarget := (List.mem_filter.mp root).2
  exact of_decide_eq_true noTarget (List.mem_map.mpr ⟨e, isEdge, rfl⟩)

/-- The nodes that a partial placement took, and the others apart. -/
theorem perm_of_taken {placed : List FlowNode} (distinct : (nodes.map FlowNode.id).Nodup)
    (once : (placed.map FlowNode.id).Nodup) (known : ∀ n ∈ placed, ∃ n' ∈ nodes, n.unplaced = n'.unplaced) :
    (placed.map FlowNode.unplaced).Perm
      ((nodes.filter fun n => n.id ∈ placed.map FlowNode.id).map FlowNode.unplaced) := by
  have nodup : ∀ xs : List FlowNode, (xs.map FlowNode.id).Nodup → (xs.map FlowNode.unplaced).Nodup := by
    intro xs ids
    refine List.Nodup.of_map FlowNode.id ?_
    rw [List.map_map]
    exact ids
  refine (List.perm_ext_iff_of_nodup (nodup _ once) (nodup _ (distinct.sublist (List.filter_sublist.map _)))).mpr fun bare => ?_
  rw [List.mem_map, List.mem_map]
  refine ⟨fun ⟨n, member, named⟩ => ?_, fun ⟨n, member, named⟩ => ?_⟩
  · obtain ⟨n', isNode, same⟩ := known n member
    refine ⟨n', List.mem_filter.mpr ⟨isNode, decide_eq_true ?_⟩, same ▸ named⟩
    exact List.mem_map.mpr ⟨n, member, FlowNode.id_of_unplaced same⟩
  · obtain ⟨isNode, taken⟩ := List.mem_filter.mp member
    obtain ⟨p, isPlaced, same⟩ := List.mem_map.mp (of_decide_eq_true taken)
    obtain ⟨n', isNode', unplaced⟩ := known p isPlaced
    have equal : n' = n := List.inj_on_of_nodup_map distinct isNode' isNode ((FlowNode.id_of_unplaced unplaced).symm.trans same)
    exact ⟨p, isPlaced, by rw [unplaced, equal, named]⟩

theorem placed_hierarchicalLayout (distinct : (nodes.map FlowNode.id).Nodup) (origin : Position) :
    Placed nodes (hierarchicalLayout m nodes cross origin) := by
  rw [hierarchicalLayout]
  split
  · exact placed_gridLayoutAt m nodes origin
  · set parents := nodes.filter fun n => typeAt nodes n.id ∈ rootTypes nodes cross with parentsEq
    have isParent : ∀ p ∈ parents, p ∈ nodes ∧ typeAt nodes p.id ∈ rootTypes nodes cross :=
      fun p member => ⟨(List.mem_filter.mp member).1, of_decide_eq_true (List.mem_filter.mp member).2⟩
    obtain ⟨once, each⟩ := placeParents_spec m nodes cross origin.y
      (origin.x - (parents.map (parentHSpan m cross)).sum / 2) [] parents (fun p member => (isParent p member).1)
      (distinct.sublist (List.filter_sublist.map _)) (fun _ _ => List.not_mem_nil)
      (fun e isEdge p member same => not_root_of_target isEdge (same ▸ (isParent p member).2))
    set positioned := placeParents m nodes cross origin.y _ [] parents with positionedEq
    refine ⟨?_, fun n member => ?_⟩
    · rw [List.map_append, gridLayoutAt, map_unplaced_mapIdx]
      have parted := (List.filter_append_perm (fun n => decide (n.id ∈ positioned.map FlowNode.id)) nodes).map FlowNode.unplaced
      rw [List.map_append] at parted
      refine ((perm_of_taken distinct once fun n member => (each n member).2.2).append_right _).trans ?_
      simpa only [decide_not] using parted
    · rcases List.mem_append.mp member with inTree | orphan
      · exact (each n inTree).1
      · exact (mem_mapIdx_moved orphan).1

end Hierarchy

section Placing

variable (m : MathFunctions)

theorem placed_layoutBatch {nodes : List FlowNode} (distinct : (nodes.map FlowNode.id).Nodup) (edges : List FlowEdge)
    (origin : Position) : Placed nodes (layoutBatch m nodes edges origin) := by
  rw [layoutBatch]
  split
  · exact placed_hierarchicalLayout m distinct origin
  · exact placed_gridLayoutAt m nodes origin

theorem placed_positionNewNodes {newNodes : List FlowNode} (distinct : (newNodes.map FlowNode.id).Nodup)
    (existingNodes : List FlowNode) (edges : List FlowEdge) (viewportCenter : Option Position) :
    Placed newNodes (positionNewNodes m newNodes existingNodes edges viewportCenter) := by
  rw [positionNewNodes]
  split
  · rename_i empty
    subst empty
    exact ⟨.nil, fun n member => absurd member List.not_mem_nil⟩
  split
  · exact (placed_layoutBatch m distinct edges _).resolveOverlaps m _
  split
  · exact (placed_layoutBatch m distinct edges _).resolveOverlaps m _
  · exact ⟨.of_eq (placeEach_unplaced m existingNodes edges _ _ _ newNodes), fun n member => placeEach_positioned m member⟩

/-- Where a bounded search ends: at a free position, or at its last candidate, after all before it
were taken. -/
theorem settle_spec (overlaps : Position → Bool) (candidate : ℕ → Position) (attempts attempt : ℕ) (here : Position) :
    overlaps (settle overlaps candidate (attempts + 1) attempt here) = false ∨
      overlaps here = true ∧ (∀ k < attempts, overlaps (candidate (attempt + k)) = true) ∧
        settle overlaps candidate (attempts + 1) attempt here = candidate (attempt + attempts) := by
  induction attempts generalizing attempt here with
  | zero =>
    rw [settle]
    split
    · rename_i taken
      exact .inr ⟨taken, fun k before => absurd before (Nat.not_lt_zero k), rfl⟩
    · rename_i free
      exact .inl (Bool.eq_false_iff.mpr free)
  | succ attempts ih =>
    rw [settle]
    split
    · rename_i taken
      rcases ih (attempt + 1) (candidate attempt) with free | ⟨next, others, last⟩
      · exact .inl free
      · refine .inr ⟨taken, fun k before => ?_, ?_⟩
        · cases k with
          | zero => exact next
          | succ k =>
            have := others k (by omega)
            rwa [show attempt + 1 + k = attempt + (k + 1) by omega] at this
        · rw [last]
          congr 1
          omega
    · rename_i free
      exact .inl (Bool.eq_false_iff.mpr free)

/-- The position is free, or the last one of a spiral of candidates that are all taken. -/
def FreeOrExhausted (occupied : List Position) (p : Position) : Prop :=
  isOccupied m occupied p = false ∨
    ∃ meant turn start stride attempts, isOccupied m occupied meant = true ∧
      (∀ k < attempts, isOccupied m occupied (spiral m turn start stride meant k) = true) ∧
      14 ≤ attempts ∧ p = spiral m turn start stride meant attempts

theorem freeOrExhausted_settle (occupied : List Position) (meant : Position) (turn start stride : ℚ) {attempts : ℕ}
    (enough : 14 ≤ attempts) :
    FreeOrExhausted m occupied
      (settle (isOccupied m occupied) (spiral m turn start stride meant) (attempts + 1) 0 meant) := by
  rcases settle_spec (isOccupied m occupied) (spiral m turn start stride meant) attempts 0 meant with
    free | ⟨taken, others, last⟩
  · exact .inl free
  · refine .inr ⟨meant, turn, start, stride, attempts, taken, fun k before => ?_, enough, ?_⟩
    · simpa only [Nat.zero_add] using others k before
    · simpa only [Nat.zero_add] using last

/-- Every node avoids what is there and the nodes placed before it. -/
inductive Avoids : List Position → List FlowNode → Prop
  | nil (occupied) : Avoids occupied []
  | cons {occupied : List Position} {n : FlowNode} {p : Position} {rest : List FlowNode} (position : n.position = some p)
      (free : FreeOrExhausted m occupied p) (later : Avoids (occupied ++ [p]) rest) : Avoids occupied (n :: rest)

theorem avoids_resolveOverlaps (occupied : List Position) (nodes : List FlowNode) :
    Avoids m occupied (resolveOverlaps m occupied nodes) := by
  induction nodes generalizing occupied with
  | nil => exact .nil occupied
  | cons n rest ih => exact .cons rfl (freeOrExhausted_settle m occupied _ _ _ _ (by omega)) (ih _)

theorem avoids_placeEach (existingNodes : List FlowNode) (edges : List FlowEdge) (origin : Position)
    (occupied : List Position) (placed : ℕ) (nodes : List FlowNode) :
    Avoids m occupied (placeEach m existingNodes edges origin occupied placed nodes) := by
  induction nodes generalizing occupied placed with
  | nil => exact .nil occupied
  | cons n rest ih => exact .cons rfl (freeOrExhausted_settle m occupied _ _ _ _ (by omega)) (ih _ _)

end Placing

namespace Reconciliation

variable (m : MathFunctions) (call : Reconciliation)

@[simp] theorem id_keepLive (n : FlowNode) : (call.keepLive n).id = n.id := by
  rw [keepLive]
  split
  · split <;> rfl
  · rfl

@[simp] theorem bare_keepLive (n : FlowNode) : (call.keepLive n).bare = n.bare := by
  rw [keepLive]
  split
  · split <;> rfl
  · rfl

theorem id_of_bare {a b : FlowNode} (same : a.bare = b.bare) : a.id = b.id :=
  show a.bare.id = b.bare.id from same ▸ rfl

theorem eq_origin {p : Position} (x : p.x = 0) (y : p.y = 0) : p = { x := 0, y := 0 } := by
  cases p
  subst x y
  rfl

theorem keepLive_of_new {n : FlowNode} (new : call.prevById n.id = none) : call.keepLive n = n := by
  rw [keepLive, new]

/-- The nodes that are not on the canvas and have no saved position. -/
theorem freshNodes_eq : call.freshNodes =
    call.incomingNodes.filter fun n => (call.prevById n.id).isNone && !n.savedPosition := by
  rw [freshNodes, mapped]
  induction call.incomingNodes with
  | nil => rfl
  | cons n rest ih =>
    rw [List.map_cons, List.filter_cons, List.filter_cons, ih, id_keepLive]
    cases new : call.prevById n.id with
    | none => rw [keepLive_of_new call new]
    | some live => rfl

/-- What becomes of one node. -/
def outcome (n : FlowNode) : FlowNode :=
  if call.freshNodes ≠ [] ∧ call.existingPlaced ≠ [] ∧ call.inLazyMode = false then
    let placed := positionNewNodes m call.freshNodes call.existingPlaced call.incomingEdges
    (placedAt placed n.id).elim (call.keepLive n) (call.keepLive n).moved
  else call.keepLive n

theorem reconcileSessionNodes_eq : call.reconcileSessionNodes m = call.incomingNodes.map (call.outcome m) := by
  have each : call.outcome m = fun n => call.outcome m n := rfl
  rw [reconcileSessionNodes, each]
  simp only [outcome]
  split
  · rw [mapped, List.map_map]
    exact List.map_congr_left fun n _ => by rw [Function.comp_apply, id_keepLive]
  · rfl

theorem bare_outcome (n : FlowNode) : (call.outcome m n).bare = n.bare := by
  rw [outcome]
  split
  · dsimp only
    cases placedAt (positionNewNodes m call.freshNodes call.existingPlaced call.incomingEdges) n.id with
    | none => exact bare_keepLive call n
    | some p => exact bare_keepLive call n
  · exact bare_keepLive call n

/-- Where a node finds a position, it is that of the placed node with its id. -/
theorem placedAt_eq_some {placed : List FlowNode} {id : String} {p : Position} (found : placedAt placed id = some p) :
    ∃ n ∈ placed, n.id = id ∧ n.position = some p := by
  obtain ⟨n, isPlaced, position⟩ := Option.bind_eq_some_iff.mp found
  exact ⟨n, List.mem_reverse.mp (List.mem_of_find?_eq_some isPlaced), by simpa using List.find?_some isPlaced, position⟩

variable {call}

/-- Only the nodes that `positionNewNodes` was given are moved. -/
theorem outcome_of_not_fresh (distinct : (call.incomingNodes.map FlowNode.id).Nodup) {n : FlowNode}
    (notFresh : n.id ∉ call.freshNodes.map FlowNode.id) : call.outcome m n = call.keepLive n := by
  rw [outcome]
  split
  · have nowhere : placedAt (positionNewNodes m call.freshNodes call.existingPlaced call.incomingEdges) n.id = none := by
      rw [Option.eq_none_iff_forall_ne_some]
      intro p found
      obtain ⟨other, isPlaced, named, -⟩ := placedAt_eq_some found
      have fresh : (call.freshNodes.map FlowNode.id).Nodup := by
        rw [freshNodes_eq]
        exact distinct.sublist (List.filter_sublist.map _)
      have ids := ids_of_unplaced (placed_positionNewNodes m fresh call.existingPlaced call.incomingEdges none).perm
      exact notFresh (ids.mem_iff.mp (List.mem_map.mpr ⟨other, isPlaced, named⟩))
    dsimp only
    rw [nowhere]
    rfl
  · rfl

theorem not_fresh_of_live {n : FlowNode} {live : LiveNode} (isLive : call.prevById n.id = some live) :
    n.id ∉ call.freshNodes.map FlowNode.id := by
  intro listed
  obtain ⟨other, member, same⟩ := List.mem_map.mp listed
  rw [freshNodes_eq] at member
  have new := (List.mem_filter.mp member).2
  rw [same, isLive] at new
  cases new

theorem not_fresh_of_saved (distinct : (call.incomingNodes.map FlowNode.id).Nodup) {n : FlowNode}
    (incoming : n ∈ call.incomingNodes) (saved : n.savedPosition = true) : n.id ∉ call.freshNodes.map FlowNode.id := by
  intro listed
  obtain ⟨other, member, same⟩ := List.mem_map.mp listed
  rw [freshNodes_eq] at member
  obtain ⟨isIncoming, new⟩ := List.mem_filter.mp member
  rw [List.inj_on_of_nodup_map distinct isIncoming incoming same, saved, Bool.not_true, Bool.and_false] at new
  cases new

/-- What a user may rely on when the nodes of the store come in. -/
structure KeepsPlaced (m : MathFunctions) (call : Reconciliation) : Prop where
  same : (call.reconcileSessionNodes m).map FlowNode.bare = call.incomingNodes.map FlowNode.bare
  live : ∀ n ∈ call.incomingNodes, ∀ live, call.prevById n.id = some live → live.position ≠ { x := 0, y := 0 } →
    ∀ n' ∈ call.reconcileSessionNodes m, n'.id = n.id → n'.position = some live.position ∧ n'.parentId = live.parentId
  saved : ∀ n ∈ call.incomingNodes, call.prevById n.id = none → n.savedPosition = true →
    n ∈ call.reconcileSessionNodes m
  fresh : ∀ n ∈ call.incomingNodes, call.prevById n.id = none → n.savedPosition = false →
    n ∈ call.reconcileSessionNodes m ∨
      ∃ n' ∈ positionNewNodes m call.freshNodes call.existingPlaced call.incomingEdges,
        n'.unplaced = n.unplaced ∧ n' ∈ call.reconcileSessionNodes m
  placed : ∀ newNodes : List FlowNode, (newNodes.map FlowNode.id).Nodup → ∀ existingNodes edges viewportCenter,
    Placed newNodes (positionNewNodes m newNodes existingNodes edges viewportCenter)
  switched : call.sessionChanged = true → ∀ prevNodes,
    { call with prevNodes }.reconcileSessionNodes m = call.reconcileSessionNodes m

variable (distinct : (call.incomingNodes.map FlowNode.id).Nodup)

include distinct

theorem eq_outcome {n n' : FlowNode} (incoming : n ∈ call.incomingNodes) (result : n' ∈ call.reconcileSessionNodes m)
    (same : n'.id = n.id) : n' = call.outcome m n := by
  rw [reconcileSessionNodes_eq] at result
  obtain ⟨other, isIncoming, rfl⟩ := List.mem_map.mp result
  rw [List.inj_on_of_nodup_map distinct isIncoming incoming ((id_of_bare (bare_outcome m call other)).symm.trans same)]

omit distinct in
theorem outcome_mem {n : FlowNode} (incoming : n ∈ call.incomingNodes) : call.outcome m n ∈ call.reconcileSessionNodes m := by
  rw [reconcileSessionNodes_eq]
  exact List.mem_map_of_mem incoming

omit distinct in
/-- A fresh node stays as it is or goes where `positionNewNodes` put it. -/
theorem outcome_fresh {n : FlowNode} (new : call.prevById n.id = none) (distinct : (call.incomingNodes.map FlowNode.id).Nodup)
    (incoming : n ∈ call.incomingNodes) (unsaved : n.savedPosition = false) :
    call.outcome m n = n ∨ ∃ n' ∈ positionNewNodes m call.freshNodes call.existingPlaced call.incomingEdges,
      n'.unplaced = n.unplaced ∧ call.outcome m n = n' := by
  rw [outcome, keepLive_of_new call new]
  split
  · dsimp only
    cases found : placedAt (positionNewNodes m call.freshNodes call.existingPlaced call.incomingEdges) n.id with
    | none => exact .inl rfl
    | some p =>
      obtain ⟨n', isPlaced, named, position⟩ := placedAt_eq_some found
      have fresh : (call.freshNodes.map FlowNode.id).Nodup := by
        rw [freshNodes_eq]
        exact distinct.sublist (List.filter_sublist.map _)
      have given := (placed_positionNewNodes m fresh call.existingPlaced call.incomingEdges none).perm.mem_iff.mp
        (List.mem_map_of_mem isPlaced)
      obtain ⟨other, isFresh, unplaced⟩ := List.mem_map.mp given
      have isIncoming : other ∈ call.incomingNodes := by
        rw [freshNodes_eq] at isFresh
        exact (List.mem_filter.mp isFresh).1
      have same : other = n := List.inj_on_of_nodup_map distinct isIncoming incoming
        ((FlowNode.id_of_unplaced unplaced).trans named)
      subst same
      refine .inr ⟨n', isPlaced, unplaced.symm, ?_⟩
      calc other.moved p = { other.unplaced with position := some p } := rfl
        _ = { n'.unplaced with position := n'.position } := by rw [unplaced, position]
        _ = n' := rfl
  · exact .inl rfl

omit distinct

def plainMath : MathFunctions where
  pi := 3
  cos := fun _ => 1
  sin := fun _ => 0
  sqrt := fun x => x

/-- One node, whose live copy stands straight above the origin. -/
def draggedUp : Reconciliation where
  prevNodes := [{ id := "actor", position := { x := 0, y := 50 } }]
  incomingNodes := [{ id := "actor", position := some { x := 10, y := 10 } }]

end Reconciliation

end MetadataGraph.Canvas
