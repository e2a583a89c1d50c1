import MetadataGraph.Lib.LayeredSearch
import MetadataGraph.Service.Page

namespace MetadataGraph.Service

open MetadataGraph.Graph MetadataGraph.Federation LayeredSearch

/-- The arguments of `get_related_nodes`. No types and an empty list of them are the same. -/
structure RelatedRequest where
  nodeId : String
  relationshipTypes : List RelationshipType := []
  depth : ℤ := 1
  includeArchived : Bool := false

variable (σ : Storage) (request : RelatedRequest)

/-- The edge may be traversed. -/
def RelatedRequest.allows (edge : Edge) : Bool :=
  (request.relationshipTypes = [] || edge.type ∈ request.relationshipTypes) && (request.includeArchived || !edge.archived)

/-- `_neighbor_blocked`. The anchor never is. -/
def neighborBlocked (neighborId : String) : Bool :=
  if request.includeArchived || neighborId = request.nodeId then false
  else ((σ.nodes.get? neighborId).map fun ref => (σ.node ref).archived).getD false

/-- The edges that are followed from a node, first those that leave it, with their other ends. -/
def followedFrom (currId : String) : List (String × String) :=
  let outEdges := (σ.graph.arcs.entries.filter fun arc => arc.1.1 = currId).map fun arc => (arc.1.2.2, arc.1.2.1, arc.2)
  let inEdges := (σ.graph.arcs.entries.filter fun arc => arc.1.2.1 = currId).map fun arc => (arc.1.2.2, arc.1.1, arc.2)
  ((outEdges ++ inEdges).filter fun arc => request.allows (σ.edge arc.2.2) && !neighborBlocked σ request arc.2.1).map
    fun arc => (arc.1, arc.2.1)

/-- `get_related_nodes`, where sets are listed in some order. -/
def getRelatedNodes (o : SetOrder) : List Node × List Edge :=
  if request.nodeId ∈ σ.nodes.keys then
    let found := rounds o.order (followedFrom σ request) request.nodeId request.depth.toNat
    ((o.order found.nodes).filterMap fun id => (σ.nodes.get? id).map σ.node,
      (o.order found.arcs).filterMap fun id => (σ.edges.get? id).map σ.edge)
  else ([], [])

/-- A walk may come to the node: it is the anchor, or it is not archived. -/
def Open (id : String) : Prop :=
  request.includeArchived = true ∨ id = request.nodeId ∨ ∀ ref, σ.nodes.get? id = some ref → (σ.node ref).archived = false

/-- The edge is one of the store, may be traversed, and leads from a node to one that is open. -/
structure Leads (edge : Edge) (a b : String) : Prop where
  stored : ∃ ref, σ.edges.get? edge.id = some ref ∧ σ.edge ref = edge
  allowed : request.allows edge = true
  joins : edge.source = a ∧ edge.target = b ∨ edge.source = b ∧ edge.target = a
  free : Open σ request b

/-- The node is reached from the anchor in so many steps. -/
inductive Reached : ℕ → String → Prop
  | anchor : Reached 0 request.nodeId
  | next {n a edge b} : Reached n a → Leads σ request edge a b → Reached (n + 1) b

variable {σ request} {cfg : StorageConfig}

theorem neighborBlocked_iff {id : String} : neighborBlocked σ request id = false ↔ Open σ request id := by
  rw [neighborBlocked, Open]
  by_cases anchored : request.includeArchived = true ∨ id = request.nodeId
  · have unblocked : (request.includeArchived || decide (id = request.nodeId)) = true := by simpa using anchored
    rw [if_pos unblocked, ← or_assoc]
    exact ⟨fun _ => .inl anchored, fun _ => rfl⟩
  · have other : ¬ (request.includeArchived || decide (id = request.nodeId)) = true := by simpa using anchored
    rw [if_neg other, ← or_assoc, or_iff_right anchored]
    cases found : σ.nodes.get? id with
    | none => simp
    | some ref => simp

theorem mem_followedFrom (indexed : σ.Indexed cfg) {currId id b : String} :
    (id, b) ∈ followedFrom σ request currId ↔ ∃ edge, edge.id = id ∧ Leads σ request edge currId b := by
  have arc_iff : ∀ source target key ref, ((source, target, key), ref) ∈ σ.graph.arcs.entries ↔
      σ.edges.get? key = some ref ∧ (σ.edge ref).source = source ∧ (σ.edge ref).target = target := by
    intro source target key ref
    rw [← OrderedDict.get?_eq_some]
    exact indexed.arcs_match source target key ref
  simp only [followedFrom, List.mem_map, List.mem_filter, List.mem_append, Bool.and_eq_true, Bool.not_eq_true',
    neighborBlocked_iff, decide_eq_true_eq, Prod.exists, arc_iff, Prod.mk.injEq]
  constructor
  · rintro ⟨key, far, ref, ⟨joined, allowed, free⟩, rfl, rfl⟩
    rcases joined with leaving | coming
    · obtain ⟨source, target, key, ref, ⟨⟨found, ends⟩, rfl⟩, rfl, rfl, rfl⟩ := leaving
      have named := (indexed.edge_held _ _ found).2.1
      exact ⟨σ.edge ref, named, ⟨ref, named ▸ found, rfl⟩, allowed, .inl ends, free⟩
    · obtain ⟨source, target, key, ref, ⟨⟨found, ends⟩, rfl⟩, rfl, rfl, rfl⟩ := coming
      have named := (indexed.edge_held _ _ found).2.1
      exact ⟨σ.edge ref, named, ⟨ref, named ▸ found, rfl⟩, allowed, .inr ends, free⟩
  · rintro ⟨edge, rfl, ⟨ref, found, rfl⟩, allowed, joins, free⟩
    refine ⟨_, b, ref, ⟨?_, allowed, free⟩, rfl, rfl⟩
    rcases joins with leaving | coming
    · exact .inl ⟨currId, b, _, ref, ⟨⟨found, leaving⟩, rfl⟩, rfl, rfl, rfl⟩
    · exact .inr ⟨b, currId, _, ref, ⟨⟨found, coming⟩, rfl⟩, rfl, rfl, rfl⟩

theorem walk_iff (indexed : σ.Indexed cfg) {n : ℕ} {b : String} :
    Walk (followedFrom σ request) request.nodeId n b ↔ Reached σ request n b := by
  constructor
  · intro walk
    induction walk with
    | start => exact .anchor
    | next _ offered ih =>
      obtain ⟨_, _, leads⟩ := (mem_followedFrom indexed).mp offered
      exact .next ih leads
  · intro reached
    induction reached with
    | anchor => exact .start
    | next _ leads ih => exact .next ih ((mem_followedFrom indexed).mpr ⟨_, rfl, leads⟩)

theorem Leads.start_held (indexed : σ.Indexed cfg) {edge : Edge} {a b : String} (leads : Leads σ request edge a b) :
    a ∈ σ.nodes.keys := by
  obtain ⟨ref, found, rfl⟩ := leads.stored
  obtain ⟨-, -, source, target⟩ := indexed.edge_held _ _ found
  rcases leads.joins with ⟨here, _⟩ | ⟨_, here⟩
  · exact here ▸ source
  · exact here ▸ target

/-- No edge is at an anchor that is not in the store. -/
theorem Reached.eq_anchor (indexed : σ.Indexed cfg) (absent : request.nodeId ∉ σ.nodes.keys) {n : ℕ} {b : String}
    (reached : Reached σ request n b) : b = request.nodeId := by
  induction reached with
  | anchor => rfl
  | next _ leads ih => exact absurd (ih ▸ leads.start_held indexed) absent

/-- The nodes within reach, and the edges that walks within reach meet. -/
structure Exact (σ : Storage) (request : RelatedRequest) (result : List Node × List Edge) : Prop where
  nodes : ∀ node, node ∈ result.1 ↔
    (∃ ref, σ.nodes.get? node.id = some ref ∧ σ.node ref = node) ∧ ∃ n ≤ request.depth.toNat, Reached σ request n node.id
  nodes_once : (result.1.map Node.id).Nodup
  edges : ∀ edge, edge ∈ result.2 ↔
    ∃ n < request.depth.toNat, ∃ a b, Reached σ request n a ∧ Leads σ request edge a b
  edges_once : (result.2.map Edge.id).Nodup

section Listed

variable {α : Type} {held : OrderedDict String ℕ} {read : ℕ → α} {name : α → String}
  (named : ∀ id ref, held.get? id = some ref → name (read ref) = id)

include named

/-- The objects that are listed under their names. -/
theorem mem_filterMap_held {ids : List String} {a : α} :
    a ∈ ids.filterMap (fun id => (held.get? id).map read) ↔
      name a ∈ ids ∧ ∃ ref, held.get? (name a) = some ref ∧ read ref = a := by
  simp only [List.mem_filterMap, Option.map_eq_some_iff]
  constructor
  · rintro ⟨id, member, ref, found, rfl⟩
    rw [named id ref found]
    exact ⟨member, ref, found, rfl⟩
  · rintro ⟨member, ref, found, rfl⟩
    exact ⟨_, member, ref, found, rfl⟩

theorem nodup_filterMap_held {ids : List String} (once : ids.Nodup) :
    ((ids.filterMap fun id => (held.get? id).map read).map name).Nodup := by
  refine List.Nodup.sublist ?_ once
  induction ids with
  | nil => exact .slnil
  | cons id ids ih =>
    rw [List.filterMap_cons]
    cases found : held.get? id with
    | none => exact (ih (List.nodup_cons.mp once).2).cons id
    | some ref =>
      rw [Option.map_some, List.map_cons, named id ref found]
      exact (ih (List.nodup_cons.mp once).2).cons_cons id

end Listed

theorem getRelatedNodes_exact (indexed : σ.Indexed cfg) (o : SetOrder) : Exact σ request (getRelatedNodes σ request o) := by
  have node_named : ∀ id ref, σ.nodes.get? id = some ref → (σ.node ref).id = id :=
    fun id ref found => (indexed.node_held id ref found).2
  have edge_named : ∀ id ref, σ.edges.get? id = some ref → (σ.edge ref).id = id :=
    fun id ref found => (indexed.edge_held id ref found).2.1
  rw [getRelatedNodes]
  split
  · have once := @nodup_rounds _ _ _ _ o.order (followedFrom σ request) request.nodeId request.depth.toNat
    constructor
    · intro node
      rw [mem_filterMap_held node_named, (o.perm _).mem_iff, mem_nodes_rounds o.perm, and_comm]
      simp only [walk_iff indexed]
    · exact nodup_filterMap_held node_named ((o.perm _).nodup_iff.mpr once.1)
    · intro edge
      rw [mem_filterMap_held edge_named, (o.perm _).mem_iff, mem_arcs_rounds o.perm]
      simp only [walk_iff indexed, mem_followedFrom indexed]
      constructor
      · rintro ⟨⟨n, below, a, b, reached, other, same, leads⟩, ref, found, rfl⟩
        obtain ⟨ref', found', rfl⟩ := leads.stored
        rw [same, found] at found'
        obtain rfl := Option.some.inj found'
        exact ⟨n, below, a, b, reached, leads⟩
      · rintro ⟨n, below, a, b, reached, leads⟩
        exact ⟨⟨n, below, a, b, reached, edge, rfl, leads⟩, leads.stored⟩
    · exact nodup_filterMap_held edge_named ((o.perm _).nodup_iff.mpr once.2)
  · rename_i absent
    constructor
    · intro node
      refine iff_of_false List.not_mem_nil ?_
      rintro ⟨⟨ref, found, rfl⟩, n, -, reached⟩
      exact absent (reached.eq_anchor indexed absent ▸ OrderedDict.mem_keys.mpr ⟨ref, found⟩)
    · exact List.nodup_nil
    · intro edge
      refine iff_of_false List.not_mem_nil ?_
      rintro ⟨n, -, a, b, reached, leads⟩
      exact absent (reached.eq_anchor indexed absent ▸ leads.start_held indexed)
    · exact List.nodup_nil

/-- Only the depth differs, so the walks are the same. -/
theorem Reached.deeper {n : ℕ} {b : String} (reached : Reached σ request n b) (depth : ℤ) :
    Reached σ { request with depth } n b := by
  induction reached with
  | anchor => exact .anchor
  | next _ leads ih => exact .next ih ⟨leads.stored, leads.allowed, leads.joins, leads.free⟩

/-- What is found is what is within reach, and a greater depth finds no less. -/
theorem related_nodes_exact (indexed : σ.Indexed cfg) (o : SetOrder) :
    Exact σ request (getRelatedNodes σ request o) ∧
      let deeper := getRelatedNodes σ { request with depth := request.depth + 1 } o
      (∀ node ∈ (getRelatedNodes σ request o).1, node ∈ deeper.1) ∧
        ∀ edge ∈ (getRelatedNodes σ request o).2, edge ∈ deeper.2 := by
  have here : Exact σ request _ := getRelatedNodes_exact indexed o
  have there : Exact σ { request with depth := request.depth + 1 } _ := getRelatedNodes_exact indexed o
  have further : request.depth.toNat ≤ (request.depth + 1).toNat := by omega
  refine ⟨here, fun node member => ?_, fun edge member => ?_⟩
  · obtain ⟨held, n, bound, reached⟩ := (here.nodes node).mp member
    exact (there.nodes node).mpr ⟨held, n, bound.trans further, reached.deeper _⟩
  · obtain ⟨n, below, a, b, reached, leads⟩ := (here.edges edge).mp member
    exact (there.edges edge).mpr
      ⟨n, below.trans_le further, a, b, reached.deeper _, leads.stored, leads.allowed, leads.joins, leads.free⟩

/-- An archived office that links to itself. -/
def archivedStore : Storage :=
  let σ := ((default : Storage).newNode { sampleActor "a" "Office" office_limits with archived := true }).putNode sampleConfig 0
  (σ.newEdge { id := "loop", source := "a", target := "a", createdAt := epoch }).putEdge 0

theorem archivedStore_indexed : archivedStore.Indexed sampleConfig := by
  have empty : ({} : Storage).Indexed sampleConfig := Storage.Indexed.clear sampleConfig {}
  have office := @Storage.Indexed.putNode _ _
    (empty.kept (.newNode sampleConfig { sampleActor "a" "Office" office_limits with archived := true } {})) 0 (by decide)
  exact (office.kept (.newEdge sampleConfig _ _)).putEdge (by decide) (by decide) (by decide) (by decide)

theorem related_nodes_exact_archived :
    let result := getRelatedNodes archivedStore { nodeId := "a" } sampleSearch.setOrder
    let deeper := getRelatedNodes archivedStore { nodeId := "a", depth := 2 } sampleSearch.setOrder
    Exact archivedStore { nodeId := "a" } result ∧ (∀ node ∈ result.1, node ∈ deeper.1) ∧ ∀ edge ∈ result.2, edge ∈ deeper.2 :=
  related_nodes_exact archivedStore_indexed sampleSearch.setOrder

/-- The anchor is returned although it is archived, and its loop with it. -/
theorem archived_anchor_returned : archivedStore.Indexed sampleConfig ∧
    let result := getRelatedNodes archivedStore { nodeId := "a" } sampleSearch.setOrder
    result.1.map (fun node => (node.id, node.archived)) = [("a", true)] ∧ result.2.map Edge.id = ["loop"] :=
  ⟨archivedStore_indexed, by decide +kernel⟩

end MetadataGraph.Service
