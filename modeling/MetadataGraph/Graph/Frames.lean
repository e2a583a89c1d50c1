import MetadataGraph.Graph.Replay

namespace MetadataGraph.Graph

open ObjectHeap

namespace Storage

variable {cfg : StorageConfig} {σ τ : Storage}

/-- The node that is stored under an id. -/
def stored (σ : Storage) (id : String) : Option Node := (σ.nodes.get? id).map σ.node

/-- The edge that is stored under an id. -/
def link (σ : Storage) (id : String) : Option Edge := (σ.edges.get? id).map σ.edge

theorem stored_eq_some {id : String} {node : Node} :
    σ.stored id = some node ↔ ∃ ref, σ.nodes.get? id = some ref ∧ σ.node ref = node := Option.map_eq_some_iff

theorem link_eq_some {id : String} {edge : Edge} :
    σ.link id = some edge ↔ ∃ ref, σ.edges.get? id = some ref ∧ σ.edge ref = edge := Option.map_eq_some_iff

theorem link_eq_none {id : String} : σ.link id = none ↔ id ∉ σ.edges.keys := by
  rw [link, Option.map_eq_none_iff, OrderedDict.get?_eq_none]

section Views

variable (visible : Node → Bool)

/-- An end of the edge is a node that is there and is not seen. -/
def Hidden (σ : Storage) (edge : Edge) : Prop :=
  ∃ id node, (id = edge.source ∨ id = edge.target) ∧ σ.stored id = some node ∧ visible node = false

/-- A change that stays inside of what is seen: a hidden node stays as it is, an edge at a hidden node
stays as it is or goes with a seen node at its other end, and no edge comes to a hidden node. -/
structure Confined (σ τ : Storage) : Prop where
  nodes : ∀ id node, σ.stored id = some node → visible node = false → τ.stored id = some node
  edges : ∀ id edge, σ.link id = some edge → σ.Hidden visible edge → τ.link id = some edge ∨
    τ.link id = none ∧ ∃ gone node, (gone = edge.source ∨ gone = edge.target) ∧ σ.stored gone = some node ∧
      visible node = true ∧ τ.stored gone = none
  links : ∀ id edge, τ.link id = some edge → τ.Hidden visible edge → σ.link id = some edge

end Views

variable {visible : Node → Bool}

theorem Hidden.congr (stored : ∀ id, τ.stored id = σ.stored id) {edge : Edge} :
    τ.Hidden visible edge ↔ σ.Hidden visible edge := by
  simp only [Hidden, stored]

theorem Confined.refl (visible : Node → Bool) (σ : Storage) : Confined visible σ σ :=
  ⟨fun _ _ here _ => here, fun _ _ here _ => .inl here, fun _ _ here _ => here⟩

/-- Only what is stored counts. -/
theorem Confined.congr {ρ : Storage} (stored : ∀ id, ρ.stored id = σ.stored id) (link : ∀ id, ρ.link id = σ.link id) :
    Confined visible ρ τ ↔ Confined visible σ τ := by
  constructor
  · rintro ⟨nodes, edges, links⟩
    simp only [stored, link, Hidden.congr stored] at nodes edges links
    exact ⟨nodes, edges, links⟩
  · rintro ⟨nodes, edges, links⟩
    refine ⟨?_, ?_, ?_⟩ <;> simp only [stored, link, Hidden.congr stored] <;> assumption

theorem Confined.save (inside : Confined visible σ τ) : Confined visible σ τ.save :=
  ⟨inside.nodes, inside.edges, inside.links⟩

theorem Confined.of_nodes (nodes : ∀ id node, σ.stored id = some node → visible node = false → τ.stored id = some node)
    (link : ∀ id, τ.link id = σ.link id) : Confined visible σ τ :=
  ⟨nodes, fun id _ here _ => .inl ((link id).trans here), fun id _ here _ => (link id).symm.trans here⟩

theorem Confined.of_links (stored : ∀ id, τ.stored id = σ.stored id)
    (links : ∀ id edge, σ.Hidden visible edge → (τ.link id = some edge ↔ σ.link id = some edge)) :
    Confined visible σ τ :=
  ⟨fun id _ here _ => (stored id).trans here, fun id edge here hidden => .inl ((links id edge hidden).mpr here),
    fun id edge here hidden => (links id edge ((Hidden.congr stored).mp hidden)).mp here⟩

/-- An edge that is not hidden may be changed if it keeps its ends. -/
theorem Confined.of_edge (stored : ∀ id, τ.stored id = σ.stored id) (edges : τ.edges = σ.edges)
    (ends : ∀ ref, (τ.edge ref).source = (σ.edge ref).source ∧ (τ.edge ref).target = (σ.edge ref).target)
    (others : ∀ id ref, σ.edges.get? id = some ref → σ.Hidden visible (σ.edge ref) → τ.edge ref = σ.edge ref) :
    Confined visible σ τ := by
  refine .of_links stored fun id edge hidden => ?_
  rw [link_eq_some, link_eq_some, edges]
  constructor
  · rintro ⟨ref, found, rfl⟩
    have before : σ.Hidden visible (σ.edge ref) := by
      simpa only [Hidden, (ends ref).1, (ends ref).2] using hidden
    exact ⟨ref, found, (others id ref found before).symm⟩
  · rintro ⟨ref, found, rfl⟩
    exact ⟨ref, found, others id ref found hidden⟩

theorem stored_of_same (nodes : τ.nodes = σ.nodes) (objects : τ.nodeObjects = σ.nodeObjects) (id : String) :
    τ.stored id = σ.stored id := by
  rw [stored, stored, nodes]
  refine congrArg (Option.map · _) (funext fun ref => ?_)
  rw [Storage.node, Storage.node, objects]

theorem link_of_same (edges : τ.edges = σ.edges) (objects : τ.edgeObjects = σ.edgeObjects) (id : String) :
    τ.link id = σ.link id := by
  rw [link, link, edges]
  refine congrArg (Option.map · _) (funext fun ref => ?_)
  rw [Storage.edge, Storage.edge, objects]

theorem Untouched.confined (untouched : Untouched σ τ) : Confined visible σ τ := by
  refine .of_nodes (fun id node here _ => ?_) fun id => ?_
  · obtain ⟨ref, found, rfl⟩ := stored_eq_some.mp here
    exact stored_eq_some.mpr ⟨ref, by rw [untouched.nodes]; exact found, untouched.node id ref found⟩
  · rw [link, link, untouched.edges]
    cases found : σ.edges.get? id with
    | none => rfl
    | some ref => exact congrArg some (untouched.edge id ref found)

/-- Changes of node objects that are seen stay inside. -/
theorem Confined.of_objects (nodes : τ.nodes = σ.nodes) (edges : τ.edges = σ.edges) (objects : τ.edgeObjects = σ.edgeObjects)
    (others : ∀ id ref, σ.nodes.get? id = some ref → visible (σ.node ref) = false → τ.node ref = σ.node ref) :
    Confined visible σ τ := by
  refine .of_nodes (fun id node here unseen => ?_) (link_of_same edges objects)
  obtain ⟨ref, found, rfl⟩ := stored_eq_some.mp here
  exact stored_eq_some.mpr ⟨ref, by rw [nodes]; exact found, others id ref found unseen⟩

theorem OneNode.confined {ref : Ref} (one : OneNode ref σ τ) (seen : visible (σ.node ref) = true) :
    Confined visible σ τ := by
  refine .of_objects one.nodes one.edges one.edgeObjects fun id other found unseen => one.others other fun same => ?_
  rw [same, seen] at unseen
  cases unseen

/-- What the loop over archived nodes leaves as it is. -/
theorem archiveNodes_frame (archived : Bool) (nodes : List (String × Datetime)) (σ : Storage) :
    (σ.archiveNodes archived nodes).1.nodes = σ.nodes ∧ (σ.archiveNodes archived nodes).1.edges = σ.edges ∧
      (σ.archiveNodes archived nodes).1.edgeObjects = σ.edgeObjects ∧
        ∀ ref, (∀ pair ∈ nodes, σ.nodes.get? pair.1 ≠ some ref) → (σ.archiveNodes archived nodes).1.node ref = σ.node ref := by
  induction nodes generalizing σ with
  | nil => exact ⟨rfl, rfl, rfl, fun _ _ => rfl⟩
  | cons pair nodes ih =>
    obtain ⟨id, now⟩ := pair
    rw [archiveNodes]
    cases found : σ.nodes.get? id with
    | none =>
      obtain ⟨sameNodes, sameEdges, objects, others⟩ := ih σ
      exact ⟨sameNodes, sameEdges, objects, fun ref apart => others ref fun pair member => apart pair (.tail _ member)⟩
    | some held =>
      dsimp only
      split
      · obtain ⟨sameNodes, sameEdges, objects, others⟩ := ih σ
        exact ⟨sameNodes, sameEdges, objects, fun ref apart => others ref fun pair member => apart pair (.tail _ member)⟩
      · have first : ∀ ref, (∀ pair ∈ (id, now) :: nodes, σ.nodes.get? pair.1 ≠ some ref) →
            (σ.setNode held { σ.node held with archived, updatedAt := now }).node ref = σ.node ref := fun ref apart =>
          Heap.read_write_of_ne (fun same => apart _ (.head _) (by rw [← same]; exact found)) _
        split
        · exact ⟨rfl, rfl, rfl, first⟩
        · rename_i graph _
          obtain ⟨sameNodes, sameEdges, objects, others⟩ :=
            ih { σ.setNode held { σ.node held with archived, updatedAt := now } with graph }
          exact ⟨sameNodes, sameEdges, objects, fun ref apart =>
            (others ref fun pair member => apart pair (.tail _ member)).trans (first ref apart)⟩

theorem setNodesArchived_confined (nodes : List (String × Datetime)) (archived : Bool)
    (seen : ∀ pair ∈ nodes, ∀ node, σ.stored pair.1 = some node → visible node = true) :
    Confined visible σ (σ.setNodesArchived nodes archived).1 := by
  obtain ⟨sameNodes, sameEdges, objects, others⟩ := archiveNodes_frame archived nodes σ
  have inside : Confined visible σ (σ.archiveNodes archived nodes).1 := by
    refine .of_objects sameNodes sameEdges objects fun id ref found unseen => others ref fun pair member held => ?_
    have shown := seen pair member (σ.node ref) (stored_eq_some.mpr ⟨ref, held, rfl⟩)
    rw [unseen] at shown
    cases shown
  rw [setNodesArchived]
  generalize σ.archiveNodes archived nodes = done at inside
  obtain ⟨υ, outcome⟩ := done
  cases outcome with
  | error error => exact inside
  | ok found =>
    dsimp only
    split
    · exact inside.save
    · exact inside

/-- Setting an edge object sets that object, if it is there. -/
theorem edge_setEdge_or (ref : Ref) (edge : Edge) (σ : Storage) (other : Ref) :
    other = ref ∧ (σ.setEdge ref edge).edge other = edge ∨ (σ.setEdge ref edge).edge other = σ.edge other := by
  by_cases same : other = ref
  · obtain rfl := same
    by_cases inside : other < σ.edgeObjects.size
    · exact .inl ⟨rfl, edge_setEdge inside edge⟩
    · refine .inr ?_
      rw [Storage.edge, setEdge, Heap.write, Heap.read, List.set_eq_of_length_le (by simpa [Heap.size] using inside)]
      rfl
  · exact .inr (Heap.read_write_of_ne (Ne.symm same) _)

/-- What the loop over archived edges leaves as it is. -/
theorem archiveEdges_frame (archived : Bool) (ids : List String) (σ : Storage) :
    (σ.archiveEdges archived ids).1.nodes = σ.nodes ∧ (σ.archiveEdges archived ids).1.nodeObjects = σ.nodeObjects ∧
      (σ.archiveEdges archived ids).1.edges = σ.edges ∧
        (∀ ref, ∃ flag, (σ.archiveEdges archived ids).1.edge ref = { σ.edge ref with archived := flag }) ∧
          ∀ ref, (∀ id ∈ ids, σ.edges.get? id ≠ some ref) → (σ.archiveEdges archived ids).1.edge ref = σ.edge ref := by
  induction ids generalizing σ with
  | nil => exact ⟨rfl, rfl, rfl, fun ref => ⟨(σ.edge ref).archived, rfl⟩, fun _ _ => rfl⟩
  | cons id ids ih =>
    rw [archiveEdges]
    cases found : σ.edges.get? id with
    | none =>
      obtain ⟨sameNodes, objects, sameEdges, flags, others⟩ := ih σ
      exact ⟨sameNodes, objects, sameEdges, flags, fun ref apart => others ref fun id member => apart id (.tail _ member)⟩
    | some held =>
      dsimp only
      split
      · obtain ⟨sameNodes, objects, sameEdges, flags, others⟩ := ih σ
        exact ⟨sameNodes, objects, sameEdges, flags, fun ref apart => others ref fun id member => apart id (.tail _ member)⟩
      · obtain ⟨sameNodes, objects, sameEdges, flags, others⟩ := ih (σ.setEdge held { σ.edge held with archived })
        refine ⟨sameNodes, objects, sameEdges, fun ref => ?_, fun ref apart => ?_⟩
        · obtain ⟨flag, later⟩ := flags ref
          refine ⟨flag, later.trans ?_⟩
          rcases edge_setEdge_or held { σ.edge held with archived } σ ref with ⟨rfl, set⟩ | kept
          · rw [set]
          · rw [kept]
        · refine (others ref fun id member => apart id (.tail _ member)).trans ?_
          exact Heap.read_write_of_ne (fun same => apart _ (.head _) (by rw [← same]; exact found)) _

theorem setEdgesArchived_confined (ids : List String) (archived : Bool)
    (seen : ∀ id ∈ ids, ∀ edge, σ.link id = some edge → ¬ σ.Hidden visible edge) :
    Confined visible σ (σ.setEdgesArchived ids archived).1 := by
  obtain ⟨sameNodes, objects, sameEdges, flags, others⟩ := archiveEdges_frame archived ids σ
  have inside : Confined visible σ (σ.archiveEdges archived ids).1 := by
    refine .of_edge (stored_of_same sameNodes objects) sameEdges (fun ref => ?_) fun id ref found hidden =>
      others ref fun listed member held => ?_
    · obtain ⟨flag, same⟩ := flags ref
      rw [same]
      exact ⟨rfl, rfl⟩
    · exact seen listed member (σ.edge ref) (link_eq_some.mpr ⟨ref, held, rfl⟩) hidden
  rw [setEdgesArchived]
  dsimp only
  split
  · exact inside.save
  · exact inside

theorem updateEdge_confined (cfg : StorageConfig) (id : String) (updates : Dict Json)
    (seen : ∀ edge, σ.link id = some edge → ¬ σ.Hidden visible edge) :
    Confined visible σ (σ.updateEdge cfg id updates).1 := by
  rw [updateEdge]
  split
  · exact .refl visible σ
  · rename_i ref found
    dsimp only
    split
    · exact .refl visible σ
    · rename_i validated _
      split
      · exact .refl visible σ
      · have others : ∀ other, other ≠ ref →
            (σ.setEdge ref { σ.edge ref with
              type := validated.type, label := validated.label, metadata := validated.metadata }).edge other =
              σ.edge other := fun other apart => Heap.read_write_of_ne (Ne.symm apart) _
        have inside : Confined visible σ (σ.setEdge ref { σ.edge ref with
            type := validated.type, label := validated.label, metadata := validated.metadata }) := by
          refine .of_edge (stored_of_same rfl rfl) rfl (fun other => ?_) fun listed other held hidden => others other ?_
          · rcases edge_setEdge_or ref { σ.edge ref with
                type := validated.type, label := validated.label, metadata := validated.metadata } σ other with
              ⟨rfl, set⟩ | kept
            · rw [set]
              exact ⟨rfl, rfl⟩
            · rw [kept]
              exact ⟨rfl, rfl⟩
          · rintro rfl
            exact seen _ (link_eq_some.mpr ⟨other, found, rfl⟩) hidden
        exact inside.save

/-- Nodes that are seen may go, with the edges at them. -/
theorem Dropped.confined {ids edgeIds : List String} (dropped : Dropped ids edgeIds σ τ) (indexed : σ.Indexed cfg)
    (seen : ∀ id ∈ ids, ∀ node, σ.stored id = some node → visible node = true)
    (incident : ∀ id ∈ edgeIds, ∀ edge, σ.link id = some edge →
      edge.source ∈ ids ∨ edge.target ∈ ids ∨ ¬ σ.Hidden visible edge) : Confined visible σ τ := by
  have storedLater : ∀ id, τ.stored id = if id ∈ ids then none else σ.stored id := fun id => by
    have objects : τ.node = σ.node := funext fun ref => by rw [Storage.node, dropped.nodeObjects]; rfl
    rw [stored, dropped.nodes, objects]
    split <;> rfl
  have linkLater : ∀ id, τ.link id = if id ∈ edgeIds then none else σ.link id := fun id => by
    have objects : τ.edge = σ.edge := funext fun ref => by rw [Storage.edge, dropped.edgeObjects]; rfl
    rw [link, dropped.edges, objects]
    split <;> rfl
  have ended : ∀ id edge, σ.link id = some edge → ∀ gone, (gone = edge.source ∨ gone = edge.target) →
      ∃ node, σ.stored gone = some node := by
    intro id edge here gone atEnd
    obtain ⟨ref, found, rfl⟩ := link_eq_some.mp here
    obtain ⟨_, _, fromNode, toNode⟩ := indexed.edge_held id ref found
    have present : gone ∈ σ.nodes.keys := by
      rcases atEnd with rfl | rfl
      · exact fromNode
      · exact toNode
    obtain ⟨held, found⟩ := OrderedDict.mem_keys.mp present
    exact ⟨σ.node held, stored_eq_some.mpr ⟨held, found, rfl⟩⟩
  refine ⟨fun id node here unseen => ?_, fun id edge here hidden => ?_, fun id edge here _ => ?_⟩
  · rw [storedLater, if_neg fun member => ?_]
    · exact here
    · have shown := seen id member node here
      rw [unseen] at shown
      cases shown
  · by_cases member : id ∈ edgeIds
    · have gone : ∃ gone, (gone = edge.source ∨ gone = edge.target) ∧ gone ∈ ids := by
        rcases incident id member edge here with atSource | atTarget | shown
        · exact ⟨_, .inl rfl, atSource⟩
        · exact ⟨_, .inr rfl, atTarget⟩
        · exact absurd hidden shown
      obtain ⟨gone, atEnd, listed⟩ := gone
      obtain ⟨node, there⟩ := ended id edge here gone atEnd
      refine .inr ⟨by rw [linkLater, if_pos member], gone, node, atEnd, there, seen gone listed node there, ?_⟩
      rw [storedLater, if_pos listed]
    · exact .inl (by rw [linkLater, if_neg member]; exact here)
  · rw [linkLater] at here
    split at here
    · cases here
    · exact here

theorem mem_deleteEachEdge {ids : List String} {id : String} (deleted : id ∈ (σ.deleteEachEdge ids).2) : id ∈ ids := by
  induction ids generalizing σ with
  | nil => exact deleted
  | cons first ids ih =>
    rw [deleteEachEdge] at deleted
    split at deleted
    · exact .tail _ (ih deleted)
    · rcases List.mem_cons.mp deleted with rfl | later
      · exact .head _
      · exact .tail _ (ih later)

theorem deleteEachEdge_confined (indexed : σ.Indexed cfg) (ids : List String)
    (seen : ∀ id ∈ ids, ∀ edge, σ.link id = some edge → ¬ σ.Hidden visible edge) :
    Confined visible σ (σ.deleteEachEdge ids).1 :=
  (dropped_deleteEachEdge ids σ).confined indexed (fun _ member => absurd member List.not_mem_nil)
    fun id member edge here => .inr (.inr (seen id (mem_deleteEachEdge member) edge here))

theorem deleteEdge_confined (indexed : σ.Indexed cfg) (id : String)
    (seen : ∀ edge, σ.link id = some edge → ¬ σ.Hidden visible edge) : Confined visible σ (σ.deleteEdge id).1 := by
  rw [deleteEdge]
  split
  · exact .refl visible σ
  · rename_i ref found
    have inside := (dropped_dropEdge id ref σ).confined indexed (fun _ member => absurd member List.not_mem_nil)
      fun other member edge here => .inr (.inr (seen edge (List.mem_singleton.mp member ▸ here)))
    exact inside.save

/-- An edge that goes with a node was at the node. -/
theorem incident_deleteEach {ids : List String} {deleted : List (String × List String)} {σ : Storage}
    (looped : σ.deleteEach ids = (τ, .ok deleted)) {id : String} (gone : id ∈ deleted.flatMap Prod.snd) {edge : Edge}
    (here : σ.link id = some edge) : edge.source ∈ deleted.map Prod.fst ∨ edge.target ∈ deleted.map Prod.fst := by
  induction ids generalizing σ deleted with
  | nil =>
    cases looped
    cases gone
  | cons first ids ih =>
    rw [deleteEach] at looped
    split at looped
    · generalize step : σ.dropNode first = done at looped
      obtain ⟨υ, failed⟩ := done
      cases failed with
      | some error => cases looped
      | none =>
        dsimp only at looped
        generalize rest : υ.deleteEach ids = done at looped
        obtain ⟨ω, outcome⟩ := done
        cases outcome with
        | error error => cases looped
        | ok later =>
          cases looped
          have dropped := dropped_dropNode step
          by_cases member : id ∈ σ.edgesAt first
          · obtain ⟨ref, found, atNode⟩ := mem_edgesAt.mp member
            obtain ⟨held, found', rfl⟩ := link_eq_some.mp here
            obtain rfl : ref = held := Option.some.inj (found.symm.trans found')
            rcases atNode with same | same
            · exact .inl (same ▸ .head _)
            · exact .inr (same ▸ .head _)
          · have stays : υ.link id = some edge := by
              have objects : υ.edge = σ.edge := funext fun ref => by rw [Storage.edge, dropped.edgeObjects]; rfl
              rw [link, dropped.edges, if_neg member, objects]
              exact here
            have later' : id ∈ later.flatMap Prod.snd := by
              rw [List.flatMap_cons, List.mem_append] at gone
              exact gone.resolve_left member
            rcases ih rest later' stays with atSource | atTarget
            · exact .inl (.tail _ atSource)
            · exact .inr (.tail _ atTarget)
    · exact ih looped gone here

theorem deleteEach_confined (sound : σ.Sound cfg) (ids : List String)
    (seen : ∀ id ∈ ids, ∀ node, σ.stored id = some node → visible node = true) :
    Confined visible σ (σ.deleteEach ids).1 := by
  obtain ⟨υ, deleted, looped, _⟩ := sound.deleteEach ids
  rw [looped]
  refine (dropped_deleteEach looped).confined sound.toIndexed (fun id member => ?_) fun id member edge here => ?_
  · exact seen id ((mem_deleteEach looped).mp member).1
  · rcases incident_deleteEach looped member here with atSource | atTarget
    · exact .inl atSource
    · exact .inr (.inl atTarget)

theorem deleteNodes_confined (cfg' : StorageConfig) (sound : σ.Sound cfg) (ids : List String) (confirmed : Bool)
    (seen : ∀ id ∈ ids, ∀ node, σ.stored id = some node → visible node = true) :
    Confined visible σ (σ.deleteNodes cfg' ids confirmed).1 := by
  have inside := deleteEach_confined sound ids seen
  rw [deleteNodes]
  dsimp only
  split
  · exact .refl visible σ
  · split
    · exact .refl visible σ
    · generalize σ.deleteEach ids = done at inside
      obtain ⟨υ, outcome⟩ := done
      cases outcome with
      | error error => exact inside
      | ok deleted =>
        dsimp only
        have kept : Confined visible σ
            { υ with vectorStore := (υ.vectorStore.removeNodesEmbeddings (deleted.map Prod.fst)).1 } :=
          ⟨inside.nodes, inside.edges, inside.links⟩
        split
        · exact kept.save
        · exact kept

/-- What the loop over new edges has linked when it ends, at its end or before: the longest part of the
list whose edges are new and can be linked. -/
structure Linking (cfg : StorageConfig) (names : OrderedDict String String) (refs linked : List Ref) (σ τ : Storage) :
    Prop where
  nodes : τ.nodes = σ.nodes
  nodeObjects : τ.nodeObjects = σ.nodeObjects
  edges : τ.edges.entries = σ.edges.entries ++ linked.map fun ref => ((σ.edge ref).id, ref)
  others : ∀ ref, ref ∉ refs → τ.edge ref = σ.edge ref
  ends : ∀ ref ∈ linked, ∃ source target, σ.resolve names (σ.edge ref).source = some source ∧
    σ.resolve names (σ.edge ref).target = some target ∧ τ.edge ref = { σ.edge ref with source, target }
  begins : linked <+: refs
  new : New (linked.map fun ref => (σ.edge ref).id) σ.edges.keys
  linkable : ∀ ref ∈ linked, Linkable cfg names σ (σ.edge ref)
  longest : ∀ front, front <+: refs → New (front.map fun ref => (σ.edge ref).id) σ.edges.keys →
    (∀ ref ∈ front, Linkable cfg names σ (σ.edge ref)) → front <+: linked

/-- The loop stops at the first edge. -/
theorem Linking.stopped {names : OrderedDict String String} {ref : Ref} {refs : List Ref} (nodes : τ.nodes = σ.nodes)
    (nodeObjects : τ.nodeObjects = σ.nodeObjects) (edges : τ.edges = σ.edges)
    (others : ∀ other, other ≠ ref → τ.edge other = σ.edge other)
    (stuck : (σ.edge ref).id ∉ σ.edges.keys → ¬ Linkable cfg names σ (σ.edge ref)) :
    Linking cfg names (ref :: refs) [] σ τ := by
  refine ⟨nodes, nodeObjects, by rw [edges, List.map_nil, List.append_nil], fun other apart => others other fun same =>
    apart (same ▸ .head _), fun _ none => absurd none List.not_mem_nil, List.nil_prefix,
    ⟨List.nodup_nil, fun _ none => absurd none List.not_mem_nil⟩, fun _ none => absurd none List.not_mem_nil,
    fun front begins new linkable => ?_⟩
  cases front with
  | nil => exact List.nil_prefix
  | cons first front =>
    obtain ⟨rfl, _⟩ := List.cons_prefix_cons.mp begins
    exact absurd (linkable first (.head _)) (stuck (new.fresh _ (.head _)))

theorem linking {names : OrderedDict String String} {refs : List Ref} {σ : Storage}
    (inside : ∀ ref ∈ refs, ref < σ.edgeObjects.size) (distinct : refs.Nodup) :
    ∃ linked, Linking cfg names refs linked σ (σ.linkEach cfg names refs).1 := by
  induction refs generalizing σ with
  | nil =>
    exact ⟨[], rfl, rfl, (List.append_nil _).symm, fun _ _ => rfl, fun _ none => absurd none List.not_mem_nil,
      List.nil_prefix, ⟨List.nodup_nil, fun _ none => absurd none List.not_mem_nil⟩,
      fun _ none => absurd none List.not_mem_nil, fun front begins _ _ => begins⟩
  | cons ref refs ih =>
    have here := inside ref (.head _)
    obtain ⟨apart, distinct⟩ := List.nodup_cons.mp distinct
    rw [linkEach]
    dsimp only
    split
    · rename_i noSource
      refine ⟨[], .stopped rfl rfl rfl (fun _ _ => rfl) fun _ linkable => ?_⟩
      obtain ⟨source, _, found, _⟩ := linkable
      rw [noSource] at found
      cases found
    · rename_i source atSource
      split
      · rename_i noTarget
        refine ⟨[], .stopped rfl rfl rfl (fun _ _ => rfl) fun _ linkable => ?_⟩
        obtain ⟨_, target, _, found, _⟩ := linkable
        rw [noTarget] at found
        cases found
      · rename_i target atTarget
        have read := edge_setEdge here { σ.edge ref with source, target }
        have others : ∀ other, other ≠ ref →
            (σ.setEdge ref { σ.edge ref with source, target }).edge other = σ.edge other := fun other differ =>
          Heap.read_write_of_ne (Ne.symm differ) _
        split
        · rename_i known
          exact ⟨[], .stopped rfl rfl rfl others fun new => absurd known new⟩
        · rename_i new
          split
          · rename_i message refused
            refine ⟨[], .stopped rfl rfl rfl others fun _ linkable => ?_⟩
            obtain ⟨source', target', found, found', valid⟩ := linkable
            obtain rfl : source = source' := Option.some.inj (atSource.symm.trans found)
            obtain rfl : target = target' := Option.some.inj (atTarget.symm.trans found')
            rw [read] at refused
            have none : some message = none := refused.symm.trans valid
            cases none
          · rename_i valid
            rw [read] at valid
            have linkable : Linkable cfg names σ (σ.edge ref) := ⟨source, target, atSource, atTarget, valid⟩
            set υ := (σ.setEdge ref { σ.edge ref with source, target }).putEdge ref with named
            have size : υ.edgeObjects.size = σ.edgeObjects.size := by
              rw [named, putEdge, setEdge, Heap.size_write]
            have first : Linked [ref] σ υ := .first here new source target
            have same : SameNodes σ υ := sameNodes_putEdge ref _ σ
            have later : ∀ other ∈ refs, υ.edge other = σ.edge other := fun other member =>
              first.others other fun single => apart (List.mem_singleton.mp single ▸ member)
            have keys : ∀ id, id ∈ υ.edges.keys ↔ id = (σ.edge ref).id ∨ id ∈ σ.edges.keys := fun _ =>
              mem_keys_putEdge here _
            have news : ∀ front : List Ref, (∀ other ∈ front, other ∈ refs) →
                (New (front.map fun other => (υ.edge other).id) υ.edges.keys ↔
                  (σ.edge ref).id ∉ front.map (fun other => (σ.edge other).id) ∧
                    New (front.map fun other => (σ.edge other).id) σ.edges.keys) := fun front within => by
              rw [List.map_congr_left fun other member => congrArg Edge.id (later other (within other member))]
              exact new_of_set keys
            have linkables : ∀ other ∈ refs, (Linkable cfg names υ (υ.edge other) ↔ Linkable cfg names σ (σ.edge other)) :=
              fun other member => by rw [later other member, same.linkable]
            obtain ⟨linked, rest⟩ := ih (σ := υ) (fun other member => by rw [size]; exact inside other (.tail _ member))
              distinct
            have within : ∀ other ∈ linked, other ∈ refs := fun other member => rest.begins.subset member
            have idsLater : (linked.map fun other => ((υ.edge other).id, other)) =
                linked.map fun other => ((σ.edge other).id, other) :=
              List.map_congr_left fun other member => by rw [later other (within other member)]
            obtain ⟨notLater, newLater⟩ := (news linked within).mp rest.new
            refine ⟨ref :: linked, ?_, ?_, ?_, fun other outside => ?_, ?_, ?_, ?_, ?_, ?_⟩
            · exact rest.nodes.trans first.nodes
            · exact rest.nodeObjects.trans first.nodeObjects
            · rw [rest.edges, first.edges, idsLater, List.append_assoc]
              rfl
            · have differ : other ≠ ref := fun same => outside (same ▸ .head _)
              have rested := rest.others other fun member => outside (.tail _ member)
              exact rested.trans (first.others other fun single => differ (List.mem_singleton.mp single))
            · intro other member
              rcases List.mem_cons.mp member with rfl | member
              · refine ⟨source, target, atSource, atTarget, ?_⟩
                exact (rest.others other apart).trans read
              · obtain ⟨source', target', found, found', edge⟩ := rest.ends other member
                rw [later other (within other member)] at found found' edge
                rw [same.resolve] at found found'
                exact ⟨source', target', found, found', edge⟩
            · exact List.cons_prefix_cons.mpr ⟨rfl, rest.begins⟩
            · exact new_cons.mpr ⟨new, notLater, newLater⟩
            · intro other member
              rcases List.mem_cons.mp member with rfl | member
              · exact linkable
              · exact (linkables other (within other member)).mp (rest.linkable other member)
            · intro front begins newFront linkableFront
              cases front with
              | nil => exact List.nil_prefix
              | cons head front =>
                obtain ⟨rfl, tail⟩ := List.cons_prefix_cons.mp begins
                obtain ⟨_, headApart, newFront⟩ := new_cons.mp newFront
                have inRefs : ∀ other ∈ front, other ∈ refs := fun other member => tail.subset member
                refine List.cons_prefix_cons.mpr ⟨rfl, rest.longest front tail ((news front inRefs).mpr
                  ⟨headApart, newFront⟩) fun other member => ?_⟩
                exact (linkables other (inRefs other member)).mpr (linkableFront other (.tail _ member))

/-- An edge of the list comes to a node that is not seen, when it and the edges before it are new and
can be linked. An end of an edge may be the name of a node. -/
def Crosses (cfg : StorageConfig) (visible : Node → Bool) (nodes edges : List Ref) (σ : Storage) : Prop :=
  let put := σ.putNodes cfg nodes
  New (nodes.map fun ref => (σ.node ref).id) σ.nodes.keys ∧
    ∃ front ref, front ++ [ref] <+: edges ∧ New ((front ++ [ref]).map fun ref => (σ.edge ref).id) σ.edges.keys ∧
      (∀ other ∈ front ++ [ref], Linkable cfg put.nameToId put (σ.edge other)) ∧
        ∃ value id node, (value = (σ.edge ref).source ∨ value = (σ.edge ref).target) ∧
          put.resolve put.nameToId value = some id ∧ put.stored id = some node ∧ visible node = false

theorem get?_putNodes (cfg : StorageConfig) {nodes : List Ref} (new : New (nodes.map fun ref => (σ.node ref).id) σ.nodes.keys)
    {id : String} {ref : Ref} (found : σ.nodes.get? id = some ref) : (σ.putNodes cfg nodes).nodes.get? id = some ref := by
  rw [OrderedDict.get?_eq_some, entries_putNodes cfg new]
  exact List.mem_append_left _ (OrderedDict.get?_eq_some.mp found)

theorem node_putNodes (cfg : StorageConfig) (nodes : List Ref) (σ : Storage) (ref : Ref) :
    (σ.putNodes cfg nodes).node ref = σ.node ref := by
  rw [Storage.node, (objects_putNodes cfg nodes σ).1]
  rfl

/-- New nodes leave the nodes that are there as they are. -/
theorem stored_putNodes (cfg : StorageConfig) {nodes : List Ref}
    (new : New (nodes.map fun ref => (σ.node ref).id) σ.nodes.keys) {id : String} {node : Node}
    (here : σ.stored id = some node) : (σ.putNodes cfg nodes).stored id = some node := by
  obtain ⟨ref, found, rfl⟩ := stored_eq_some.mp here
  exact stored_eq_some.mpr ⟨ref, get?_putNodes cfg new found, node_putNodes cfg nodes σ ref⟩

theorem New.mono {ids ids' known : List String} (new : New ids known) (part : List.Sublist ids' ids) : New ids' known :=
  ⟨new.distinct.sublist part, fun id member => new.fresh id (part.subset member)⟩

theorem confined_save : Confined visible σ τ.save ↔ Confined visible σ τ :=
  ⟨fun inside => ⟨inside.nodes, inside.edges, inside.links⟩, .save⟩

theorem confined_addNodes_save {nodes edges : List Ref} {encoded : Option (List (List ℚ))}
    (new : New (nodes.map fun ref => (σ.node ref).id) σ.nodes.keys) :
    Confined visible σ (σ.addNodes cfg nodes edges encoded).1 ↔
      Confined visible σ ((σ.withNodes cfg nodes encoded).linkEach cfg (σ.putNodes cfg nodes).nameToId edges).1 := by
  rw [addNodes_of_new new]
  generalize (σ.withNodes cfg nodes encoded).linkEach cfg (σ.putNodes cfg nodes).nameToId edges = done
  obtain ⟨υ, outcome⟩ := done
  cases outcome with
  | some message => exact Iff.rfl
  | none => exact confined_save

section Added

variable {nodes edges : List Ref}

theorem Added.stored_of_mem (added : Added nodes edges σ τ) {ref : Ref} (member : ref ∈ nodes) :
    τ.stored (σ.node ref).id = some (τ.node ref) := by
  refine stored_eq_some.mpr ⟨ref, ?_, rfl⟩
  rw [OrderedDict.get?_eq_some, added.nodeEntries]
  exact List.mem_append_right _ (List.mem_map.mpr ⟨ref, member, rfl⟩)

theorem Added.link_of_mem (added : Added nodes edges σ τ) {ref : Ref} (member : ref ∈ edges) :
    τ.link (σ.edge ref).id = some (τ.edge ref) := by
  refine link_eq_some.mpr ⟨ref, ?_, rfl⟩
  rw [OrderedDict.get?_eq_some, added.edgeEntries]
  exact List.mem_append_right _ (List.mem_map.mpr ⟨ref, member, rfl⟩)

/-- What is not among the nodes that were added is as it was. -/
theorem Added.stored_of_notMem (added : Added nodes edges σ τ) (unused : ∀ id ref, σ.nodes.get? id = some ref → ref ∉ nodes)
    {id : String} (other : id ∉ nodes.map fun ref => (σ.node ref).id) : τ.stored id = σ.stored id := by
  rw [stored, stored]
  cases found : σ.nodes.get? id with
  | some ref =>
    have held : τ.nodes.get? id = some ref := by
      rw [OrderedDict.get?_eq_some, added.nodeEntries]
      exact List.mem_append_left _ (OrderedDict.get?_eq_some.mp found)
    rw [held, Option.map_some, Option.map_some, added.keptNode ref (unused id ref found)]
  | none =>
    have absent : τ.nodes.get? id = none := by
      rw [OrderedDict.get?_eq_none, OrderedDict.keys, added.nodeEntries, List.map_append, List.mem_append, not_or]
      refine ⟨OrderedDict.get?_eq_none.mp found, fun member => other ?_⟩
      rwa [List.map_map] at member
    rw [absent, Option.map_none, Option.map_none]

theorem Added.link_of_notMem (added : Added nodes edges σ τ) (unused : ∀ id ref, σ.edges.get? id = some ref → ref ∉ edges)
    {id : String} (other : id ∉ edges.map fun ref => (σ.edge ref).id) : τ.link id = σ.link id := by
  rw [link, link]
  cases found : σ.edges.get? id with
  | some ref =>
    have held : τ.edges.get? id = some ref := by
      rw [OrderedDict.get?_eq_some, added.edgeEntries]
      exact List.mem_append_left _ (OrderedDict.get?_eq_some.mp found)
    rw [held, Option.map_some, Option.map_some, added.keptEdge ref (unused id ref found)]
  | none =>
    have absent : τ.edges.get? id = none := by
      rw [OrderedDict.get?_eq_none, OrderedDict.keys, added.edgeEntries, List.map_append, List.mem_append, not_or]
      refine ⟨OrderedDict.get?_eq_none.mp found, fun member => other ?_⟩
      rwa [List.map_map] at member
    rw [absent, Option.map_none, Option.map_none]

end Added

/-- A deletion takes nodes away and leaves the others as they were. -/
theorem deleteNodes_stored (cfg' : StorageConfig) (valid : σ.Valid cfg') (ids : List String) :
    ∃ gone : List String, ∀ id, (σ.deleteNodes cfg' ids true).1.stored id = if id ∈ gone then none else σ.stored id := by
  by_cases short : ids.length ≤ 10
  · obtain ⟨deleted, dropped, _⟩ := deleteNodes_confirmed valid short
    refine ⟨deleted.map Prod.fst, fun id => ?_⟩
    rw [stored, dropped.nodes, stored]
    split
    · rfl
    · refine congrArg (Option.map · _) (funext fun ref => ?_)
      rw [Storage.node, Storage.node, dropped.nodeObjects]
  · refine ⟨[], fun id => ?_⟩
    rw [if_neg List.not_mem_nil, deleteNodes]
    dsimp only
    rw [if_pos (Nat.lt_of_not_le short)]

theorem linking_withNodes (cfg : StorageConfig) (nodes : List Ref) {edges : List Ref} (encoded : Option (List (List ℚ)))
    (inside : ∀ ref ∈ edges, ref < σ.edgeObjects.size) (distinct : edges.Nodup) :
    ∃ linked, Linking cfg (σ.putNodes cfg nodes).nameToId edges linked (σ.withNodes cfg nodes encoded)
      ((σ.withNodes cfg nodes encoded).linkEach cfg (σ.putNodes cfg nodes).nameToId edges).1 := by
  obtain ⟨_, sameObjects⟩ := edges_withNodes cfg nodes encoded σ
  exact linking (fun ref member => by rw [sameObjects]; exact inside ref member) distinct

/-- What is stored stays as it is when nodes are added, whether or not the call succeeds. -/
theorem addNodes_keeps {nodes edges : List Ref} (encoded : Option (List (List ℚ)))
    (inside : ∀ ref ∈ edges, ref < σ.edgeObjects.size) (distinct : edges.Nodup)
    (unused : ∀ id ref, σ.nodes.get? id = some ref → ref ∉ nodes) {id : String} {node : Node}
    (here : σ.stored id = some node) : (σ.addNodes cfg nodes edges encoded).1.stored id = some node := by
  by_cases new : New (nodes.map fun ref => (σ.node ref).id) σ.nodes.keys
  · obtain ⟨ref, found, rfl⟩ := stored_eq_some.mp here
    obtain ⟨_, done⟩ := linking_withNodes cfg nodes encoded inside distinct
    have linked : ((σ.withNodes cfg nodes encoded).linkEach cfg (σ.putNodes cfg nodes).nameToId edges).1.stored id =
        some (σ.node ref) := by
      rw [stored_of_same done.nodes done.nodeObjects]
      refine stored_eq_some.mpr ⟨ref, ?_, ?_⟩
      · rw [(sameNodes_withNodes nodes encoded σ).nodes]
        exact get?_putNodes cfg new found
      · exact ((node_updateNodesEmbeddings nodes encoded _ ref).2 (unused id ref found)).trans (node_putNodes cfg nodes σ ref)
    rw [addNodes_of_new new]
    generalize (σ.withNodes cfg nodes encoded).linkEach cfg (σ.putNodes cfg nodes).nameToId edges = ended at linked
    obtain ⟨υ, outcome⟩ := ended
    cases outcome <;> exact linked
  · obtain ⟨added, _, _, _, stopped, newAdded, _⟩ := addEach_of_not_new cfg new
    rw [addNodes, stopped]
    exact stored_putNodes cfg newAdded here

/-- An edge that is added leads from the node that its source names to the node that its target names. -/
theorem addNodes_ends {nodes edges : List Ref} {encoded : Option (List (List ℚ))}
    (inside : ∀ ref ∈ edges, ref < σ.edgeObjects.size) (distinct : edges.Nodup)
    (success : (σ.addNodes cfg nodes edges encoded).2.success = true) {ref : Ref} (member : ref ∈ edges) :
    ∃ source target, (σ.putNodes cfg nodes).resolve (σ.putNodes cfg nodes).nameToId (σ.edge ref).source = some source ∧
      (σ.putNodes cfg nodes).resolve (σ.putNodes cfg nodes).nameToId (σ.edge ref).target = some target ∧
        (σ.addNodes cfg nodes edges encoded).1.edge ref = { σ.edge ref with source, target } := by
  have addable : σ.Addable cfg nodes edges := (addNodes_success_iff cfg nodes encoded inside).mp success
  obtain ⟨sameEdges, sameObjects⟩ := edges_withNodes cfg nodes encoded σ
  have same : SameNodes (σ.putNodes cfg nodes) (σ.withNodes cfg nodes encoded) := sameNodes_withNodes nodes encoded σ
  have objects : ∀ ref, (σ.withNodes cfg nodes encoded).edge ref = σ.edge ref := fun ref => by
    rw [Storage.edge, sameObjects]
    rfl
  obtain ⟨linked, done⟩ := linking_withNodes cfg nodes encoded inside distinct
  have all : edges <+: linked := by
    refine done.longest edges (List.prefix_refl _) ?_ fun other listed => ?_
    · simp only [objects, sameEdges]
      exact addable.newEdges
    · rw [objects, same.linkable]
      exact addable.linkable other listed
  obtain ⟨source, target, atSource, atTarget, read⟩ := done.ends ref (all.subset member)
  rw [objects] at atSource atTarget read
  rw [same.resolve] at atSource atTarget
  refine ⟨source, target, atSource, atTarget, ?_⟩
  rw [addNodes_of_new addable.newNodes]
  generalize (σ.withNodes cfg nodes encoded).linkEach cfg (σ.putNodes cfg nodes).nameToId edges = ended at read
  obtain ⟨υ, outcome⟩ := ended
  cases outcome <;> exact read

/-- A call of `add_nodes` stays inside exactly if none of the edges that it adds comes to a node that is
not seen. -/
theorem addNodes_confined_iff {nodes edges : List Ref} (encoded : Option (List (List ℚ)))
    (inside : ∀ ref ∈ edges, ref < σ.edgeObjects.size) (distinct : edges.Nodup)
    (unusedNodes : ∀ id ref, σ.nodes.get? id = some ref → ref ∉ nodes)
    (unusedEdges : ∀ id ref, σ.edges.get? id = some ref → ref ∉ edges)
    (blind : ∀ node embedding, visible { node with embedding } = visible node) :
    Confined visible σ (σ.addNodes cfg nodes edges encoded).1 ↔ ¬ σ.Crosses cfg visible nodes edges := by
  by_cases new : New (nodes.map fun ref => (σ.node ref).id) σ.nodes.keys
  · rw [confined_addNodes_save new]
    obtain ⟨sameEdges, sameObjects⟩ := edges_withNodes cfg nodes encoded σ
    have same : SameNodes (σ.putNodes cfg nodes) (σ.withNodes cfg nodes encoded) := sameNodes_withNodes nodes encoded σ
    have objects : ∀ ref, (σ.withNodes cfg nodes encoded).edge ref = σ.edge ref := fun ref => by
      rw [Storage.edge, sameObjects]
      rfl
    obtain ⟨linked, done⟩ := linking_withNodes cfg nodes encoded inside distinct
    generalize ((σ.withNodes cfg nodes encoded).linkEach cfg (σ.putNodes cfg nodes).nameToId edges).1 = υ at done ⊢
    have embedded : ∀ ref, (∃ embedding, υ.node ref = { (σ.putNodes cfg nodes).node ref with embedding }) ∧
        (ref ∉ nodes → υ.node ref = (σ.putNodes cfg nodes).node ref) := fun ref => by
      rw [show υ.node ref = (σ.withNodes cfg nodes encoded).node ref from by
        rw [Storage.node, Storage.node, done.nodeObjects]]
      exact node_updateNodesEmbeddings nodes encoded (σ.putNodes cfg nodes) ref
    have nodesLater : υ.nodes = (σ.putNodes cfg nodes).nodes := done.nodes.trans same.nodes
    -- what is hidden does not depend on the embeddings
    have unseen : ∀ id, (∃ node, (σ.putNodes cfg nodes).stored id = some node ∧ visible node = false) ↔
        ∃ node, υ.stored id = some node ∧ visible node = false := fun id => by
      simp only [stored_eq_some, nodesLater]
      constructor
      · rintro ⟨_, ⟨ref, found, rfl⟩, hidden⟩
        obtain ⟨embedding, read⟩ := (embedded ref).1
        exact ⟨_, ⟨ref, found, rfl⟩, by rw [read, blind]; exact hidden⟩
      · rintro ⟨_, ⟨ref, found, rfl⟩, hidden⟩
        obtain ⟨embedding, read⟩ := (embedded ref).1
        rw [read, blind] at hidden
        exact ⟨_, ⟨ref, found, rfl⟩, hidden⟩
    have kept : ∀ id edge, σ.link id = some edge → υ.link id = some edge := fun id edge here => by
      obtain ⟨ref, found, rfl⟩ := link_eq_some.mp here
      refine link_eq_some.mpr ⟨ref, ?_, (done.others ref (unusedEdges id ref found)).trans (objects ref)⟩
      rw [OrderedDict.get?_eq_some, done.edges, sameEdges]
      exact List.mem_append_left _ (OrderedDict.get?_eq_some.mp found)
    have added : ∀ ref ∈ linked, υ.link (σ.edge ref).id = some (υ.edge ref) := fun ref member => by
      refine link_eq_some.mpr ⟨ref, ?_, rfl⟩
      rw [OrderedDict.get?_eq_some, done.edges]
      refine List.mem_append_right _ (List.mem_map.mpr ⟨ref, member, ?_⟩)
      rw [objects]
    have ends : ∀ ref ∈ linked, ∃ source target,
        (σ.putNodes cfg nodes).resolve (σ.putNodes cfg nodes).nameToId (σ.edge ref).source = some source ∧
          (σ.putNodes cfg nodes).resolve (σ.putNodes cfg nodes).nameToId (σ.edge ref).target = some target ∧
            υ.edge ref = { σ.edge ref with source, target } := fun ref member => by
      obtain ⟨source, target, atSource, atTarget, read⟩ := done.ends ref member
      rw [objects] at atSource atTarget read
      rw [same.resolve] at atSource atTarget
      exact ⟨source, target, atSource, atTarget, read⟩
    have newEdges : New (linked.map fun ref => (σ.edge ref).id) σ.edges.keys := by
      have known := done.new
      simp only [objects, sameEdges] at known
      exact known
    have linkable : ∀ ref ∈ linked,
        Linkable cfg (σ.putNodes cfg nodes).nameToId (σ.putNodes cfg nodes) (σ.edge ref) := fun ref member => by
      have here := done.linkable ref member
      rwa [objects, same.linkable] at here
    constructor
    · rintro confined ⟨_, front, ref, begins, newFront, linkableFront, value, id, node, atEnd, resolved, here, hidden⟩
      have reached : front ++ [ref] <+: linked := by
        refine done.longest _ begins ?_ fun other member => ?_
        · simp only [objects, sameEdges]
          exact newFront
        · rw [objects, same.linkable]
          exact linkableFront other member
      have member : ref ∈ linked := reached.subset (List.mem_append_right _ (.head _))
      obtain ⟨source, target, atSource, atTarget, read⟩ := ends ref member
      have atNode : id = (υ.edge ref).source ∨ id = (υ.edge ref).target := by
        rw [read]
        rcases atEnd with rfl | rfl
        · exact .inl (Option.some.inj (resolved.symm.trans atSource))
        · exact .inr (Option.some.inj (resolved.symm.trans atTarget))
      obtain ⟨node', there, hidden'⟩ := (unseen id).mp ⟨node, here, hidden⟩
      have before := confined.links _ _ (added ref member) ⟨id, node', atNode, there, hidden'⟩
      have known : (σ.edge ref).id ∉ σ.edges.keys :=
        newFront.fresh _ (List.mem_map_of_mem (List.mem_append_right _ (.head _)))
      rw [link_eq_none.mpr known] at before
      cases before
    · intro stays
      refine ⟨fun id node here _ => ?_, fun id edge here _ => .inl (kept id edge here), fun id edge here hidden => ?_⟩
      · obtain ⟨ref, found, rfl⟩ := stored_eq_some.mp here
        refine stored_eq_some.mpr ⟨ref, by rw [nodesLater]; exact get?_putNodes cfg new found, ?_⟩
        exact ((embedded ref).2 (unusedNodes id ref found)).trans (node_putNodes cfg nodes σ ref)
      · obtain ⟨ref, found, rfl⟩ := link_eq_some.mp here
        rw [OrderedDict.get?_eq_some, done.edges, sameEdges, List.mem_append] at found
        rcases found with before | later
        · have held := OrderedDict.get?_eq_some.mpr before
          have read := (done.others ref (unusedEdges id ref held)).trans (objects ref)
          exact link_eq_some.mpr ⟨ref, held, read.symm⟩
        · obtain ⟨other, member, entry⟩ := List.mem_map.mp later
          obtain rfl : other = ref := congrArg Prod.snd entry
          obtain ⟨source, target, atSource, atTarget, read⟩ := ends other member
          obtain ⟨gone, node, atEnd, there, unseenNode⟩ := hidden
          obtain ⟨node', there', unseenNode'⟩ := (unseen gone).mpr ⟨node, there, unseenNode⟩
          obtain ⟨front, back, split⟩ := List.append_of_mem member
          have part : front ++ [other] <+: linked := ⟨back, by rw [split, List.append_assoc]; rfl⟩
          refine absurd ⟨new, front, other, part.trans done.begins, ?_, fun listed here => linkable listed (part.subset here),
            ?_⟩ stays
          · exact newEdges.mono (part.sublist.map _)
          · rw [read] at atEnd
            rcases atEnd with rfl | rfl
            · exact ⟨_, _, node', .inl rfl, atSource, there', unseenNode'⟩
            · exact ⟨_, _, node', .inr rfl, atTarget, there', unseenNode'⟩
  · obtain ⟨added, ref, rest, _, stopped, newAdded, _⟩ := addEach_of_not_new cfg new
    refine ⟨fun _ crosses => new crosses.1, fun _ => ?_⟩
    rw [addNodes, stopped]
    obtain ⟨_, objects, edges⟩ := objects_putNodes cfg added σ
    exact .of_nodes (fun id node here _ => stored_putNodes cfg newAdded here) (link_of_same edges objects)

theorem setEdge_self (ref : Ref) (σ : Storage) : σ.setEdge ref (σ.edge ref) = σ := by
  have same : σ.edgeObjects.write ref (σ.edge ref) = σ.edgeObjects := by
    rw [Heap.write, Storage.edge, Heap.read]
    by_cases inside : (ref : ℕ) < σ.edgeObjects.objects.length
    · simp only [List.getD_eq_getElem?_getD, List.getElem?_eq_getElem inside, Option.getD_some, List.set_getElem_self]
    · rw [List.set_eq_of_length_le (Nat.not_lt.mp inside)]
  rw [setEdge, same]

/-- The ends of a new edge that are nodes stay as they are. -/
theorem addEdge_confined {ref : Ref} (atSource : ∃ node, σ.stored (σ.edge ref).source = some node ∧ visible node = true)
    (atTarget : ∃ node, σ.stored (σ.edge ref).target = some node ∧ visible node = true) :
    Confined visible σ (σ.addEdge cfg ref).1 := by
  obtain ⟨source, storedSource, seenSource⟩ := atSource
  obtain ⟨target, storedTarget, seenTarget⟩ := atTarget
  have resolved : ∀ {id node}, σ.stored id = some node → σ.resolve σ.nameToId id = some id := fun here => by
    obtain ⟨held, found, _⟩ := stored_eq_some.mp here
    rw [resolve, if_pos (OrderedDict.mem_keys.mpr ⟨held, found⟩)]
  have self : σ.setEdge ref { σ.edge ref with source := (σ.edge ref).source } = σ := setEdge_self ref σ
  have self' : σ.setEdge ref { σ.edge ref with target := (σ.edge ref).target } = σ := setEdge_self ref σ
  rw [addEdge, resolved storedSource]
  dsimp only
  rw [self, resolved storedTarget]
  dsimp only
  rw [self']
  split
  · exact .refl visible σ
  · rename_i new
    split
    · exact .refl visible σ
    · refine Confined.save (.of_links (stored_of_same rfl rfl) fun id edge hidden => ?_)
      have later : (σ.putEdge ref).link id = if id = (σ.edge ref).id then some (σ.edge ref) else σ.link id := by
        rw [link, putEdge]
        dsimp only
        rw [OrderedDict.get?_set]
        split <;> rfl
      rw [later]
      split
      · rename_i same
        rw [same, link_eq_none.mpr new]
        constructor
        · intro here
          obtain rfl := Option.some.inj here
          obtain ⟨gone, node, atEnd, there, unseen⟩ := hidden
          rcases atEnd with rfl | rfl
          · obtain rfl : source = node := Option.some.inj (storedSource.symm.trans there)
            rw [seenSource] at unseen
            cases unseen
          · obtain rfl : target = node := Option.some.inj (storedTarget.symm.trans there)
            rw [seenTarget] at unseen
            cases unseen
        · intro here
          cases here
      · exact Iff.rfl

/-- A stored node was stored before, or is one of the nodes that the call was given. -/
theorem addNodes_origin {nodes edges : List Ref} (encoded : Option (List (List ℚ)))
    (inside : ∀ ref ∈ edges, ref < σ.edgeObjects.size) (distinct : edges.Nodup)
    (unused : ∀ id ref, σ.nodes.get? id = some ref → ref ∉ nodes) {id : String} {node : Node}
    (here : (σ.addNodes cfg nodes edges encoded).1.stored id = some node) :
    σ.stored id = some node ∨ ∃ ref ∈ nodes, ∃ embedding, node = { σ.node ref with embedding } := by
  have known : ∀ {added : List Ref}, New (added.map fun ref => (σ.node ref).id) σ.nodes.keys → ∀ {ref : Ref},
      (σ.putNodes cfg added).nodes.get? id = some ref → σ.nodes.get? id = some ref ∨ ref ∈ added := fun {added} new {ref} found => by
    rw [OrderedDict.get?_eq_some, entries_putNodes cfg new, List.mem_append] at found
    rcases found with before | later
    · exact .inl (OrderedDict.get?_eq_some.mpr before)
    · obtain ⟨other, member, same⟩ := List.mem_map.mp later
      cases same
      exact .inr member
  by_cases new : New (nodes.map fun ref => (σ.node ref).id) σ.nodes.keys
  · obtain ⟨_, done⟩ := linking_withNodes cfg nodes encoded inside distinct
    have linked : ((σ.withNodes cfg nodes encoded).linkEach cfg (σ.putNodes cfg nodes).nameToId edges).1.stored id =
        some node := by
      rw [addNodes_of_new new] at here
      generalize (σ.withNodes cfg nodes encoded).linkEach cfg (σ.putNodes cfg nodes).nameToId edges = ended at here
      obtain ⟨υ, outcome⟩ := ended
      cases outcome <;> exact here
    rw [stored_of_same done.nodes done.nodeObjects] at linked
    obtain ⟨ref, found, rfl⟩ := stored_eq_some.mp linked
    rw [(sameNodes_withNodes nodes encoded σ).nodes] at found
    obtain ⟨⟨embedding, read⟩, kept⟩ := node_updateNodesEmbeddings nodes encoded (σ.putNodes cfg nodes) ref
    have read' : (σ.withNodes cfg nodes encoded).node ref = { σ.node ref with embedding } := by
      rw [← node_putNodes cfg nodes σ ref]
      exact read
    rcases known new found with before | member
    · have same : (σ.withNodes cfg nodes encoded).node ref = σ.node ref :=
        (kept (unused id ref before)).trans (node_putNodes cfg nodes σ ref)
      exact .inl (stored_eq_some.mpr ⟨ref, before, same.symm⟩)
    · exact .inr ⟨ref, member, embedding, read'⟩
  · obtain ⟨added, first, rest, split, stopped, newAdded, _⟩ := addEach_of_not_new cfg new
    rw [addNodes, stopped] at here
    obtain ⟨ref, found, rfl⟩ := stored_eq_some.mp here
    rw [node_putNodes]
    rcases known newAdded found with before | member
    · exact .inl (stored_eq_some.mpr ⟨ref, before, rfl⟩)
    · exact .inr ⟨ref, by rw [split]; exact List.mem_append_left _ member, (σ.node ref).embedding, rfl⟩

/-- An update changes one stored node, to what was validated for it. -/
theorem updateNode_origin (valid : σ.Valid cfg) (id : String) (request : NodeUpdate) {other : String} {node : Node}
    (here : (σ.updateNode cfg id request).1.stored other = some node) :
    σ.stored other = some node ∨ ∃ old validated embedding, σ.stored other = some old ∧ other = id ∧
      request.validated cfg old = .ok validated ∧ node = { applyUpdate request.now old validated with embedding } := by
  rw [updateNode] at here
  split at here
  · exact .inl here
  · rename_i ref found
    dsimp only at here
    split at here
    · exact .inl here
    · rename_i validated accepted
      have inside := (valid.node_held id ref found).1
      have written : (σ.setNode ref (applyUpdate request.now (σ.node ref) validated)).node ref =
          applyUpdate request.now (σ.node ref) validated := Heap.read_write_self inside _
      -- whatever else is done, the objects are read as after the assignment
      have told : ∀ τ : Storage, τ.nodes = σ.nodes → (∃ embedding, τ.node ref =
            { applyUpdate request.now (σ.node ref) validated with embedding }) →
          (∀ apart, apart ≠ ref → τ.node apart = σ.node apart) → τ.stored other = some node →
            σ.stored other = some node ∨ ∃ old validated embedding, σ.stored other = some old ∧ other = id ∧
              request.validated cfg old = .ok validated ∧ node = { applyUpdate request.now old validated with embedding } := by
        rintro τ nodes ⟨embedding, changed⟩ others there
        obtain ⟨target, atTarget, rfl⟩ := stored_eq_some.mp there
        rw [nodes] at atTarget
        by_cases same : target = ref
        · subst same
          have named := (valid.node_held _ _ atTarget).2.symm.trans (valid.node_held _ _ found).2
          exact .inr ⟨_, validated, embedding, stored_eq_some.mpr ⟨target, atTarget, rfl⟩, named, accepted, changed⟩
        · exact .inl (stored_eq_some.mpr ⟨target, atTarget, (others target same).symm⟩)
      have others : ∀ apart, apart ≠ ref →
          (σ.setNode ref (applyUpdate request.now (σ.node ref) validated)).node apart = σ.node apart := fun apart differ =>
        Heap.read_write_of_ne (Ne.symm differ) _
      split at here
      · exact told (σ.setNode ref (applyUpdate request.now (σ.node ref) validated)) rfl ⟨_, written⟩ others here
      · rename_i graph _
        dsimp only at here
        set ρ : Storage := { σ.setNode ref (applyUpdate request.now (σ.node ref) validated) with
          graph
          searchableText := σ.searchableText.set (σ.node ref).id (buildSearchableText cfg
            ((σ.setNode ref (applyUpdate request.now (σ.node ref) validated)).node ref)) } with named
        have read : ∀ apart, ρ.node apart = (σ.setNode ref (applyUpdate request.now (σ.node ref) validated)).node apart :=
          fun _ => rfl
        split at here
        · have embedded := node_updateNodesEmbeddings [ref] (request.encoded.map fun vector => [vector]) ρ
          refine told ((ρ.updateNodesEmbeddings [ref] (request.encoded.map fun vector => [vector])).save) ?_ ?_
            (fun apart differ => ?_) here
          · exact (SameNodes.updateNodesEmbeddings [ref] _ ρ).nodes
          · obtain ⟨embedding, changed⟩ := (embedded ref).1
            rw [read, written] at changed
            exact ⟨embedding, changed⟩
          · exact (((embedded apart).2 fun member => differ (List.mem_singleton.mp member)).trans (read apart)).trans
              (others apart differ)
        · exact told ρ.save rfl ⟨_, written⟩ others here

theorem fieldOr_eq {α : Type} {data : Dict Json} {key : String} {default a : α} {read : Json → Option α}
    (given : fieldOr data key default read = some a) :
    (data[key]? = none ∧ a = default) ∨ ∃ value, data[key]? = some value ∧ read value = some a := by
  rw [fieldOr] at given
  split at given
  · rename_i absent
    exact .inl ⟨absent, (Option.some.inj given).symm⟩
  · rename_i value present
    exact .inr ⟨value, present, given⟩

/-- A node that is read has the metadata that it is read from. -/
theorem metadata_fromDict {r : Readers} {fresh : Fresh} {data : Dict Json} {node : Node}
    (read : Node.fromDict r fresh data = some node) : fieldOr data "metadata" {} readObject = some node.metadata := by
  rw [Node.fromDict] at read
  obtain ⟨_, _, read⟩ := Option.bind_eq_some_iff.mp read
  obtain ⟨_, _, read⟩ := Option.bind_eq_some_iff.mp read
  obtain ⟨_, _, read⟩ := Option.bind_eq_some_iff.mp read
  obtain ⟨_, _, read⟩ := Option.bind_eq_some_iff.mp read
  obtain ⟨_, _, read⟩ := Option.bind_eq_some_iff.mp read
  obtain ⟨_, _, read⟩ := Option.bind_eq_some_iff.mp read
  obtain ⟨_, _, read⟩ := Option.bind_eq_some_iff.mp read
  obtain ⟨_, _, read⟩ := Option.bind_eq_some_iff.mp read
  obtain ⟨_, _, read⟩ := Option.bind_eq_some_iff.mp read
  obtain ⟨_, _, read⟩ := Option.bind_eq_some_iff.mp read
  obtain ⟨_, _, read⟩ := Option.bind_eq_some_iff.mp read
  obtain ⟨metadata, given, read⟩ := Option.bind_eq_some_iff.mp read
  obtain ⟨_, _, read⟩ := Option.bind_eq_some_iff.mp read
  split at read
  · cases read
    exact given
  · cases read

end Storage

end MetadataGraph.Graph
