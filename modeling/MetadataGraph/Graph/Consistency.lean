import MetadataGraph.Lib.Runs
import MetadataGraph.Graph.Storage

namespace MetadataGraph.Graph

open ObjectHeap Runs

/-- The maps, the graph and the cache agree: the graph has the nodes of the map with the same
objects, and the edges of the map once each, between the same nodes and with the same objects. -/
structure Storage.Indexed (cfg : StorageConfig) (σ : Storage) : Prop where
  nodes_match : ∀ id, σ.graph.node? id = (σ.nodes.get? id).map some
  node_held : ∀ id ref, σ.nodes.get? id = some ref → ref < σ.nodeObjects.size ∧ (σ.node ref).id = id
  arcs_match : ∀ source target id ref, σ.graph.arc? source target id = some ref ↔
    σ.edges.get? id = some ref ∧ (σ.edge ref).source = source ∧ (σ.edge ref).target = target
  edge_held : ∀ id ref, σ.edges.get? id = some ref → ref < σ.edgeObjects.size ∧ (σ.edge ref).id = id ∧
    (σ.edge ref).source ∈ σ.nodes.keys ∧ (σ.edge ref).target ∈ σ.nodes.keys
  texts_match : ∀ id, σ.searchableText.get? id = (σ.nodes.get? id).map fun ref => buildSearchableText cfg (σ.node ref)

/-- An entry of a file that `load` reads as a node with this id. -/
def ReadsNode (cfg : StorageConfig) (entry : Dict Json) (id : String) : Prop :=
  ∀ fresh, ∃ node, Node.fromDict cfg.readers fresh entry = some node ∧ node.id = id

/-- An entry of a file that `load` reads as an edge with this id between these nodes. -/
def ReadsEdge (cfg : StorageConfig) (entry : Dict Json) (edge : String × String × String) : Prop :=
  ∀ fresh, ∃ read, Edge.fromDict cfg.readers fresh entry = some read ∧ (read.id, read.source, read.target) = edge

/-- A valid graph file: every entry is readable, the edges have ids of their own and run between
nodes of the file. -/
def GraphData.Valid (cfg : StorageConfig) (data : GraphData) : Prop :=
  ∃ nodes edges, List.Forall₂ (ReadsNode cfg) data.nodes nodes ∧ List.Forall₂ (ReadsEdge cfg) data.edges edges ∧
    (edges.map Prod.fst).Nodup ∧ ∀ edge ∈ edges, edge.2.1 ∈ nodes ∧ edge.2.2 ∈ nodes

/-- The indexes agree, and every file that was or will be written is valid. -/
structure Storage.Sound (cfg : StorageConfig) (σ : Storage) : Prop extends σ.Indexed cfg where
  documents : ∀ data, σ.saved = some data ∨ data ∈ σ.pending → data.Valid cfg

/-- The representation invariant of the storage: besides, the vector store knows only nodes of the
graph. -/
structure Storage.Consistent (cfg : StorageConfig) (σ : Storage) : Prop extends σ.Indexed cfg where
  vectors : σ.vectorStore.Within (· ∈ σ.nodes.keys)

namespace Storage

variable {cfg : StorageConfig} {σ τ : Storage}

/-- The indexes are as they were, and the objects in them have kept what the indexes say of them. -/
structure Kept (cfg : StorageConfig) (σ τ : Storage) : Prop where
  nodes : τ.nodes = σ.nodes
  edges : τ.edges = σ.edges
  graph : τ.graph = σ.graph
  texts : τ.searchableText = σ.searchableText
  vectorStore : τ.vectorStore = σ.vectorStore
  saved : τ.saved = σ.saved
  pending : τ.pending = σ.pending
  node : ∀ ref : Nat, ref < σ.nodeObjects.size → ref < τ.nodeObjects.size ∧ (τ.node ref).id = (σ.node ref).id ∧
    buildSearchableText cfg (τ.node ref) = buildSearchableText cfg (σ.node ref)
  edge : ∀ id (ref : Nat), σ.edges.get? id = some ref → ref < σ.edgeObjects.size →
    ref < τ.edgeObjects.size ∧ (τ.edge ref).id = (σ.edge ref).id ∧
      (τ.edge ref).source = (σ.edge ref).source ∧ (τ.edge ref).target = (σ.edge ref).target

theorem Kept.refl (cfg : StorageConfig) (σ : Storage) : Kept cfg σ σ :=
  ⟨rfl, rfl, rfl, rfl, rfl, rfl, rfl, fun _ inside => ⟨inside, rfl, rfl⟩, fun _ _ _ inside => ⟨inside, rfl, rfl, rfl⟩⟩

theorem Kept.trans {υ : Storage} (first : Kept cfg σ τ) (second : Kept cfg τ υ) : Kept cfg σ υ := by
  refine ⟨second.nodes.trans first.nodes, second.edges.trans first.edges, second.graph.trans first.graph,
    second.texts.trans first.texts, second.vectorStore.trans first.vectorStore, second.saved.trans first.saved,
    second.pending.trans first.pending, fun ref inside => ?_, fun id ref found inside => ?_⟩
  · obtain ⟨inside, sameId, sameText⟩ := first.node ref inside
    obtain ⟨inside, sameId', sameText'⟩ := second.node ref inside
    exact ⟨inside, sameId'.trans sameId, sameText'.trans sameText⟩
  · obtain ⟨inside, sameId, sameSource, sameTarget⟩ := first.edge id ref found inside
    rw [← first.edges] at found
    obtain ⟨inside, sameId', sameSource', sameTarget'⟩ := second.edge id ref found inside
    exact ⟨inside, sameId'.trans sameId, sameSource'.trans sameSource, sameTarget'.trans sameTarget⟩

theorem Indexed.kept (indexed : σ.Indexed cfg) (kept : Kept cfg σ τ) : τ.Indexed cfg := by
  constructor
  · rw [kept.graph, kept.nodes]
    exact indexed.nodes_match
  · intro id ref found
    rw [kept.nodes] at found
    obtain ⟨inside, named⟩ := indexed.node_held id ref found
    obtain ⟨inside, sameId, _⟩ := kept.node ref inside
    exact ⟨inside, sameId.trans named⟩
  · intro source target id ref
    rw [kept.graph, kept.edges, indexed.arcs_match]
    refine and_congr_right fun found => ?_
    obtain ⟨_, _, sameSource, sameTarget⟩ := kept.edge id ref found (indexed.edge_held id ref found).1
    rw [sameSource, sameTarget]
  · intro id ref found
    rw [kept.edges] at found
    obtain ⟨inside, named, ends⟩ := indexed.edge_held id ref found
    obtain ⟨inside, sameId, sameSource, sameTarget⟩ := kept.edge id ref found inside
    rw [sameId, sameSource, sameTarget, kept.nodes]
    exact ⟨inside, named, ends⟩
  · intro id
    rw [kept.texts, kept.nodes, indexed.texts_match]
    cases found : σ.nodes.get? id with
    | none => simp only [Option.map_none]
    | some ref => rw [Option.map_some, Option.map_some, (kept.node ref (indexed.node_held id ref found).1).2.2]

theorem Sound.kept (sound : σ.Sound cfg) (kept : Kept cfg σ τ) : τ.Sound cfg :=
  ⟨sound.toIndexed.kept kept, by rw [kept.saved, kept.pending]; exact sound.documents⟩

theorem Kept.newNode (cfg : StorageConfig) (node : Node) (σ : Storage) : Kept cfg σ (σ.newNode node) := by
  refine { Kept.refl cfg σ with node := fun ref inside => ?_ }
  have same : (σ.newNode node).node ref = σ.node ref := Heap.read_allocAll_of_lt inside [node]
  rw [same]
  refine ⟨?_, rfl, rfl⟩
  rw [Storage.newNode, Heap.size_allocAll]
  omega

theorem Kept.newEdge (cfg : StorageConfig) (edge : Edge) (σ : Storage) : Kept cfg σ (σ.newEdge edge) := by
  refine { Kept.refl cfg σ with edge := fun id ref found inside => ?_ }
  have same : (σ.newEdge edge).edge ref = σ.edge ref := Heap.read_allocAll_of_lt inside [edge]
  rw [same]
  refine ⟨?_, rfl, rfl, rfl⟩
  rw [Storage.newEdge, Heap.size_allocAll]
  omega

/-- A node object may change in what neither its id nor its text comes from. -/
theorem Kept.setNode {ref : Ref} {node : Node} (sameId : node.id = (σ.node ref).id)
    (sameText : buildSearchableText cfg node = buildSearchableText cfg (σ.node ref)) :
    Kept cfg σ (σ.setNode ref node) := by
  refine { Kept.refl cfg σ with node := fun other inside => ?_ }
  refine ⟨by rw [Storage.setNode, Heap.size_write]; exact inside, ?_⟩
  by_cases here : ref = other
  · subst here
    have written : (σ.setNode ref node).node ref = node := Heap.read_write_self inside node
    rw [written]
    exact ⟨sameId, sameText⟩
  · have untouched : (σ.setNode ref node).node other = σ.node other := Heap.read_write_of_ne here node
    rw [untouched]
    exact ⟨rfl, rfl⟩

/-- An edge object may change if it is in no index, or in what neither its id nor its ends are. -/
theorem Kept.setEdge {ref : Ref} {edge : Edge}
    (same : ∀ id, σ.edges.get? id = some ref → edge.id = (σ.edge ref).id ∧
      edge.source = (σ.edge ref).source ∧ edge.target = (σ.edge ref).target) :
    Kept cfg σ (σ.setEdge ref edge) := by
  refine { Kept.refl cfg σ with edge := fun id other found inside => ?_ }
  refine ⟨by rw [Storage.setEdge, Heap.size_write]; exact inside, ?_⟩
  by_cases here : ref = other
  · subst here
    have written : (σ.setEdge ref edge).edge ref = edge := Heap.read_write_self inside edge
    rw [written]
    exact same id found
  · have untouched : (σ.setEdge ref edge).edge other = σ.edge other := Heap.read_write_of_ne here edge
    rw [untouched]
    exact ⟨rfl, rfl, rfl⟩

/-- Graphs with the same nodes and arcs are the same to the invariant. -/
theorem Indexed.of_graph (indexed : σ.Indexed cfg) {graph : MultiDigraph String String Ref Ref}
    (nodes : ∀ id, graph.node? id = σ.graph.node? id)
    (arcs : ∀ source target id, graph.arc? source target id = σ.graph.arc? source target id) :
    ({ σ with graph } : Storage).Indexed cfg where
  nodes_match id := (nodes id).trans (indexed.nodes_match id)
  node_held := indexed.node_held
  arcs_match source target id ref := by
    rw [show ({ σ with graph } : Storage).graph.arc? source target id = _ from arcs source target id]
    exact indexed.arcs_match source target id ref
  edge_held := indexed.edge_held
  texts_match := indexed.texts_match

theorem mem_nodes {id : String} : id ∈ σ.nodes.keys ↔ ∃ ref, σ.nodes.get? id = some ref := OrderedDict.mem_keys

/-- A node of the map is a node of the graph. -/
theorem Indexed.node_present (indexed : σ.Indexed cfg) {id : String} (present : id ∈ σ.nodes.keys) :
    ∃ ref, σ.nodes.get? id = some ref ∧ σ.graph.node? id = some (some ref) := by
  obtain ⟨ref, found⟩ := mem_nodes.mp present
  exact ⟨ref, found, by rw [indexed.nodes_match, found, Option.map_some]⟩

theorem Indexed.putNode (indexed : σ.Indexed cfg) {ref : Ref} (inside : ref < σ.nodeObjects.size) :
    (σ.putNode cfg ref).Indexed cfg := by
  constructor
  · intro id
    rw [Storage.putNode]
    dsimp only
    rw [MultiDigraph.node?_addNode, OrderedDict.get?_set, indexed.nodes_match]
    split <;> rfl
  · intro id other found
    rw [Storage.putNode] at found
    dsimp only at found
    rw [OrderedDict.get?_set] at found
    split at found
    · rename_i same
      cases found
      exact ⟨inside, same.symm⟩
    · exact indexed.node_held id other found
  · exact indexed.arcs_match
  · intro id other found
    obtain ⟨held, named, fromNode, toNode⟩ := indexed.edge_held id other found
    exact ⟨held, named, OrderedDict.mem_keys_set.mpr (.inr fromNode), OrderedDict.mem_keys_set.mpr (.inr toNode)⟩
  · intro id
    rw [Storage.putNode]
    dsimp only
    rw [OrderedDict.get?_set, OrderedDict.get?_set, indexed.texts_match]
    split <;> rfl

/-- A new edge between nodes of the graph. -/
theorem Indexed.putEdge (indexed : σ.Indexed cfg) {ref : Ref} (inside : ref < σ.edgeObjects.size)
    (new : (σ.edge ref).id ∉ σ.edges.keys) (fromNode : (σ.edge ref).source ∈ σ.nodes.keys)
    (toNode : (σ.edge ref).target ∈ σ.nodes.keys) : (σ.putEdge ref).Indexed cfg := by
  obtain ⟨_, _, atSource⟩ := indexed.node_present fromNode
  obtain ⟨_, _, atTarget⟩ := indexed.node_present toNode
  obtain ⟨sameNodes, arcs⟩ := MultiDigraph.addArc_of_nodes (σ.edge ref).id ref atSource atTarget
  have absent := OrderedDict.get?_eq_none.mpr new
  constructor
  · intro id
    exact (sameNodes id).trans (indexed.nodes_match id)
  · exact indexed.node_held
  · intro source target id other
    rw [Storage.putEdge]
    dsimp only
    rw [arcs, OrderedDict.get?_set]
    by_cases here : id = (σ.edge ref).id
    · rw [if_pos here]
      constructor
      · intro found
        split at found
        · rename_i same
          cases found
          exact ⟨rfl, same.1.symm, same.2.1.symm⟩
        · have before := ((indexed.arcs_match source target id other).mp found).1
          rw [here, absent] at before
          cases before
      · rintro ⟨same, rfl, rfl⟩
        cases same
        rw [if_pos ⟨rfl, rfl, here⟩]
    · rw [if_neg here, if_neg fun same => here same.2.2]
      exact indexed.arcs_match source target id other
  · intro id other found
    rw [Storage.putEdge] at found
    dsimp only at found
    rw [OrderedDict.get?_set] at found
    split at found
    · rename_i same
      cases found
      exact ⟨inside, same.symm, fromNode, toNode⟩
    · exact indexed.edge_held id other found
  · exact indexed.texts_match

/-- An edge of the map can be removed from the graph, and both agree afterwards. -/
theorem Indexed.removeEdge (indexed : σ.Indexed cfg) {id : String} {ref : Ref} (found : σ.edges.get? id = some ref) :
    ∃ graph, σ.graph.removeArc (σ.edge ref).source (σ.edge ref).target id = some graph ∧
      ({ σ with graph, edges := σ.edges.erase id } : Storage).Indexed cfg := by
  have present := (indexed.arcs_match _ _ id ref).mpr ⟨found, rfl, rfl⟩
  obtain ⟨graph, removed, sameNodes, arcs⟩ := MultiDigraph.removeArc_of_arc present
  refine ⟨graph, removed, fun other => (sameNodes other).trans (indexed.nodes_match other), indexed.node_held, ?_, ?_,
    indexed.texts_match⟩
  · intro source target other held
    dsimp only
    rw [arcs, OrderedDict.get?_erase]
    by_cases here : other = id
    · subst here
      rw [if_pos rfl]
      constructor
      · intro kept
        split at kept
        · cases kept
        · rename_i apart
          obtain ⟨found', fromNode, toNode⟩ := (indexed.arcs_match source target other held).mp kept
          rw [found, Option.some.injEq] at found'
          subst found'
          exact absurd ⟨fromNode.symm, toNode.symm, rfl⟩ apart
      · rintro ⟨gone, _⟩
        cases gone
    · rw [if_neg here, if_neg fun same => here same.2.2]
      exact indexed.arcs_match source target other held
  · intro other held kept
    dsimp only at kept
    rw [OrderedDict.get?_erase] at kept
    split at kept
    · cases kept
    · exact indexed.edge_held other held kept

/-- A node without edges can be removed. -/
theorem Indexed.removeNode (indexed : σ.Indexed cfg) {id : String} (present : id ∈ σ.nodes.keys)
    (apart : ∀ other ref, σ.edges.get? other = some ref → (σ.edge ref).source ≠ id ∧ (σ.edge ref).target ≠ id) :
    ∃ graph, σ.graph.removeNode id = some graph ∧
      ({ σ with graph, nodes := σ.nodes.erase id, searchableText := σ.searchableText.erase id } : Storage).Indexed
        cfg := by
  obtain ⟨_, _, atNode⟩ := indexed.node_present present
  obtain ⟨graph, removed, nodes, arcs⟩ := MultiDigraph.removeNode_of_node atNode
  refine ⟨graph, removed, ?_, ?_, ?_, ?_, ?_⟩
  · intro other
    dsimp only
    rw [nodes, OrderedDict.get?_erase, indexed.nodes_match]
    split <;> rfl
  · intro other ref found
    dsimp only at found
    rw [OrderedDict.get?_erase] at found
    split at found
    · cases found
    · exact indexed.node_held other ref found
  · intro source target other ref
    dsimp only
    rw [arcs]
    constructor
    · intro kept
      split at kept
      · exact (indexed.arcs_match source target other ref).mp kept
      · cases kept
    · rintro ⟨found, rfl, rfl⟩
      exact (if_pos (apart other ref found)).trans ((indexed.arcs_match _ _ other ref).mpr ⟨found, rfl, rfl⟩)
  · intro other ref found
    obtain ⟨inside, named, fromNode, toNode⟩ := indexed.edge_held other ref found
    obtain ⟨notSource, notTarget⟩ := apart other ref found
    exact ⟨inside, named, OrderedDict.mem_keys_erase.mpr ⟨notSource, fromNode⟩,
      OrderedDict.mem_keys_erase.mpr ⟨notTarget, toNode⟩⟩
  · intro other
    dsimp only
    rw [OrderedDict.get?_erase, OrderedDict.get?_erase, indexed.texts_match]
    split <;> rfl

/-- The graph may be given the object that it has for a node. -/
theorem Indexed.setData (indexed : σ.Indexed cfg) {id : String} {ref : Ref} (found : σ.nodes.get? id = some ref) :
    ∃ graph, σ.graph.setData id ref = some graph ∧ ({ σ with graph } : Storage).Indexed cfg := by
  have present : σ.graph.node? id = some (some ref) := by rw [indexed.nodes_match, found, Option.map_some]
  refine ⟨_, MultiDigraph.setData_of_node ref present, indexed.of_graph (fun other => ?_) fun _ _ _ => rfl⟩
  rw [MultiDigraph.node?_addNode]
  split
  · rename_i same
    rw [same, present]
  · rfl

/-- A node object of the map may be given new contents with the same id, if its text is cached anew. -/
theorem Indexed.rewrite (indexed : σ.Indexed cfg) {id : String} {ref : Ref} (found : σ.nodes.get? id = some ref)
    {node : Node} (sameId : node.id = id) :
    ({ σ.setNode ref node with searchableText := σ.searchableText.set id (buildSearchableText cfg node) } :
      Storage).Indexed cfg := by
  obtain ⟨inside, _⟩ := indexed.node_held id ref found
  have written : (σ.setNode ref node).node ref = node := Heap.read_write_self inside node
  have apart {other : String} {held : Ref} (differ : other ≠ id) (found' : σ.nodes.get? other = some held) :
      (σ.setNode ref node).node held = σ.node held := by
    refine Heap.read_write_of_ne (fun same => differ ?_) node
    subst same
    rw [← (indexed.node_held other ref found').2, (indexed.node_held id ref found).2]
  refine ⟨indexed.nodes_match, fun other held found' => ?_, indexed.arcs_match, indexed.edge_held, fun other => ?_⟩
  · refine ⟨by rw [Storage.setNode, Heap.size_write]; exact (indexed.node_held other held found').1, ?_⟩
    by_cases here : other = id
    · subst here
      obtain rfl : ref = held := Option.some.inj (found.symm.trans found')
      exact (congrArg Node.id written).trans sameId
    · exact (congrArg Node.id (apart here found')).trans (indexed.node_held other held found').2
  · dsimp only
    rw [OrderedDict.get?_set, indexed.texts_match]
    split
    · rename_i here
      rw [here, show (σ.setNode ref node).nodes.get? id = some ref from found, Option.map_some]
      exact congrArg (some ∘ buildSearchableText cfg) written.symm
    · rename_i here
      cases found' : σ.nodes.get? other with
      | none => simp only [show (σ.setNode ref node).nodes.get? other = none from found', Option.map_none]
      | some held =>
        rw [show (σ.setNode ref node).nodes.get? other = some held from found', Option.map_some, Option.map_some]
        exact congrArg (some ∘ buildSearchableText cfg) (apart here found').symm

/-- What is saved of a consistent storage is a valid graph file. -/
theorem Indexed.data_valid (indexed : σ.Indexed cfg) : σ.data.Valid cfg := by
  refine ⟨σ.nodes.keys, σ.edges.entries.map fun entry => (entry.1, (σ.edge entry.2).source, (σ.edge entry.2).target),
    ?_, ?_, ?_, ?_⟩
  · simp only [data, OrderedDict.values, OrderedDict.keys, List.map_map, List.forall₂_map_left_iff,
      List.forall₂_map_right_iff, List.forall₂_same]
    intro entry member fresh
    obtain ⟨created, updated, read⟩ := Node.fromDict_toDict cfg.readers fresh (σ.node entry.2)
    exact ⟨_, read, (indexed.node_held entry.1 entry.2 (OrderedDict.get?_eq_some.mpr member)).2⟩
  · simp only [data, OrderedDict.values, List.map_map, List.forall₂_map_left_iff, List.forall₂_map_right_iff,
      List.forall₂_same]
    intro entry member fresh
    obtain ⟨created, read⟩ := Edge.fromDict_toDict cfg.readers fresh (σ.edge entry.2)
    refine ⟨_, read, ?_⟩
    rw [← (indexed.edge_held entry.1 entry.2 (OrderedDict.get?_eq_some.mpr member)).2.1]
  · rw [List.map_map]
    exact σ.edges.distinct
  · intro edge member
    obtain ⟨entry, inEdges, rfl⟩ := List.mem_map.mp member
    exact (indexed.edge_held entry.1 entry.2 (OrderedDict.get?_eq_some.mpr inEdges)).2.2

theorem Sound.save (sound : σ.Sound cfg) : σ.save.Sound cfg := by
  refine ⟨⟨sound.nodes_match, sound.node_held, sound.arcs_match, sound.edge_held, sound.texts_match⟩, ?_⟩
  rintro data (saved | member)
  · exact sound.documents data (.inl saved)
  · rcases List.mem_append.mp member with earlier | last
    · exact sound.documents data (.inr earlier)
    · rw [List.mem_singleton.mp last]
      exact sound.toIndexed.data_valid

end Storage

end MetadataGraph.Graph
