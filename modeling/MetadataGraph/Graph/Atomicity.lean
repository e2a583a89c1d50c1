import MetadataGraph.Graph.History

namespace MetadataGraph.Graph

open ObjectHeap Runs

namespace Storage

variable {cfg : StorageConfig} {σ τ : Storage}

/-- The edges that the loop over new edges has linked. -/
structure Linked (refs : List Ref) (σ τ : Storage) : Prop where
  nodes : τ.nodes = σ.nodes
  nodeObjects : τ.nodeObjects = σ.nodeObjects
  edges : τ.edges.entries = σ.edges.entries ++ refs.map fun ref => ((σ.edge ref).id, ref)
  others : ∀ ref, ref ∉ refs → τ.edge ref = σ.edge ref
  ends : ∀ ref, ∃ source target, τ.edge ref = { σ.edge ref with source, target }

/-- The ends of an edge object are set, and it comes into the map under its id. -/
theorem Linked.first {ref : Ref} (inside : ref < σ.edgeObjects.size) (new : (σ.edge ref).id ∉ σ.edges.keys)
    (source target : String) : Linked [ref] σ ((σ.setEdge ref { σ.edge ref with source, target }).putEdge ref) := by
  have read := edge_setEdge inside { σ.edge ref with source, target }
  refine ⟨rfl, rfl, ?_, fun other apart => ?_, fun other => ?_⟩
  · rw [putEdge, read]
    exact OrderedDict.entries_set_of_notMem new ref
  · exact Heap.read_write_of_ne (fun same => apart (List.mem_singleton.mpr same.symm)) _
  · by_cases same : ref = other
    · rw [← same]
      exact ⟨source, target, read⟩
    · exact ⟨(σ.edge other).source, (σ.edge other).target, Heap.read_write_of_ne same _⟩

theorem Linked.trans {υ : Storage} {refs later : List Ref} (first : Linked refs σ τ) (second : Linked later τ υ) :
    Linked (refs ++ later) σ υ := by
  have ids : ∀ ref, (τ.edge ref).id = (σ.edge ref).id := fun ref => by
    obtain ⟨_, _, read⟩ := first.ends ref
    rw [read]
  refine ⟨second.nodes.trans first.nodes, second.nodeObjects.trans first.nodeObjects, ?_, fun ref apart => ?_,
    fun ref => ?_⟩
  · rw [second.edges, first.edges, List.append_assoc, List.map_append]
    simp only [ids]
  · rw [List.mem_append, not_or] at apart
    exact (second.others ref apart.2).trans (first.others ref apart.1)
  · obtain ⟨_, _, read⟩ := first.ends ref
    obtain ⟨source, target, read'⟩ := second.ends ref
    exact ⟨source, target, by rw [read', read]⟩

theorem linked_linkEach {names : OrderedDict String String} {refs : List Ref} {σ : Storage}
    (inside : ∀ ref ∈ refs, ref < σ.edgeObjects.size) (ended : σ.linkEach cfg names refs = (τ, none)) :
    Linked refs σ τ := by
  induction refs generalizing σ with
  | nil =>
    cases ended
    exact ⟨rfl, rfl, (List.append_nil _).symm, fun _ _ => rfl, fun _ => ⟨_, _, rfl⟩⟩
  | cons ref refs ih =>
    have here := inside ref List.mem_cons_self
    rw [linkEach] at ended
    dsimp only at ended
    split at ended
    · cases ended
    · rename_i source _
      split at ended
      · cases ended
      · rename_i target _
        split at ended
        · cases ended
        · rename_i new
          split at ended
          · cases ended
          · refine (Linked.first here new source target).trans (ih (fun other member => ?_) ended)
            show other < (σ.setEdge ref _).edgeObjects.size
            rw [setEdge, Heap.size_write]
            exact inside other (List.mem_cons_of_mem _ member)

theorem entries_putNodes (cfg : StorageConfig) {refs : List Ref} {σ : Storage}
    (new : New (refs.map fun ref => (σ.node ref).id) σ.nodes.keys) :
    (σ.putNodes cfg refs).nodes.entries = σ.nodes.entries ++ refs.map fun ref => ((σ.node ref).id, ref) := by
  induction refs generalizing σ with
  | nil => exact (List.append_nil _).symm
  | cons ref refs ih =>
    obtain ⟨fresh, apart, rest⟩ := new_cons.mp new
    have later := @ih (σ.putNode cfg ref) ((new_of_set fun _ => mem_keys_putNode).mpr ⟨apart, rest⟩)
    have first : (σ.putNode cfg ref).nodes.entries = σ.nodes.entries ++ [((σ.node ref).id, ref)] :=
      OrderedDict.entries_set_of_notMem fresh ref
    rw [first, List.append_assoc] at later
    exact later

/-- Embeddings change nothing else of a node, and nothing of a node that is not listed. -/
theorem node_updateNodesEmbeddings (refs : List Ref) (encoded : Option (List (List ℚ))) (σ : Storage) (ref : Ref) :
    (∃ embedding, (σ.updateNodesEmbeddings refs encoded).node ref = { σ.node ref with embedding }) ∧
      (ref ∉ refs → (σ.updateNodesEmbeddings refs encoded).node ref = σ.node ref) := by
  have setEach : ∀ (pairs : List (Ref × List ℚ)) (σ : Storage),
      (∃ embedding, (pairs.foldl setEmbedding σ).node ref = { σ.node ref with embedding }) ∧
        (ref ∉ pairs.map Prod.fst → (pairs.foldl setEmbedding σ).node ref = σ.node ref) := by
    intro pairs
    induction pairs with
    | nil => exact fun σ => ⟨⟨_, rfl⟩, fun _ => rfl⟩
    | cons pair pairs ih =>
      intro σ
      obtain ⟨⟨embedding, changed⟩, kept⟩ := ih (σ.setEmbedding pair)
      obtain ⟨_, first⟩ := node_setEmbedding pair σ ref
      refine ⟨⟨embedding, changed.trans (by rw [first])⟩, fun apart => ?_⟩
      rw [List.map_cons, List.mem_cons, not_or] at apart
      exact (kept apart.2).trans (Heap.read_write_of_ne (Ne.symm apart.1) _)
  cases encoded with
  | none => exact ⟨⟨_, rfl⟩, fun _ => rfl⟩
  | some vectors =>
    rw [updateNodesEmbeddings]
    split
    · exact ⟨⟨_, rfl⟩, fun _ => rfl⟩
    · obtain ⟨changed, kept⟩ := setEach (refs.zip vectors) σ
      refine ⟨changed, fun apart => kept fun member => apart ?_⟩
      obtain ⟨pair, listed, rfl⟩ := List.mem_map.mp member
      exact (List.of_mem_zip listed).1

/-- The listed nodes and edges were added, and nothing else. -/
structure Added (nodes edges : List Ref) (σ τ : Storage) : Prop where
  nodeEntries : τ.nodes.entries = σ.nodes.entries ++ nodes.map fun ref => ((σ.node ref).id, ref)
  edgeEntries : τ.edges.entries = σ.edges.entries ++ edges.map fun ref => ((σ.edge ref).id, ref)
  keptNode : ∀ ref, ref ∉ nodes → τ.node ref = σ.node ref
  keptEdge : ∀ ref, ref ∉ edges → τ.edge ref = σ.edge ref
  node : ∀ ref, ∃ embedding, τ.node ref = { σ.node ref with embedding }
  edge : ∀ ref, ∃ source target, τ.edge ref = { σ.edge ref with source, target }

theorem addNodes_added {nodes edges : List Ref} {encoded : Option (List (List ℚ))} {result : AddNodesResult}
    (inside : ∀ ref ∈ edges, ref < σ.edgeObjects.size) (added : σ.addNodes cfg nodes edges encoded = (τ, result))
    (success : result.success = true) :
    Added nodes edges σ τ ∧ (result.addedNodeIds = nodes.map fun ref => (σ.node ref).id) ∧
      result.addedEdgeIds = edges.map fun ref => (σ.edge ref).id := by
  have addable : σ.Addable cfg nodes edges :=
    (addNodes_success_iff cfg nodes encoded inside).mp (by rw [added]; exact success)
  rw [addNodes_of_new addable.newNodes] at added
  generalize ended : (σ.withNodes cfg nodes encoded).linkEach cfg (σ.putNodes cfg nodes).nameToId edges = done at added
  obtain ⟨υ, outcome⟩ := done
  cases outcome with
  | some message =>
    cases added
    cases success
  | none =>
    obtain ⟨sameEdges, sameObjects⟩ := edges_withNodes cfg nodes encoded σ
    have objects : ∀ ref, (σ.withNodes cfg nodes encoded).edge ref = σ.edge ref := fun ref => by
      rw [Storage.edge, sameObjects]
      rfl
    have linked := linked_linkEach (fun ref member => by rw [sameObjects]; exact inside ref member) ended
    have read : ∀ ref, υ.node ref = ((σ.putNodes cfg nodes).updateNodesEmbeddings nodes encoded).node ref := fun ref => by
      rw [Storage.node, linked.nodeObjects]
      rfl
    have unput : ∀ ref, (σ.putNodes cfg nodes).node ref = σ.node ref := fun ref => by
      rw [Storage.node, (objects_putNodes cfg nodes σ).1]
      rfl
    cases added
    refine ⟨⟨?_, ?_, fun ref apart => ?_, fun ref apart => ?_, fun ref => ?_, fun ref => ?_⟩, ?_, ?_⟩
    · show υ.nodes.entries = _
      rw [linked.nodes, (sameNodes_withNodes nodes encoded σ).nodes, entries_putNodes cfg addable.newNodes]
    · show υ.edges.entries = _
      rw [linked.edges, sameEdges]
      simp only [objects]
    · show υ.node ref = _
      rw [read, (node_updateNodesEmbeddings nodes encoded _ ref).2 apart, unput]
    · exact (linked.others ref apart).trans (objects ref)
    · obtain ⟨embedding, changed⟩ := (node_updateNodesEmbeddings nodes encoded (σ.putNodes cfg nodes) ref).1
      exact ⟨embedding, (read ref).trans (by rw [changed, unput])⟩
    · obtain ⟨source, target, changed⟩ := linked.ends ref
      exact ⟨source, target, changed.trans (by rw [objects])⟩
    · refine List.map_congr_left fun ref _ => ?_
      obtain ⟨_, changed⟩ := (node_updateNodesEmbeddings nodes encoded (σ.putNodes cfg nodes) ref).1
      rw [read, changed, unput]
    · refine List.map_congr_left fun ref _ => ?_
      obtain ⟨_, _, changed⟩ := linked.ends ref
      rw [changed, objects]

/-- The storage and the objects of its graph are as they were, and no write of the file was begun;
every write of the file carries a new time. -/
structure Untouched (σ τ : Storage) : Prop where
  nodes : τ.nodes = σ.nodes
  edges : τ.edges = σ.edges
  node : ∀ id ref, σ.nodes.get? id = some ref → τ.node ref = σ.node ref
  edge : ∀ id ref, σ.edges.get? id = some ref → τ.edge ref = σ.edge ref
  graph : τ.graph = σ.graph
  searchableText : τ.searchableText = σ.searchableText
  vectorStore : τ.vectorStore = σ.vectorStore
  saved : τ.saved = σ.saved
  pending : τ.pending = σ.pending

theorem Untouched.refl (σ : Storage) : Untouched σ σ :=
  ⟨rfl, rfl, fun _ _ _ => rfl, fun _ _ _ => rfl, rfl, rfl, rfl, rfl, rfl⟩

/-- An edge object is given the ends that it has, if it is in the graph. -/
theorem Untouched.setEdge {ref : Ref} {edge : Edge} (held : ∀ id, σ.edges.get? id = some ref → edge = σ.edge ref) :
    Untouched σ (σ.setEdge ref edge) := by
  refine { Untouched.refl σ with edge := fun id other found => ?_ }
  by_cases same : ref = other
  · rw [held id (by rw [same]; exact found)]
    exact Heap.read_write_read _ _ _
  · exact Heap.read_write_of_ne same _

theorem Untouched.trans {υ : Storage} (first : Untouched σ τ) (second : Untouched τ υ) : Untouched σ υ where
  nodes := second.nodes.trans first.nodes
  edges := second.edges.trans first.edges
  node id ref found := (second.node id ref (by rw [first.nodes]; exact found)).trans (first.node id ref found)
  edge id ref found := (second.edge id ref (by rw [first.edges]; exact found)).trans (first.edge id ref found)
  graph := second.graph.trans first.graph
  searchableText := second.searchableText.trans first.searchableText
  vectorStore := second.vectorStore.trans first.vectorStore
  saved := second.saved.trans first.saved
  pending := second.pending.trans first.pending

/-- The ends of an edge object that is in the graph are resolved to themselves. -/
theorem Untouched.relink (indexed : σ.Indexed cfg) {ref : Ref} {source target : String}
    (fromNode : (σ.edge ref).source ∈ σ.nodes.keys → source = (σ.edge ref).source)
    (toNode : (σ.edge ref).target ∈ σ.nodes.keys → target = (σ.edge ref).target) :
    Untouched σ (σ.setEdge ref { σ.edge ref with source, target }) := by
  refine .setEdge fun id found => ?_
  obtain ⟨_, _, atSource, atTarget⟩ := indexed.edge_held id ref found
  rw [fromNode atSource, toNode atTarget]

/-- What an update of one node object leaves as it was. -/
structure OneNode (ref : Ref) (σ τ : Storage) : Prop where
  nodes : τ.nodes = σ.nodes
  edges : τ.edges = σ.edges
  edgeObjects : τ.edgeObjects = σ.edgeObjects
  others : ∀ other, other ≠ ref → τ.node other = σ.node other

theorem OneNode.updateNodesEmbeddings {ref : Ref} (one : OneNode ref σ τ) (encoded : Option (List (List ℚ))) :
    OneNode ref σ (τ.updateNodesEmbeddings [ref] encoded) where
  nodes := (SameNodes.updateNodesEmbeddings [ref] encoded τ).nodes.trans one.nodes
  edges := (edges_updateNodesEmbeddings [ref] encoded τ).trans one.edges
  edgeObjects := (edgeObjects_updateNodesEmbeddings [ref] encoded τ).trans one.edgeObjects
  others other apart := ((node_updateNodesEmbeddings [ref] encoded τ other).2
    fun member => apart (List.mem_singleton.mp member)).trans (one.others other apart)

/-- An update of a node changes nothing, or the object of that node. -/
theorem updateNode_cases (valid : σ.Valid cfg) (id : String) (request : NodeUpdate) :
    (σ.updateNode cfg id request).1 = σ ∧ Reply.Failed (.updated (σ.updateNode cfg id request).2) ∨
      ∃ ref, σ.nodes.get? id = some ref ∧ (σ.updateNode cfg id request).2 = .ok (some ref) ∧
        OneNode ref σ (σ.updateNode cfg id request).1 := by
  rw [updateNode]
  split
  · exact .inl ⟨rfl, trivial⟩
  · rename_i ref found
    dsimp only
    split
    · exact .inl ⟨rfl, trivial⟩
    · rename_i validated _
      have present : σ.graph.node? id = some (some ref) := by rw [valid.nodes_match, found, Option.map_some]
      have set := MultiDigraph.setData_of_node ref present
      rw [show (σ.setNode ref (applyUpdate request.now (σ.node ref) validated)).graph.setData id ref = some _ from set]
      refine .inr ⟨ref, found, rfl, ?_⟩
      dsimp only
      split
      · have one : OneNode ref σ { σ.setNode ref (applyUpdate request.now (σ.node ref) validated) with
            graph := σ.graph.addNode id ref
            searchableText := σ.searchableText.set (σ.node ref).id
              (buildSearchableText cfg ((σ.setNode ref (applyUpdate request.now (σ.node ref) validated)).node ref)) } :=
          ⟨rfl, rfl, rfl, fun other apart => Heap.read_write_of_ne (Ne.symm apart) _⟩
        have embedded := one.updateNodesEmbeddings (request.encoded.map fun vector => [vector])
        exact ⟨embedded.nodes, embedded.edges, embedded.edgeObjects, embedded.others⟩
      · exact ⟨rfl, rfl, rfl, fun other apart => Heap.read_write_of_ne (Ne.symm apart) _⟩

/-- What an update of one edge object leaves as it was. -/
structure OneEdge (ref : Ref) (σ τ : Storage) : Prop where
  nodes : τ.nodes = σ.nodes
  edges : τ.edges = σ.edges
  nodeObjects : τ.nodeObjects = σ.nodeObjects
  others : ∀ other, other ≠ ref → τ.edge other = σ.edge other

theorem OneEdge.setEdge (ref : Ref) (edge : Edge) (σ : Storage) : OneEdge ref σ (σ.setEdge ref edge) :=
  ⟨rfl, rfl, rfl, fun _ apart => Heap.read_write_of_ne (Ne.symm apart) _⟩

/-- An update of an edge changes nothing, or the object of that edge. -/
theorem updateEdge_cases (cfg : StorageConfig) (id : String) (updates : Dict Json) (σ : Storage) :
    (σ.updateEdge cfg id updates).1 = σ ∧ Reply.Failed (.updated (σ.updateEdge cfg id updates).2) ∨
      ∃ ref, σ.edges.get? id = some ref ∧ (σ.updateEdge cfg id updates).2 = .ok (some ref) ∧
        OneEdge ref σ (σ.updateEdge cfg id updates).1 := by
  rw [updateEdge]
  split
  · exact .inl ⟨rfl, trivial⟩
  · rename_i ref found
    dsimp only
    split
    · exact .inl ⟨rfl, trivial⟩
    · split
      · exact .inl ⟨rfl, trivial⟩
      · obtain ⟨nodes, edges, objects, others⟩ := OneEdge.setEdge ref _ σ
        exact .inr ⟨ref, found, rfl, nodes, edges, objects, others⟩

theorem archiveNodes_ok (archived : Bool) (nodes : List (String × Datetime)) {σ : Storage} (valid : σ.Valid cfg) :
    ∃ found, (σ.archiveNodes archived nodes).2 = .ok found := by
  induction nodes generalizing σ with
  | nil => exact ⟨_, rfl⟩
  | cons pair nodes ih =>
    obtain ⟨id, now⟩ := pair
    rw [archiveNodes]
    split
    · exact ih valid
    · rename_i ref found
      split
      · obtain ⟨rest, ended⟩ := ih valid
        dsimp only
        exact ⟨_, by rw [ended]; rfl⟩
      · have kept : Kept cfg σ (σ.setNode ref { σ.node ref with archived, updatedAt := now }) := .setNode rfl rfl
        have changed := valid.kept kept
        obtain ⟨graph, set, marked⟩ := changed.setData found
        obtain ⟨rest, ended⟩ := ih marked
        dsimp only
        rw [set]
        exact ⟨_, by dsimp only; rw [ended]; rfl⟩

theorem setNodesArchived_ok (valid : σ.Valid cfg) (nodes : List (String × Datetime)) (archived : Bool) :
    ∃ found, (σ.setNodesArchived nodes archived).2 = .ok found := by
  obtain ⟨found, ended⟩ := archiveNodes_ok archived nodes valid
  rw [setNodesArchived]
  split
  · rename_i failed
    rw [failed] at ended
    cases ended
  · exact ⟨_, rfl⟩

theorem setEdge_setEdge (ref : Ref) (first second : Edge) (σ : Storage) :
    (σ.setEdge ref first).setEdge ref second = σ.setEdge ref second := by
  rw [setEdge, setEdge, setEdge, Heap.write_write]

/-- A new edge is linked, or nothing changes but the ends of an edge object that is not in the graph. -/
theorem addEdge_cases (valid : σ.Valid cfg) {ref : Ref} (inside : ref < σ.edgeObjects.size) :
    Untouched σ (σ.addEdge cfg ref).1 ∧ Reply.Failed (.edgeAdded (σ.addEdge cfg ref).2) ∨
      ∃ υ, (σ.addEdge cfg ref) = (υ.save, .ok (some (σ.edge ref).id)) ∧ Linked [ref] σ υ := by
  rw [addEdge]
  split
  · exact .inl ⟨.refl σ, trivial⟩
  · rename_i source resolvedSource
    obtain ⟨_, keptSource⟩ := resolve_spec (fun name id => nameToId_present) resolvedSource
    have halfway := edge_setEdge inside { σ.edge ref with source }
    have first : Untouched σ (σ.setEdge ref { σ.edge ref with source }) :=
      .relink valid.toIndexed keptSource fun _ => rfl
    dsimp only
    rw [halfway]
    split
    · exact .inl ⟨first, trivial⟩
    · rename_i target resolvedTarget
      obtain ⟨_, keptTarget⟩ := resolve_spec (fun name id => nameToId_present) resolvedTarget
      have second : Untouched σ (σ.setEdge ref { σ.edge ref with source, target }) :=
        .relink valid.toIndexed keptSource keptTarget
      rw [setEdge_setEdge, edge_setEdge inside]
      split
      · exact .inl ⟨second, trivial⟩
      · rename_i new
        split
        · exact .inl ⟨second, trivial⟩
        · exact .inr ⟨_, rfl, .first inside new source target⟩

/-- Nodes and edges under some ids are gone, and nothing else of the graph has changed. -/
structure Dropped (ids edgeIds : List String) (σ τ : Storage) : Prop where
  nodes : ∀ id, τ.nodes.get? id = if id ∈ ids then none else σ.nodes.get? id
  edges : ∀ id, τ.edges.get? id = if id ∈ edgeIds then none else σ.edges.get? id
  nodeObjects : τ.nodeObjects = σ.nodeObjects
  edgeObjects : τ.edgeObjects = σ.edgeObjects

theorem Dropped.refl (σ : Storage) : Dropped [] [] σ σ := ⟨fun _ => rfl, fun _ => rfl, rfl, rfl⟩

theorem Dropped.trans {υ : Storage} {ids edgeIds ids' edgeIds' : List String} (first : Dropped ids edgeIds σ τ)
    (second : Dropped ids' edgeIds' τ υ) : Dropped (ids ++ ids') (edgeIds ++ edgeIds') σ υ := by
  refine ⟨fun id => ?_, fun id => ?_, second.nodeObjects.trans first.nodeObjects,
    second.edgeObjects.trans first.edgeObjects⟩
  · rw [second.nodes, first.nodes]
    by_cases early : id ∈ ids <;> by_cases late : id ∈ ids' <;> simp [early, late]
  · rw [second.edges, first.edges]
    by_cases early : id ∈ edgeIds <;> by_cases late : id ∈ edgeIds' <;> simp [early, late]

theorem dropped_dropEdges {ids : List String} {σ : Storage} (dropped : σ.dropEdges ids = (τ, none)) :
    Dropped [] ids σ τ := by
  induction ids generalizing σ with
  | nil =>
    cases dropped
    exact .refl _
  | cons id ids ih =>
    rw [dropEdges] at dropped
    split at dropped
    · cases dropped
    · dsimp only at dropped
      split at dropped
      · cases dropped
      · rename_i graph _
        have first : Dropped [] [id] σ { σ with graph, edges := σ.edges.erase id } := by
          refine ⟨fun _ => rfl, fun other => ?_, rfl, rfl⟩
          simp only [OrderedDict.get?_erase, List.mem_singleton]
        exact first.trans (ih dropped)

theorem dropped_dropNode {id : String} (dropped : σ.dropNode id = (τ, none)) : Dropped [id] (σ.edgesAt id) σ τ := by
  rw [dropNode] at dropped
  generalize looped : σ.dropEdges (σ.edgesAt id) = done at dropped
  obtain ⟨υ, failed⟩ := done
  cases failed with
  | some error => cases dropped
  | none =>
    have edges := dropped_dropEdges looped
    dsimp only at dropped
    split at dropped
    · cases dropped
    · cases dropped
      refine ⟨fun other => ?_, edges.edges, edges.nodeObjects, edges.edgeObjects⟩
      simp only [OrderedDict.get?_erase, List.mem_singleton, edges.nodes, List.not_mem_nil, if_false]

theorem dropped_deleteEach {ids : List String} {deleted : List (String × List String)} {σ : Storage}
    (looped : σ.deleteEach ids = (τ, .ok deleted)) :
    Dropped (deleted.map Prod.fst) (deleted.flatMap Prod.snd) σ τ := by
  induction ids generalizing σ deleted with
  | nil =>
    cases looped
    exact .refl _
  | cons first ids ih =>
    rw [deleteEach] at looped
    split at looped
    · generalize dropped : σ.dropNode first = done at looped
      obtain ⟨υ, failed⟩ := done
      cases failed with
      | some error => cases looped
      | none =>
        dsimp only at looped
        generalize rest : υ.deleteEach ids = done at looped
        obtain ⟨ω, outcome⟩ := done
        cases outcome with
        | error error => cases looped
        | ok later =>
          cases looped
          exact (dropped_dropNode dropped).trans (ih rest)
    · exact ih looped

/-- A deletion that is not refused at once deletes the nodes that are there with their edges. -/
theorem deleteNodes_confirmed (valid : σ.Valid cfg) {ids : List String} (short : ids.length ≤ 10) :
    ∃ deleted : List (String × List String),
      Dropped (deleted.map Prod.fst) (deleted.flatMap Prod.snd) σ (σ.deleteNodes cfg ids true).1 ∧
        (∀ id, id ∈ deleted.map Prod.fst ↔ id ∈ σ.known ids) ∧
          (Stackable (σ.known ids) σ.vectorStore →
            (σ.deleteNodes cfg ids true).2.deletedNodeIds = deleted.map Prod.fst ∧
              (σ.deleteNodes cfg ids true).2.affectedEdgeIds = deleted.flatMap Prod.snd) := by
  obtain ⟨υ, deleted, looped, _⟩ := valid.toSound.deleteEach ids
  have dropped := dropped_deleteEach looped
  refine ⟨deleted, ?_, fun id => ?_, fun stackable => ?_⟩
  · have gone : Dropped (deleted.map Prod.fst) (deleted.flatMap Prod.snd) σ
        { υ with vectorStore := (υ.vectorStore.removeNodesEmbeddings (deleted.map Prod.fst)).1 } :=
      ⟨dropped.nodes, dropped.edges, dropped.nodeObjects, dropped.edgeObjects⟩
    rw [deleteNodes]
    dsimp only
    rw [if_neg (Nat.not_lt.mpr short), if_neg (not_not.mpr rfl), looped]
    dsimp only
    split
    · exact ⟨gone.nodes, gone.edges, gone.nodeObjects, gone.edgeObjects⟩
    · exact gone
  · rw [mem_deleteEach looped, known, List.mem_filter, decide_eq_true_eq]
  · rw [← removeNodesEmbeddings_ok_iff, ← removed_known looped] at stackable
    rw [deleteNodes]
    dsimp only
    rw [if_neg (Nat.not_lt.mpr short), if_neg (not_not.mpr rfl), looped]
    dsimp only
    rw [if_pos stackable]
    exact ⟨rfl, rfl⟩

/-- A deletion that fails names nothing that it deleted, and if it was refused at once it changed nothing. -/
theorem deleteNodes_failed {ids : List String} {confirmed : Bool}
    (failed : (σ.deleteNodes cfg ids confirmed).2.success = false) :
    (σ.deleteNodes cfg ids confirmed).2.deletedNodeIds = [] ∧ (σ.deleteNodes cfg ids confirmed).2.affectedEdgeIds = [] ∧
      (¬ (ids.length ≤ 10 ∧ confirmed = true) → (σ.deleteNodes cfg ids confirmed).1 = σ) := by
  rw [deleteNodes] at failed ⊢
  dsimp only at failed ⊢
  split
  · exact ⟨rfl, rfl, fun _ => rfl⟩
  · rename_i short
    split
    · exact ⟨rfl, rfl, fun _ => rfl⟩
    · rename_i given
      rw [if_neg short, if_neg given] at failed
      have accepted : ids.length ≤ 10 ∧ confirmed = true := ⟨Nat.not_lt.mp short, not_not.mp given⟩
      generalize σ.deleteEach ids = done at failed
      obtain ⟨υ, outcome⟩ := done
      cases outcome with
      | error error => exact ⟨rfl, rfl, fun refused => absurd accepted refused⟩
      | ok deleted =>
        dsimp only at failed ⊢
        split
        · rename_i stacked
          rw [if_pos stacked] at failed
          cases failed
        · exact ⟨rfl, rfl, fun refused => absurd accepted refused⟩

theorem pending_linkEach (cfg : StorageConfig) (names : OrderedDict String String) (refs : List Ref) (σ : Storage) :
    (σ.linkEach cfg names refs).1.pending = σ.pending := by
  induction refs generalizing σ with
  | nil => rfl
  | cons ref refs ih =>
    rw [linkEach]
    dsimp only
    split
    · rfl
    · split
      · rfl
      · split
        · rfl
        · split
          · rfl
          · exact ih _

theorem pending_withNodes (cfg : StorageConfig) (nodes : List Ref) (encoded : Option (List (List ℚ))) (σ : Storage) :
    (σ.withNodes cfg nodes encoded).pending.length = σ.pending.length + 1 := by
  have put : (σ.putNodes cfg nodes).pending = σ.pending := by
    induction nodes generalizing σ with
    | nil => rfl
    | cons ref refs ih => exact ih (σ.putNode cfg ref)
  have setEach : ∀ (pairs : List (Ref × List ℚ)) (σ : Storage), (pairs.foldl setEmbedding σ).pending = σ.pending := by
    intro pairs
    induction pairs with
    | nil => exact fun _ => rfl
    | cons pair pairs ih => exact fun σ => ih (σ.setEmbedding pair)
  have embedded : ((σ.putNodes cfg nodes).updateNodesEmbeddings nodes encoded).pending = σ.pending := by
    cases encoded with
    | none => exact put
    | some vectors =>
      rw [updateNodesEmbeddings]
      split
      · exact put
      · exact (setEach _ _).trans put
  rw [withNodes, save, List.length_append, embedded]
  rfl

/-- The call fails after it has begun to change the graph: `add_nodes` at another entry than the first
node, `delete_nodes` at the embeddings that are left. -/
def BreaksOff (cfg : StorageConfig) (σ : Storage) : Action → Prop
  | .addNodes nodes edges _ =>
    ¬ σ.Addable cfg nodes edges ∧ ∀ first, nodes.head? = some first → (σ.node first).id ∉ σ.nodes.keys
  | .deleteNodes ids confirmed => ids.length ≤ 10 ∧ confirmed = true ∧ ¬ Stackable (σ.known ids) σ.vectorStore
  | _ => False

/-- A failed call leaves everything as it was and emits nothing, and a successful `add_nodes` adds
exactly what was listed. -/
structure AllOrNothing (σ : Storage) (action : Action) (τ : Storage) (reply : Reply) : Prop where
  nothing : reply.Failed → Untouched σ τ ∧ σ.emitted τ action reply = []
  all : ∀ nodes edges encoded result, action = .addNodes nodes edges encoded → reply = .added result →
    result.success = true → Added nodes edges σ τ

/-- An `add_nodes` whose first node is there already fails at once. -/
theorem addNodes_stops (cfg : StorageConfig) {nodes : List Ref} (edges : List Ref) (encoded : Option (List (List ℚ)))
    {first : Ref} (head : nodes.head? = some first) (known : (σ.node first).id ∈ σ.nodes.keys) :
    ∃ message, σ.addNodes cfg nodes edges encoded = (σ, { success := false, message }) := by
  cases nodes with
  | nil => cases head
  | cons ref rest =>
    obtain rfl : ref = first := Option.some.inj head
    rw [addNodes, addEach, if_pos known]
    exact ⟨_, rfl⟩

/-- An `add_nodes` that fails later has put in a node, or has begun to write the file. -/
theorem addNodes_breaksOff {nodes edges : List Ref} (encoded : Option (List (List ℚ)))
    (inside : ∀ ref ∈ edges, ref < σ.edgeObjects.size) (fails : ¬ σ.Addable cfg nodes edges)
    (begins : ∀ first, nodes.head? = some first → (σ.node first).id ∉ σ.nodes.keys) :
    ¬ Untouched σ (σ.addNodes cfg nodes edges encoded).1 := by
  intro untouched
  by_cases new : New (nodes.map fun ref => (σ.node ref).id) σ.nodes.keys
  · have linked := linkEach_withNodes cfg nodes encoded inside
    have waiting := pending_linkEach cfg (σ.putNodes cfg nodes).nameToId edges (σ.withNodes cfg nodes encoded)
    have pending := untouched.pending
    rw [addNodes_of_new new] at pending
    generalize (σ.withNodes cfg nodes encoded).linkEach cfg (σ.putNodes cfg nodes).nameToId edges = done at *
    obtain ⟨τ, outcome⟩ := done
    cases outcome with
    | none => exact fails ⟨new, (linked.mp rfl).1, (linked.mp rfl).2⟩
    | some message =>
      have longer := pending_withNodes cfg nodes encoded σ
      rw [← waiting, pending] at longer
      omega
  · obtain ⟨added, ref, rest, split, stopped, newAdded, here⟩ := addEach_of_not_new cfg new
    have nodes' := untouched.nodes
    rw [addNodes, stopped] at nodes'
    dsimp only at nodes'
    cases added with
    | nil => exact begins ref (by rw [split]; rfl) here
    | cons first added =>
      have entries := entries_putNodes cfg newAdded
      rw [nodes'] at entries
      have lengths := congrArg List.length entries
      rw [List.length_append, List.map_cons, List.length_cons] at lengths
      omega

/-- A deletion that cannot stack the embeddings that are left has deleted a node. -/
theorem deleteNodes_breaksOff (valid : σ.Valid cfg) {ids : List String} (short : ids.length ≤ 10)
    (uneven : ¬ Stackable (σ.known ids) σ.vectorStore) : ¬ Untouched σ (σ.deleteNodes cfg ids true).1 := by
  intro untouched
  obtain ⟨deleted, dropped, same, _⟩ := deleteNodes_confirmed valid short
  rw [Stackable, Classical.not_imp] at uneven
  obtain ⟨⟨id, known, _⟩, _⟩ := uneven
  have present : id ∈ σ.nodes.keys := of_decide_eq_true (List.mem_filter.mp known).2
  obtain ⟨ref, found⟩ := mem_nodes.mp present
  have gone := dropped.nodes id
  rw [if_pos ((same id).mpr known), untouched.nodes, found] at gone
  cases gone

theorem emitted_updateNode {id : String} {request : NodeUpdate} {result : Except StorageError (Option Ref)}
    (failed : Reply.Failed (.updated result)) : σ.emitted τ (.updateNode id request) (.updated result) = [] := by
  match result with
  | .error _ => rfl
  | .ok none => rfl
  | .ok (some _) => exact failed.elim

theorem emitted_updateEdge {id : String} {updates : Dict Json} {result : Except StorageError (Option Ref)}
    (failed : Reply.Failed (.updated result)) : σ.emitted τ (.updateEdge id updates) (.updated result) = [] := by
  match result with
  | .error _ => rfl
  | .ok none => rfl
  | .ok (some _) => exact failed.elim

theorem emitted_addEdge {ref : Ref} {result : Except StorageError (Option String)}
    (failed : Reply.Failed (.edgeAdded result)) : σ.emitted τ (.addEdge ref) (.edgeAdded result) = [] := by
  match result with
  | .error _ => rfl
  | .ok none => rfl
  | .ok (some _) => exact failed.elim

/-- A mutation is all or nothing exactly if it does not break off. -/
theorem Valid.allOrNothing_iff (valid : σ.Valid cfg) {action : Action} {reply : Reply} (mutation : action.isMutation = true)
    (stepped : σ.step cfg action = some (τ, reply)) : AllOrNothing σ action τ reply ↔ ¬ BreaksOff cfg σ action := by
  have whole : ∀ {action : Action} {τ reply}, (∀ nodes edges encoded, action ≠ .addNodes nodes edges encoded) →
      ¬ BreaksOff cfg σ action → (reply.Failed → Untouched σ τ ∧ σ.emitted τ action reply = []) →
        (AllOrNothing σ action τ reply ↔ ¬ BreaksOff cfg σ action) := fun other whole nothing =>
    ⟨fun _ => whole, fun _ => ⟨nothing, fun nodes edges encoded _ same => absurd same (other nodes edges encoded)⟩⟩
  cases action with
  | newNode node => cases mutation
  | newEdge edge => cases mutation
  | saveDone landed => cases mutation
  | load readable fresh => cases mutation
  | addNodes nodes edges encoded =>
    rw [Storage.step] at stepped
    split at stepped
    · rename_i inside
      obtain rfl := congrArg Prod.fst (Option.some.inj stepped)
      obtain rfl := congrArg Prod.snd (Option.some.inj stepped)
      constructor
      · rintro atomic ⟨fails, begins⟩
        have failed : (σ.addNodes cfg nodes edges encoded).2.success = false := by
          rw [← Bool.not_eq_true, addNodes_success_iff cfg nodes encoded inside.2]
          exact fails
        exact addNodes_breaksOff encoded inside.2 fails begins (atomic.nothing failed).1
      · intro sound
        refine ⟨fun failed => ?_, fun nodes' edges' encoded' result same replied success => ?_⟩
        · have fails : ¬ σ.Addable cfg nodes edges := by
            rw [← addNodes_success_iff cfg nodes encoded inside.2, Bool.not_eq_true]
            exact failed
          have stops : ∃ first, nodes.head? = some first ∧ (σ.node first).id ∈ σ.nodes.keys := by
            by_contra none
            exact sound ⟨fails, fun first head known => none ⟨first, head, known⟩⟩
          obtain ⟨first, head, known⟩ := stops
          obtain ⟨message, stopped⟩ := addNodes_stops cfg edges encoded head known
          simp only [stopped, Prod.map, id_eq]
          exact ⟨.refl σ, rfl⟩
        · cases same
          cases replied
          exact (addNodes_added inside.2 rfl success).1
    · cases stepped
  | updateNode id request =>
    obtain rfl := congrArg Prod.fst (Option.some.inj stepped)
    obtain rfl := congrArg Prod.snd (Option.some.inj stepped)
    refine whole (fun _ _ _ no => (by cases no)) not_false fun failed => ?_
    rcases updateNode_cases valid id request with ⟨same, _⟩ | ⟨ref, _, updated, _⟩
    · refine ⟨by rw [Prod.map_fst, same]; exact .refl σ, ?_⟩
      rw [Prod.map_snd] at failed ⊢
      exact emitted_updateNode failed
    · rw [Prod.map_snd, updated] at failed
      exact failed.elim
  | setNodesArchived nodes archived =>
    obtain rfl := congrArg Prod.fst (Option.some.inj stepped)
    obtain rfl := congrArg Prod.snd (Option.some.inj stepped)
    refine whole (fun _ _ _ no => (by cases no)) not_false fun failed => ?_
    obtain ⟨found, ended⟩ := setNodesArchived_ok valid nodes archived
    rw [Prod.map_snd, ended] at failed
    exact failed.elim
  | deleteNodes ids confirmed =>
    obtain rfl := congrArg Prod.fst (Option.some.inj stepped)
    obtain rfl := congrArg Prod.snd (Option.some.inj stepped)
    constructor
    · rintro atomic ⟨short, rfl, uneven⟩
      have failed : (σ.deleteNodes cfg ids true).2.success = false := by
        rw [← Bool.not_eq_true, deleteNodes_success_iff]
        exact fun success => uneven success.2.2.2
      exact deleteNodes_breaksOff valid short uneven (atomic.nothing failed).1
    · intro sound
      refine ⟨fun failed => ?_, fun _ _ _ _ no => (by cases no)⟩
      obtain ⟨noNodes, noEdges, unchanged⟩ := deleteNodes_failed failed
      have refused : ¬ (ids.length ≤ 10 ∧ confirmed = true) := fun accepted => by
        rw [Prod.map_snd, Reply.Failed, ← Bool.not_eq_true, deleteNodes_success_iff] at failed
        exact failed ⟨accepted.1, accepted.2, valid.toSound.ends ids,
          not_not.mp fun uneven => sound ⟨accepted.1, accepted.2, uneven⟩⟩
      refine ⟨by rw [Prod.map_fst, unchanged refused]; exact .refl σ, ?_⟩
      simp only [Prod.map_snd, emitted, noNodes, noEdges, eachNode, eachEdge, List.filterMap_nil, List.append_nil]
  | updateEdge id updates =>
    obtain rfl := congrArg Prod.fst (Option.some.inj stepped)
    obtain rfl := congrArg Prod.snd (Option.some.inj stepped)
    refine whole (fun _ _ _ no => (by cases no)) not_false fun failed => ?_
    rcases updateEdge_cases cfg id updates σ with ⟨same, _⟩ | ⟨ref, _, updated, _⟩
    · refine ⟨by rw [Prod.map_fst, same]; exact .refl σ, ?_⟩
      rw [Prod.map_snd] at failed ⊢
      exact emitted_updateEdge failed
    · rw [Prod.map_snd, updated] at failed
      exact failed.elim
  | setEdgesArchived ids archived =>
    obtain rfl := congrArg Prod.snd (Option.some.inj stepped)
    exact whole (fun _ _ _ no => (by cases no)) not_false fun failed => failed.elim
  | deleteEdge id =>
    obtain rfl := congrArg Prod.fst (Option.some.inj stepped)
    obtain rfl := congrArg Prod.snd (Option.some.inj stepped)
    refine whole (fun _ _ _ no => (by cases no)) not_false fun failed => ?_
    cases found : σ.edges.get? id with
    | none =>
      have same : σ.deleteEdge id = (σ, false) := by rw [Storage.deleteEdge, found]
      rw [same]
      exact ⟨.refl σ, rfl⟩
    | some ref =>
      have deleted : (σ.deleteEdge id).2 = true := by rw [Storage.deleteEdge, found]
      rw [Prod.map_snd, deleted] at failed
      cases failed
  | deleteEdges ids =>
    obtain rfl := congrArg Prod.snd (Option.some.inj stepped)
    exact whole (fun _ _ _ no => (by cases no)) not_false fun failed => (by cases failed)
  | addEdge edge =>
    rw [Storage.step] at stepped
    split at stepped
    · rename_i inside
      obtain rfl := congrArg Prod.fst (Option.some.inj stepped)
      obtain rfl := congrArg Prod.snd (Option.some.inj stepped)
      refine whole (fun _ _ _ no => (by cases no)) not_false fun failed => ?_
      rcases addEdge_cases valid inside with ⟨untouched, _⟩ | ⟨υ, linked, _⟩
      · rw [Prod.map_snd] at failed
        refine ⟨untouched, ?_⟩
        rw [Prod.map_snd]
        exact emitted_addEdge failed
      · rw [linked] at failed
        exact failed.elim
    · cases stepped

end Storage

/-- The reply to a call, as far as it tells of a success. -/
def Reply.success : Reply → Option Bool
  | .added result => some result.success
  | _ => none

theorem Reply.added_of_success {reply : Reply} {success : Bool} (told : reply.success = some success) :
    ∃ result, reply = .added result ∧ result.success = success := by
  cases reply with
  | added result => exact ⟨result, rfl, Option.some.inj told⟩
  | _ => cases told

end MetadataGraph.Graph
