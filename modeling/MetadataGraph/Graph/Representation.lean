import MetadataGraph.Graph.Consistency

namespace MetadataGraph.Graph

open ObjectHeap Runs

namespace Storage

variable {cfg : StorageConfig} {σ τ : Storage}

theorem node_newNode (node : Node) (σ : Storage) : (σ.newNode node).node σ.nodeObjects.size = node :=
  Heap.read_allocAll_one σ.nodeObjects node

theorem edge_newEdge (edge : Edge) (σ : Storage) : (σ.newEdge edge).edge σ.edgeObjects.size = edge :=
  Heap.read_allocAll_one σ.edgeObjects edge

theorem inside_newNode (node : Node) (σ : Storage) : σ.nodeObjects.size < (σ.newNode node).nodeObjects.size := by
  rw [newNode, Heap.size_allocAll]
  exact Nat.lt_succ_self _

theorem inside_newEdge (edge : Edge) (σ : Storage) : σ.edgeObjects.size < (σ.newEdge edge).edgeObjects.size := by
  rw [newEdge, Heap.size_allocAll]
  exact Nat.lt_succ_self _

theorem Sound.putNode (sound : σ.Sound cfg) {ref : Ref} (inside : ref < σ.nodeObjects.size) :
    (σ.putNode cfg ref).Sound cfg :=
  ⟨sound.toIndexed.putNode inside, sound.documents⟩

theorem Sound.putEdge (sound : σ.Sound cfg) {ref : Ref} (inside : ref < σ.edgeObjects.size)
    (new : (σ.edge ref).id ∉ σ.edges.keys) (fromNode : (σ.edge ref).source ∈ σ.nodes.keys)
    (toNode : (σ.edge ref).target ∈ σ.nodes.keys) : (σ.putEdge ref).Sound cfg :=
  ⟨sound.toIndexed.putEdge inside new fromNode toNode, sound.documents⟩

theorem mem_nodes_putNode {ref : Ref} {id : String} :
    id ∈ (σ.putNode cfg ref).nodes.keys ↔ id = (σ.node ref).id ∨ id ∈ σ.nodes.keys :=
  OrderedDict.mem_keys_set

theorem mem_edges_putEdge {ref : Ref} {id : String} :
    id ∈ (σ.putEdge ref).edges.keys ↔ id = (σ.edge ref).id ∨ id ∈ σ.edges.keys :=
  OrderedDict.mem_keys_set

/-- The entries of a valid file become nodes of the graph. -/
theorem Sound.loadNodes (fresh : Nat → Fresh) {entries : List (Dict Json)} {ids : List String}
    (read : List.Forall₂ (ReadsNode cfg) entries ids) (i : Nat) {σ : Storage} (sound : σ.Sound cfg) :
    ∃ τ, σ.loadNodes cfg fresh i entries = (τ, true) ∧ τ.Sound cfg ∧ τ.edges = σ.edges ∧
      ∀ id, id ∈ ids ∨ id ∈ σ.nodes.keys → id ∈ τ.nodes.keys := by
  induction read generalizing i σ with
  | nil => exact ⟨σ, rfl, sound, rfl, fun id member => member.elim (by simp) fun here => here⟩
  | @cons entry id entries ids first _ ih =>
    obtain ⟨node, parsed, named⟩ := first (fresh i)
    have built := (sound.kept (.newNode cfg node σ)).putNode (inside_newNode node σ)
    obtain ⟨τ, loaded, sound', sameEdges, present⟩ := ih (i + 1) built
    refine ⟨τ, ?_, sound', sameEdges, fun other member => present other ?_⟩
    · rw [Storage.loadNodes, parsed]
      exact loaded
    · rw [mem_nodes_putNode, node_newNode, named]
      rcases member with inList | before
      · rcases List.mem_cons.mp inList with same | later
        · exact .inr (.inl same)
        · exact .inl later
      · exact .inr (.inr before)

/-- The entries of a valid file become edges of the graph. -/
theorem Sound.loadEdges (fresh : Nat → Fresh) {entries : List (Dict Json)} {edges : List (String × String × String)}
    (read : List.Forall₂ (ReadsEdge cfg) entries edges) (i : Nat) {σ : Storage} (sound : σ.Sound cfg)
    (distinct : (edges.map Prod.fst).Nodup) (new : ∀ edge ∈ edges, edge.1 ∉ σ.edges.keys)
    (between : ∀ edge ∈ edges, edge.2.1 ∈ σ.nodes.keys ∧ edge.2.2 ∈ σ.nodes.keys) :
    ∃ τ, σ.loadEdges cfg fresh i entries = (τ, true) ∧ τ.Sound cfg := by
  induction read generalizing i σ with
  | nil => exact ⟨σ, rfl, sound⟩
  | @cons entry edge entries edges first _ ih =>
    obtain ⟨built, parsed, rfl⟩ := first (fresh i)
    obtain ⟨fromNode, toNode⟩ := between _ List.mem_cons_self
    rw [List.map_cons, List.nodup_cons] at distinct
    have read := edge_newEdge built σ
    have added := (sound.kept (.newEdge cfg built σ)).putEdge (inside_newEdge built σ)
      (by rw [read]; exact new _ List.mem_cons_self) (by rw [read]; exact fromNode) (by rw [read]; exact toNode)
    obtain ⟨τ, loaded, sound'⟩ := ih (i + 1) added distinct.2
      (fun edge member => by
        rw [mem_edges_putEdge, read, not_or]
        refine ⟨fun same => distinct.1 ?_, new edge (List.mem_cons_of_mem _ member)⟩
        rw [← same]
        exact List.mem_map.mpr ⟨edge, member, rfl⟩)
      (fun edge member => between edge (List.mem_cons_of_mem _ member))
    refine ⟨τ, ?_, sound'⟩
    rw [Storage.loadEdges, parsed]
    exact loaded

theorem Indexed.clear (cfg : StorageConfig) (σ : Storage) : σ.clear.Indexed cfg := by
  refine ⟨fun id => rfl, fun id ref found => ?_, fun source target id ref => ?_, fun id ref found => ?_, fun id => rfl⟩
  · cases found
  · constructor
    · intro found
      cases found
    · rintro ⟨found, _⟩
      cases found
  · cases found

theorem Sound.clear (sound : σ.Sound cfg) : σ.clear.Sound cfg := ⟨.clear cfg σ, sound.documents⟩

/-- The invariant that the operations carry from one to the next. -/
structure Valid (cfg : StorageConfig) (σ : Storage) : Prop extends σ.Sound cfg, σ.Consistent cfg

theorem Valid.load (valid : σ.Valid cfg) (readable : Bool) (fresh : Nat → Fresh) :
    (σ.load cfg readable fresh).1.Valid cfg := by
  rw [Storage.load]
  cases file : σ.saved with
  | none => exact { valid.toSound.save with vectors := valid.vectors }
  | some data =>
    dsimp only
    cases readable with
    | false => exact valid
    | true =>
      obtain ⟨nodes, edges, readNodes, readEdges, distinct, between⟩ := valid.documents data (.inl file)
      obtain ⟨τ, loadedNodes, soundNodes, sameEdges, present⟩ := Sound.loadNodes fresh readNodes 0 valid.toSound.clear
      have new : ∀ edge ∈ edges, edge.1 ∉ τ.edges.keys := fun edge member => by
        rw [sameEdges]
        exact List.not_mem_nil
      obtain ⟨υ, loadedEdges, sound⟩ := Sound.loadEdges fresh readEdges data.nodes.length soundNodes distinct new
        fun edge member => ⟨present _ (.inl (between edge member).1), present _ (.inl (between edge member).2)⟩
      rw [if_pos rfl, loadedNodes]
      dsimp only
      rw [loadedEdges]
      refine { sound with vectors := VectorStore.Within.rebuildIndex (fun node member => ?_) υ.vectorStore }
      obtain ⟨ref, inValues, rfl⟩ := List.mem_map.mp member
      obtain ⟨entry, inEntries, rfl⟩ := List.mem_map.mp inValues
      have found := OrderedDict.get?_eq_some.mpr inEntries
      rw [(sound.node_held entry.1 entry.2 found).2]
      exact OrderedDict.mem_keys.mpr ⟨entry.2, found⟩

theorem Valid.kept (valid : σ.Valid cfg) (kept : Kept cfg σ τ) : τ.Valid cfg :=
  { valid.toSound.kept kept with vectors := by rw [kept.vectorStore, kept.nodes]; exact valid.vectors }

/-- An object whose node is in the graph gets an embedding. -/
theorem Valid.setEmbedding (valid : σ.Valid cfg) (embedded : Ref × List ℚ)
    (present : (σ.node embedded.1).id ∈ σ.nodes.keys) : (σ.setEmbedding embedded).Valid cfg := by
  have kept : Kept cfg σ (σ.setNode embedded.1 { σ.node embedded.1 with embedding := some embedded.2 }) :=
    .setNode rfl rfl
  have sound := valid.toSound.kept kept
  refine { sound with vectors := ⟨fun id member => ?_, fun id member => ?_⟩ }
  · rcases OrderedDict.mem_keys_set.mp member with rfl | before
    · exact present
    · exact valid.vectors.embedded id before
  · exact OrderedDict.mem_keys_set.mpr (.inr (valid.vectors.listed id member))

theorem setEmbedding_node (embedded : Ref × List ℚ) {σ : Storage} {ref : Nat} (inside : ref < σ.nodeObjects.size) :
    ref < (σ.setEmbedding embedded).nodeObjects.size ∧ ((σ.setEmbedding embedded).node ref).id = (σ.node ref).id := by
  refine ⟨by rw [setEmbedding, setNode, Heap.size_write]; exact inside, ?_⟩
  by_cases here : embedded.1 = ref
  · obtain rfl := here
    have written : (σ.setEmbedding embedded).node embedded.1 = _ := Heap.read_write_self inside _
    rw [written]
  · have untouched : (σ.setEmbedding embedded).node ref = σ.node ref := Heap.read_write_of_ne here _
    rw [untouched]

theorem Valid.setEmbeddings (pairs : List (Ref × List ℚ)) {σ : Storage} (valid : σ.Valid cfg)
    (present : ∀ pair ∈ pairs, pair.1 < σ.nodeObjects.size ∧ (σ.node pair.1).id ∈ σ.nodes.keys) :
    (pairs.foldl Storage.setEmbedding σ).Valid cfg := by
  induction pairs generalizing σ with
  | nil => exact valid
  | cons pair pairs ih =>
    refine ih (valid.setEmbedding pair (present pair List.mem_cons_self).2) fun other member => ?_
    obtain ⟨inside, held⟩ := present other (List.mem_cons_of_mem _ member)
    obtain ⟨inside, sameId⟩ := setEmbedding_node pair inside
    rw [sameId]
    exact ⟨inside, held⟩

theorem Valid.updateNodesEmbeddings (valid : σ.Valid cfg) {refs : List Ref} (encoded : Option (List (List ℚ)))
    (present : ∀ ref ∈ refs, ref < σ.nodeObjects.size ∧ (σ.node ref).id ∈ σ.nodes.keys) :
    (σ.updateNodesEmbeddings refs encoded).Valid cfg := by
  cases encoded with
  | none => exact valid
  | some vectors =>
    rw [Storage.updateNodesEmbeddings]
    split
    · exact valid
    · have embedded := valid.setEmbeddings (refs.zip vectors) fun pair member => present _ (List.of_mem_zip member).1
      exact { embedded.toSound with vectors := .updateMatrix embedded.vectors.embedded }

theorem edgeObjects_setEmbeddings (pairs : List (Ref × List ℚ)) (σ : Storage) :
    (pairs.foldl Storage.setEmbedding σ).edgeObjects = σ.edgeObjects := by
  induction pairs generalizing σ with
  | nil => rfl
  | cons pair pairs ih => exact ih (σ.setEmbedding pair)

theorem edgeObjects_updateNodesEmbeddings (refs : List Ref) (encoded : Option (List (List ℚ))) (σ : Storage) :
    (σ.updateNodesEmbeddings refs encoded).edgeObjects = σ.edgeObjects := by
  cases encoded with
  | none => rfl
  | some vectors =>
    rw [updateNodesEmbeddings]
    split
    · rfl
    · exact edgeObjects_setEmbeddings _ σ

theorem Valid.putNode (valid : σ.Valid cfg) {ref : Ref} (inside : ref < σ.nodeObjects.size) :
    (σ.putNode cfg ref).Valid cfg :=
  { valid.toSound.putNode inside with
    vectors := ⟨fun id member => OrderedDict.mem_keys_set.mpr (.inr (valid.vectors.embedded id member)),
      valid.vectors.listed⟩ }

/-- The new nodes that the loop comes to are added; it stops before an id that is taken. -/
theorem Valid.addEach (refs : List Ref) {σ : Storage} (valid : σ.Valid cfg)
    (inside : ∀ ref ∈ refs, ref < σ.nodeObjects.size) :
    (σ.addEach cfg refs).1.Valid cfg ∧ (σ.addEach cfg refs).1.nodeObjects = σ.nodeObjects ∧
      (σ.addEach cfg refs).1.edgeObjects = σ.edgeObjects ∧
      (∀ id ∈ σ.nodes.keys, id ∈ (σ.addEach cfg refs).1.nodes.keys) ∧
      ((σ.addEach cfg refs).2 = none → ∀ ref ∈ refs, (σ.node ref).id ∈ (σ.addEach cfg refs).1.nodes.keys) := by
  induction refs generalizing σ with
  | nil => exact ⟨valid, rfl, rfl, fun _ here => here, fun _ _ member => by cases member⟩
  | cons ref refs ih =>
    rw [Storage.addEach]
    split
    · exact ⟨valid, rfl, rfl, fun _ here => here, fun ended => by cases ended⟩
    · obtain ⟨valid', nodeObjects, edgeObjects, kept, added⟩ := ih (valid.putNode (inside ref List.mem_cons_self))
        fun other member => inside other (List.mem_cons_of_mem _ member)
      refine ⟨valid', nodeObjects, edgeObjects, fun id here => kept id (mem_nodes_putNode.mpr (.inr here)),
        fun ended other member => ?_⟩
      rcases List.mem_cons.mp member with rfl | later
      · exact kept _ (mem_nodes_putNode.mpr (.inl rfl))
      · exact added ended other later

theorem nameToId_present {name id : String} (found : σ.nameToId.get? name = some id) : id ∈ σ.nodes.keys := by
  obtain ⟨entry, member, same⟩ := List.mem_map.mp (OrderedDict.mem_of_get?_ofList found)
  cases same
  exact List.mem_map_of_mem member

/-- What an end is resolved to is a node; an end that is a node stays as it is. -/
theorem resolve_spec {names : OrderedDict String String}
    (present : ∀ name id, names.get? name = some id → id ∈ σ.nodes.keys) {value id : String}
    (resolved : σ.resolve names value = some id) : id ∈ σ.nodes.keys ∧ (value ∈ σ.nodes.keys → id = value) := by
  rw [resolve] at resolved
  split at resolved
  · rename_i here
    cases resolved
    exact ⟨here, fun _ => rfl⟩
  · rename_i absent
    exact ⟨present value id resolved, fun here => absurd here absent⟩

/-- The ends of an edge object may be set to what they are resolved to: if the edge is in the graph
they stay as they are. -/
theorem Kept.relink (indexed : σ.Indexed cfg) {ref : Ref} {source target : String}
    (fromNode : (σ.edge ref).source ∈ σ.nodes.keys → source = (σ.edge ref).source)
    (toNode : (σ.edge ref).target ∈ σ.nodes.keys → target = (σ.edge ref).target) :
    Kept cfg σ (σ.setEdge ref { σ.edge ref with source, target }) := by
  refine .setEdge fun id found => ⟨rfl, ?_⟩
  obtain ⟨_, _, atSource, atTarget⟩ := indexed.edge_held id ref found
  exact ⟨fromNode atSource, toNode atTarget⟩

theorem edge_setEdge {ref : Ref} (inside : ref < σ.edgeObjects.size) (edge : Edge) :
    (σ.setEdge ref edge).edge ref = edge :=
  Heap.read_write_self inside edge

theorem Valid.putEdge (valid : σ.Valid cfg) {ref : Ref} (inside : ref < σ.edgeObjects.size)
    (new : (σ.edge ref).id ∉ σ.edges.keys) (fromNode : (σ.edge ref).source ∈ σ.nodes.keys)
    (toNode : (σ.edge ref).target ∈ σ.nodes.keys) : (σ.putEdge ref).Valid cfg :=
  { valid.toSound.putEdge inside new fromNode toNode with vectors := valid.vectors }

theorem Valid.linkEach (names : OrderedDict String String) (refs : List Ref) {σ : Storage} (valid : σ.Valid cfg)
    (inside : ∀ ref ∈ refs, ref < σ.edgeObjects.size)
    (present : ∀ name id, names.get? name = some id → id ∈ σ.nodes.keys) :
    (σ.linkEach cfg names refs).1.Valid cfg := by
  induction refs generalizing σ with
  | nil => exact valid
  | cons ref refs ih =>
    rw [Storage.linkEach]
    dsimp only
    split
    · exact valid
    · rename_i source resolvedSource
      split
      · exact valid
      · rename_i target resolvedTarget
        obtain ⟨fromNode, keptSource⟩ := resolve_spec present resolvedSource
        obtain ⟨toNode, keptTarget⟩ := resolve_spec present resolvedTarget
        have here := inside ref List.mem_cons_self
        have relinked := valid.kept (.relink valid.toIndexed keptSource keptTarget)
        have size : (σ.setEdge ref { σ.edge ref with source, target }).edgeObjects.size = σ.edgeObjects.size := by
          rw [setEdge, Heap.size_write]
        have read := edge_setEdge here { σ.edge ref with source, target }
        split
        · exact relinked
        · rename_i new
          split
          · exact relinked
          · refine ih (relinked.putEdge (by rw [size]; exact here) ?_ ?_ ?_) (fun other member => ?_) present
            · rw [read]
              exact new
            · rw [read]
              exact fromNode
            · rw [read]
              exact toNode
            · show other < (σ.setEdge ref _).edgeObjects.size
              rw [size]
              exact inside other (List.mem_cons_of_mem _ member)

theorem Valid.save (valid : σ.Valid cfg) : σ.save.Valid cfg :=
  { valid.toSound.save with vectors := valid.vectors }

theorem Valid.saveDone (valid : σ.Valid cfg) {landed : Bool} (done : σ.saveDone landed = some τ) : τ.Valid cfg := by
  rw [Storage.saveDone] at done
  split at done
  · cases done
  · rename_i data pending waiting
    cases done
    refine { valid.toIndexed, valid with documents := fun other known => ?_ }
    have queued {later : GraphData} (member : later = data ∨ later ∈ pending) : later.Valid cfg :=
      valid.documents later (.inr (by rw [waiting]; exact List.mem_cons.mpr member))
    rcases known with written | later
    · dsimp only at written
      split at written
      · cases written
        exact queued (.inl rfl)
      · exact valid.documents other (.inl written)
    · exact queued (.inr later)

theorem Valid.addNodes (valid : σ.Valid cfg) {nodes edges : List Ref} (encoded : Option (List (List ℚ)))
    (nodesInside : ∀ ref ∈ nodes, ref < σ.nodeObjects.size) (edgesInside : ∀ ref ∈ edges, ref < σ.edgeObjects.size) :
    (σ.addNodes cfg nodes edges encoded).1.Valid cfg := by
  obtain ⟨validAdded, nodeObjects, edgeObjects, _, added⟩ := valid.addEach nodes nodesInside
  rw [Storage.addNodes]
  split
  · rename_i τ id stopped
    rw [stopped] at validAdded
    exact validAdded
  · rename_i τ ended
    rw [ended] at validAdded nodeObjects edgeObjects added
    dsimp only at validAdded nodeObjects edgeObjects added
    have embedded := validAdded.updateNodesEmbeddings encoded fun ref member => by
      rw [show τ.node ref = σ.node ref from congrArg (Heap.read · ref) nodeObjects, nodeObjects]
      exact ⟨nodesInside ref member, added rfl ref member⟩
    have sameEdges : (τ.updateNodesEmbeddings nodes encoded).edgeObjects = σ.edgeObjects := by
      rw [edgeObjects_updateNodesEmbeddings, edgeObjects]
    have linked := embedded.save.linkEach _ edges
      (fun ref member => by
        rw [show (τ.updateNodesEmbeddings nodes encoded).save.edgeObjects = σ.edgeObjects from sameEdges]
        exact edgesInside ref member) fun name id => nameToId_present
    dsimp only
    split
    · rename_i υ message stopped
      rw [stopped] at linked
      exact linked
    · rename_i υ ended'
      rw [ended'] at linked
      exact linked.save

theorem Valid.setData (valid : σ.Valid cfg) {id : String} {ref : Ref} (found : σ.nodes.get? id = some ref) :
    ∃ graph, σ.graph.setData id ref = some graph ∧ ({ σ with graph } : Storage).Valid cfg := by
  obtain ⟨graph, set, indexed⟩ := valid.toIndexed.setData found
  exact ⟨graph, set, { indexed with documents := valid.documents, vectors := valid.vectors }⟩

theorem Valid.updateNode (valid : σ.Valid cfg) (id : String) (request : NodeUpdate) :
    (σ.updateNode cfg id request).1.Valid cfg := by
  rw [Storage.updateNode]
  split
  · exact valid
  · rename_i ref found
    dsimp only
    split
    · exact valid
    · rename_i validated _
      obtain ⟨inside, named⟩ := valid.node_held id ref found
      have sameId : (applyUpdate request.now (σ.node ref) validated).id = id := named
      have written : (σ.setNode ref (applyUpdate request.now (σ.node ref) validated)).node ref = _ :=
        Heap.read_write_self inside _
      have present : σ.graph.node? id = some (some ref) := by rw [valid.nodes_match, found, Option.map_some]
      have set := MultiDigraph.setData_of_node ref present
      have rewritten := valid.toIndexed.rewrite found sameId
      obtain ⟨graph, set', indexed⟩ := rewritten.setData found
      obtain rfl : graph = σ.graph.addNode id ref := Option.some.inj (set'.symm.trans set)
      rw [show (σ.setNode ref (applyUpdate request.now (σ.node ref) validated)).graph.setData id ref = some _ from set]
      dsimp only
      rw [written, named]
      have updated : Storage.Valid cfg _ :=
        { indexed with documents := valid.documents, vectors := valid.vectors }
      split
      · refine (updated.updateNodesEmbeddings _ fun other member => ?_).save
        rw [List.mem_singleton.mp member]
        constructor
        · show ref < (σ.nodeObjects.write ref _).size
          rw [Heap.size_write]
          exact inside
        · show ((σ.setNode ref _).node ref).id ∈ σ.nodes.keys
          rw [written, sameId]
          exact mem_nodes.mpr ⟨ref, found⟩
      · exact updated.save

theorem Valid.archiveNodes (archived : Bool) (nodes : List (String × Datetime)) {σ : Storage} (valid : σ.Valid cfg) :
    (σ.archiveNodes archived nodes).1.Valid cfg := by
  induction nodes generalizing σ with
  | nil => exact valid
  | cons pair nodes ih =>
    obtain ⟨id, now⟩ := pair
    rw [Storage.archiveNodes]
    split
    · exact ih valid
    · rename_i ref found
      split
      · exact ih valid
      · have kept : Kept cfg σ (σ.setNode ref { σ.node ref with archived, updatedAt := now }) := .setNode rfl rfl
        have changed := valid.kept kept
        obtain ⟨graph, set, marked⟩ := changed.setData found
        dsimp only
        rw [set]
        exact ih marked

theorem Valid.setNodesArchived (valid : σ.Valid cfg) (nodes : List (String × Datetime)) (archived : Bool) :
    (σ.setNodesArchived nodes archived).1.Valid cfg := by
  have looped := valid.archiveNodes archived nodes
  rw [Storage.setNodesArchived]
  split
  · rename_i τ error ended
    rw [ended] at looped
    exact looped
  · rename_i τ found changed ended
    rw [ended] at looped
    dsimp only
    split
    · exact looped.save
    · exact looped

theorem mem_edgesAt {id other : String} : other ∈ σ.edgesAt id ↔
    ∃ ref, σ.edges.get? other = some ref ∧ ((σ.edge ref).source = id ∨ (σ.edge ref).target = id) := by
  simp only [edgesAt, List.mem_map, List.mem_filter, decide_eq_true_eq, OrderedDict.get?_eq_some]
  constructor
  · rintro ⟨⟨key, ref⟩, ⟨member, atNode⟩, rfl⟩
    exact ⟨ref, member, atNode⟩
  · rintro ⟨ref, member, atNode⟩
    exact ⟨(other, ref), ⟨member, atNode⟩, rfl⟩

theorem nodup_edgesAt (id : String) (σ : Storage) : (σ.edgesAt id).Nodup :=
  (List.filter_sublist.map Prod.fst).nodup σ.edges.distinct

/-- The listed edges are removed, and nothing else changes in the map of edges. -/
theorem Sound.dropEdges (ids : List String) {σ : Storage} (sound : σ.Sound cfg) (distinct : ids.Nodup)
    (present : ∀ id ∈ ids, id ∈ σ.edges.keys) :
    ∃ τ, σ.dropEdges ids = (τ, none) ∧ τ.Sound cfg ∧ τ.nodes = σ.nodes ∧ τ.vectorStore = σ.vectorStore ∧
      (∀ ref, τ.edge ref = σ.edge ref) ∧
      ∀ id ref, τ.edges.get? id = some ref → σ.edges.get? id = some ref ∧ id ∉ ids := by
  induction ids generalizing σ with
  | nil => exact ⟨σ, rfl, sound, rfl, rfl, fun _ => rfl, fun id ref found => ⟨found, List.not_mem_nil⟩⟩
  | cons id ids ih =>
    obtain ⟨fresh, distinct⟩ := List.nodup_cons.mp distinct
    obtain ⟨ref, found⟩ := OrderedDict.mem_keys.mp (present id List.mem_cons_self)
    obtain ⟨graph, removed, indexed⟩ := sound.toIndexed.removeEdge found
    have dropped : ({ σ with graph, edges := σ.edges.erase id } : Storage).Sound cfg :=
      ⟨indexed, sound.documents⟩
    obtain ⟨τ, taken, sound', nodes, vectors, objects, rest⟩ := ih dropped distinct fun other member =>
      OrderedDict.mem_keys_erase.mpr ⟨fun same => fresh (same ▸ member), present other (List.mem_cons_of_mem _ member)⟩
    refine ⟨τ, ?_, sound', nodes, vectors, objects, fun other held kept => ?_⟩
    · rw [Storage.dropEdges, found]
      dsimp only
      rw [removed]
      exact taken
    · obtain ⟨before, outside⟩ := rest other held kept
      dsimp only at before
      rw [OrderedDict.get?_erase] at before
      split at before
      · cases before
      · rename_i differ
        exact ⟨before, by rw [List.mem_cons, not_or]; exact ⟨differ, outside⟩⟩

/-- A node is removed with its edges, and the other nodes stay. -/
theorem Sound.dropNode (sound : σ.Sound cfg) {id : String} (present : id ∈ σ.nodes.keys) :
    ∃ τ, σ.dropNode id = (τ, none) ∧ τ.Sound cfg ∧ τ.vectorStore = σ.vectorStore ∧
      ∀ other ∈ σ.nodes.keys, other ≠ id → other ∈ τ.nodes.keys := by
  obtain ⟨τ, dropped, sound', nodes, vectors, objects, rest⟩ := sound.dropEdges (σ.edgesAt id) (nodup_edgesAt id σ)
    fun other member => by
      obtain ⟨ref, found, _⟩ := mem_edgesAt.mp member
      exact OrderedDict.mem_keys.mpr ⟨ref, found⟩
  have apart : ∀ other ref, τ.edges.get? other = some ref → (τ.edge ref).source ≠ id ∧ (τ.edge ref).target ≠ id := by
    intro other ref found
    obtain ⟨before, outside⟩ := rest other ref found
    rw [mem_edgesAt] at outside
    rw [objects]
    exact not_or.mp fun atNode => outside ⟨ref, before, atNode⟩
  obtain ⟨graph, removed, indexed⟩ := sound'.toIndexed.removeNode (by rw [nodes]; exact present) apart
  refine ⟨{ τ with graph, nodes := τ.nodes.erase id, searchableText := τ.searchableText.erase id }, ?_,
    ⟨indexed, sound'.documents⟩, vectors, fun other here differ => ?_⟩
  · rw [Storage.dropNode, dropped]
    dsimp only
    rw [removed]
  · refine OrderedDict.mem_keys_erase.mpr ⟨differ, ?_⟩
    rw [nodes]
    exact here

/-- The loop of a deletion comes to its end, and a node that it did not delete is still there. -/
theorem Sound.deleteEach (ids : List String) {σ : Storage} (sound : σ.Sound cfg) :
    ∃ τ deleted, σ.deleteEach ids = (τ, .ok deleted) ∧ τ.Sound cfg ∧ τ.vectorStore = σ.vectorStore ∧
      ∀ id ∈ σ.nodes.keys, id ∉ deleted.map Prod.fst → id ∈ τ.nodes.keys := by
  induction ids generalizing σ with
  | nil => exact ⟨σ, [], rfl, sound, rfl, fun _ here _ => here⟩
  | cons id ids ih =>
    by_cases present : id ∈ σ.nodes.keys
    · obtain ⟨τ, dropped, sound', vectors, others⟩ := sound.dropNode present
      obtain ⟨υ, deleted, rest, sound'', vectors', kept⟩ := ih sound'
      refine ⟨υ, (id, σ.edgesAt id) :: deleted, ?_, sound'', vectors'.trans vectors, fun other here outside => ?_⟩
      · rw [Storage.deleteEach, if_pos present, dropped]
        dsimp only
        rw [rest]
        rfl
      · rw [List.map_cons, List.mem_cons, not_or] at outside
        exact kept other (others other here outside.1) outside.2
    · obtain ⟨υ, deleted, rest, sound', vectors, kept⟩ := ih sound
      refine ⟨υ, deleted, ?_, sound', vectors, kept⟩
      rw [Storage.deleteEach, if_neg present, rest]

theorem Valid.deleteNodes (valid : σ.Valid cfg) (ids : List String) (confirmed : Bool) :
    (σ.deleteNodes cfg ids confirmed).1.Valid cfg := by
  obtain ⟨τ, deleted, looped, sound, vectors, kept⟩ := valid.toSound.deleteEach ids
  have removed : ({ τ with vectorStore := (τ.vectorStore.removeNodesEmbeddings (deleted.map Prod.fst)).1 } :
      Storage).Valid cfg :=
    { sound with vectors := by rw [vectors]; exact valid.vectors.removeNodesEmbeddings kept }
  rw [Storage.deleteNodes]
  dsimp only
  split
  · exact valid
  · split
    · exact valid
    · rw [looped]
      dsimp only
      split
      · exact removed.save
      · exact removed

theorem Valid.updateEdge (valid : σ.Valid cfg) (id : String) (updates : Dict Json) :
    (σ.updateEdge cfg id updates).1.Valid cfg := by
  rw [Storage.updateEdge]
  split
  · exact valid
  · rename_i ref found
    dsimp only
    split
    · exact valid
    · rename_i validated _
      split
      · exact valid
      · have kept : Kept cfg σ (σ.setEdge ref { σ.edge ref with
            type := validated.type, label := validated.label, metadata := validated.metadata }) :=
          .setEdge fun _ _ => ⟨rfl, rfl, rfl⟩
        exact (valid.kept kept).save

theorem Valid.archiveEdges (archived : Bool) (ids : List String) {σ : Storage} (valid : σ.Valid cfg) :
    (σ.archiveEdges archived ids).1.Valid cfg := by
  induction ids generalizing σ with
  | nil => exact valid
  | cons id ids ih =>
    rw [Storage.archiveEdges]
    split
    · exact ih valid
    · split
      · exact ih valid
      · exact ih (valid.kept (.setEdge fun _ _ => ⟨rfl, rfl, rfl⟩))

theorem Valid.setEdgesArchived (valid : σ.Valid cfg) (ids : List String) (archived : Bool) :
    (σ.setEdgesArchived ids archived).1.Valid cfg := by
  have looped := valid.archiveEdges archived ids
  rw [Storage.setEdgesArchived]
  dsimp only
  split
  · exact looped.save
  · exact looped

theorem Valid.dropEdge (valid : σ.Valid cfg) {id : String} {ref : Ref} (found : σ.edges.get? id = some ref) :
    (σ.dropEdge id ref).Valid cfg := by
  obtain ⟨graph, removed, indexed⟩ := valid.toIndexed.removeEdge found
  have taken : σ.dropEdge id ref = { σ with graph, edges := σ.edges.erase id } := by
    simp only [Storage.dropEdge, removed, Option.getD_some]
  rw [taken]
  exact { indexed with documents := valid.documents, vectors := valid.vectors }

theorem Valid.deleteEdge (valid : σ.Valid cfg) (id : String) : (σ.deleteEdge id).1.Valid cfg := by
  rw [Storage.deleteEdge]
  split
  · exact valid
  · rename_i ref found
    exact (valid.dropEdge found).save

theorem Valid.deleteEachEdge (ids : List String) {σ : Storage} (valid : σ.Valid cfg) :
    (σ.deleteEachEdge ids).1.Valid cfg := by
  induction ids generalizing σ with
  | nil => exact valid
  | cons id ids ih =>
    rw [Storage.deleteEachEdge]
    split
    · exact ih valid
    · rename_i ref found
      exact ih (valid.dropEdge found)

theorem Valid.addEdge (valid : σ.Valid cfg) {ref : Ref} (inside : ref < σ.edgeObjects.size) :
    (σ.addEdge cfg ref).1.Valid cfg := by
  rw [Storage.addEdge]
  split
  · exact valid
  · rename_i source resolvedSource
    obtain ⟨fromNode, keptSource⟩ := resolve_spec (fun name id => nameToId_present) resolvedSource
    have linked : (σ.setEdge ref { σ.edge ref with source }).Valid cfg :=
      valid.kept (.relink valid.toIndexed keptSource fun _ => rfl)
    have atSource : ((σ.setEdge ref { σ.edge ref with source }).edge ref).source ∈
        (σ.setEdge ref { σ.edge ref with source }).nodes.keys := by
      rw [edge_setEdge inside]
      exact fromNode
    have size : (σ.setEdge ref { σ.edge ref with source }).edgeObjects.size = σ.edgeObjects.size := by
      rw [setEdge, Heap.size_write]
    have inside' := inside
    rw [← size] at inside'
    generalize σ.setEdge ref { σ.edge ref with source } = τ at *
    dsimp only
    split
    · exact linked
    · rename_i target resolvedTarget
      obtain ⟨toNode, keptTarget⟩ := resolve_spec (fun name id => nameToId_present) resolvedTarget
      have relinked : (τ.setEdge ref { τ.edge ref with target }).Valid cfg :=
        linked.kept (.relink linked.toIndexed (fun _ => rfl) keptTarget)
      have readTarget := edge_setEdge inside' { τ.edge ref with target }
      split
      · exact relinked
      · rename_i new
        split
        · exact relinked
        · refine (relinked.putEdge ?_ new ?_ ?_).save
          · rw [setEdge, Heap.size_write]
            exact inside'
          · rw [readTarget]
            exact atSource
          · rw [readTarget]
            exact toNode

/-- Every action of the storage keeps the invariant. -/
theorem Valid.step (valid : σ.Valid cfg) {action : Action} {reply : Reply}
    (stepped : σ.step cfg action = some (τ, reply)) : τ.Valid cfg := by
  cases action with
  | newNode node =>
    obtain rfl := congrArg Prod.fst (Option.some.inj stepped)
    exact valid.kept (.newNode cfg node σ)
  | newEdge edge =>
    obtain rfl := congrArg Prod.fst (Option.some.inj stepped)
    exact valid.kept (.newEdge cfg edge σ)
  | saveDone landed =>
    obtain ⟨after, done, same⟩ := Option.map_eq_some_iff.mp stepped
    cases same
    exact valid.saveDone done
  | load readable fresh =>
    obtain rfl := congrArg Prod.fst (Option.some.inj stepped)
    exact valid.load readable fresh
  | addNodes nodes edges encoded =>
    rw [Storage.step] at stepped
    split at stepped
    · rename_i inside
      obtain rfl := congrArg Prod.fst (Option.some.inj stepped)
      exact valid.addNodes encoded inside.1 inside.2
    · cases stepped
  | updateNode id request =>
    obtain rfl := congrArg Prod.fst (Option.some.inj stepped)
    exact valid.updateNode id request
  | setNodesArchived nodes archived =>
    obtain rfl := congrArg Prod.fst (Option.some.inj stepped)
    exact valid.setNodesArchived nodes archived
  | deleteNodes ids confirmed =>
    obtain rfl := congrArg Prod.fst (Option.some.inj stepped)
    exact valid.deleteNodes ids confirmed
  | updateEdge id updates =>
    obtain rfl := congrArg Prod.fst (Option.some.inj stepped)
    exact valid.updateEdge id updates
  | setEdgesArchived ids archived =>
    obtain rfl := congrArg Prod.fst (Option.some.inj stepped)
    exact valid.setEdgesArchived ids archived
  | deleteEdge id =>
    obtain rfl := congrArg Prod.fst (Option.some.inj stepped)
    exact valid.deleteEdge id
  | deleteEdges ids =>
    obtain rfl := congrArg Prod.fst (Option.some.inj stepped)
    exact (valid.deleteEachEdge ids).save
  | addEdge edge =>
    rw [Storage.step] at stepped
    split at stepped
    · rename_i inside
      obtain rfl := congrArg Prod.fst (Option.some.inj stepped)
      exact valid.addEdge inside
    · cases stepped

theorem Valid.initial {disk : Option GraphData} (valid : ∀ data, disk = some data → data.Valid cfg) :
    ({ saved := disk } : Storage).Valid cfg := by
  refine { Indexed.clear cfg { saved := disk } with documents := ?_, vectors := ⟨fun id member => ?_, fun id member => ?_⟩ }
  · rintro data (file | waiting)
    · exact valid data file
    · cases waiting
  · cases member
  · cases member

/-- The representation invariant holds in every state that the operations of the storage reach, in
any order, from no graph file or a valid one. -/
theorem representation_kept {disk : Option GraphData} (valid : ∀ data, disk = some data → data.Valid cfg)
    {history : List (Action × Reply)} (run : Run (step cfg) (fun _ _ _ => True) { saved := disk } history σ) :
    σ.Consistent cfg :=
  have kept : σ.Valid cfg := run.invariant (fun _ σ => σ.Valid cfg) (.initial valid) fun valid _ stepped =>
    valid.step stepped
  kept.toConsistent

end Storage

def sampleReaders : Readers where
  fromisoformat text := if spelled : text.endsWith "Z" = false then some ⟨text, spelled⟩ else none
  replaceNaive d := d
  coerceDatetime _ := none
  coerceBool
    | .bool b => some b
    | _ => none
  coerceFloat
    | .num q => some q
    | _ => none
  isoformat_read d := by rw [dif_pos d.spelled]; rfl
  bool_kept _ := rfl
  num_kept _ := rfl

def sampleConfig : StorageConfig where
  readers := sampleReaders
  lower text := .ofList (text.toList.map Char.toLower)
  typeSearchableText := .of [("Actor", "actor organisation")]
  relationshipTypes := .of [("PRODUCES", { sourceTypes := ["Actor"] })]
  sameInstant a b := a.isoformat = b.isoformat
  coerceDict _ := none
  errorText _ := "error"

/-- An actor of this id and name. -/
def sampleActor (id name : String) (short : FieldLimits name "" "" [] [] := by decide +kernel) : Node :=
  { id, typeName := "Actor", name, createdAt := epoch, updatedAt := epoch, limits := short }

/-- A graph file with one actor. -/
def sampleFile : GraphData := { nodes := [(sampleActor "a" "Office").toDict] }

theorem sampleFile_valid : sampleFile.Valid sampleConfig := by
  refine ⟨["a"], [], .cons (fun fresh => ?_) .nil, .nil, List.nodup_nil, fun _ member => by cases member⟩
  obtain ⟨created, updated, read⟩ := Node.fromDict_toDict sampleReaders fresh (sampleActor "a" "Office")
  exact ⟨_, read, rfl⟩

/-- A graph is loaded, an actor and an edge are added, the edge by the name of its source, an actor is
renamed, and a third comes and goes with its edge. -/
theorem Storage.representation_kept_sample :
    ∃ history τ, Run (Storage.step sampleConfig) (fun _ _ _ => True) { saved := some sampleFile } history τ ∧
      (τ.nodes.keys, τ.edges.keys, τ.searchableText.get? "a") =
        (["a", "b"], ["e"], some "bureau      nodetype.actor") ∧ τ.Consistent sampleConfig := by
  have observed : (leadsTo (Storage.step sampleConfig) { saved := some sampleFile } [
      .load true fun _ => ⟨"fresh", epoch⟩,
      .newNode (sampleActor "b" "Agency"), .newEdge { id := "e", source := "Office", target := "b", createdAt := epoch },
      .addNodes [1] [0] (some [[1, 0]]),
      .updateNode "a" { updates := .of [("name", .str "Bureau")], now := epoch, encoded := some [0, 1] },
      .newNode (sampleActor "c" "Board"), .newEdge { id := "f", source := "c", target := "a", createdAt := epoch },
      .addNodes [2] [1] none, .saveDone true, .deleteNodes ["c"] true]).map
        (fun τ => (τ.nodes.keys, τ.edges.keys, τ.searchableText.get? "a")) =
      some (["a", "b"], ["e"], some "bureau      nodetype.actor") := by
    decide +kernel
  obtain ⟨τ, taken, same⟩ := Option.map_eq_some_iff.mp observed
  obtain ⟨history, run⟩ := Run.of_leadsTo taken
  refine ⟨history, τ, run, same, Storage.representation_kept (fun data file => ?_) run⟩
  cases file
  exact sampleFile_valid

end MetadataGraph.Graph
