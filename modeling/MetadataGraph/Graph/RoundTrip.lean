import MetadataGraph.Graph.Atomicity

namespace MetadataGraph.Graph

open ObjectHeap Runs

/-- A datetime with a time zone: reading its text again does not have to assume one. -/
def Datetime.Aware (r : Readers) (d : Datetime) : Prop := r.replaceNaive d = d

/-- A node as it is read from its own dict. -/
def Node.reread (r : Readers) (node : Node) : Node :=
  { node with createdAt := r.replaceNaive node.createdAt, updatedAt := r.replaceNaive node.updatedAt }

/-- An edge as it is read from its own dict. -/
def Edge.reread (r : Readers) (edge : Edge) : Edge := { edge with createdAt := r.replaceNaive edge.createdAt }

/-- `fromisoformat` reads what `isoformat` writes. -/
def Readers.Inverse (r : Readers) : Prop := ∀ d : Datetime, r.fromisoformat d.isoformat = some d

theorem Readers.Inverse.parse {r : Readers} (inverse : r.Inverse) (d : Datetime) :
    r.parseDatetime d.isoformat = some (r.replaceNaive d) := by
  simp only [parseDatetime, d.spelled, Bool.false_eq_true, if_false, inverse d, Option.map_some]

theorem Readers.Inverse.node {r : Readers} (inverse : r.Inverse) (fresh : Fresh) (node : Node) :
    Node.fromDict r fresh node.toDict = some (node.reread r) :=
  Node.fromDict_of_parsed fresh (inverse.parse node.createdAt) (inverse.parse node.updatedAt)

theorem Readers.Inverse.edge {r : Readers} (inverse : r.Inverse) (fresh : Fresh) (edge : Edge) :
    Edge.fromDict r fresh edge.toDict = some (edge.reread r) :=
  Edge.fromDict_of_parsed fresh (inverse.parse edge.createdAt)

theorem Node.reread_eq_iff {r : Readers} {node : Node} :
    node.reread r = node ↔ node.createdAt.Aware r ∧ node.updatedAt.Aware r := by
  constructor
  · exact fun same => ⟨congrArg Node.createdAt same, congrArg Node.updatedAt same⟩
  · rintro ⟨created, updated⟩
    rw [reread, show r.replaceNaive node.createdAt = _ from created, show r.replaceNaive node.updatedAt = _ from updated]

theorem Edge.reread_eq_iff {r : Readers} {edge : Edge} : edge.reread r = edge ↔ edge.createdAt.Aware r := by
  constructor
  · exact fun same => congrArg Edge.createdAt same
  · intro created
    rw [reread, show r.replaceNaive edge.createdAt = _ from created]

namespace Storage

variable {cfg : StorageConfig} {σ τ : Storage}

/-- The nodes with their ids, in their order. -/
def nodeItems (σ : Storage) : List (String × Node) := σ.nodes.entries.map fun entry => (entry.1, σ.node entry.2)

/-- The edges with their ids, in their order. -/
def edgeItems (σ : Storage) : List (String × Edge) := σ.edges.entries.map fun entry => (entry.1, σ.edge entry.2)

/-- `flush`: the writes of the worker are done, and all of them reach the file. -/
def flush (σ : Storage) : Storage := { σ with saved := σ.pending.getLast?.or σ.saved, pending := [] }

theorem saved_flush_save (σ : Storage) : σ.save.flush.saved = some σ.data := by
  simp only [flush, save, List.getLast?_concat, Option.some_or]

/-- Saving the graph and loading it, here or elsewhere, succeeds and gives the same nodes and edges. -/
def RoundTrips (cfg : StorageConfig) (σ : Storage) : Prop :=
  ∀ (τ : Storage) fresh, τ.saved = σ.save.flush.saved → (τ.load cfg true fresh).2 = true ∧
    (τ.load cfg true fresh).1.nodeItems = σ.nodeItems ∧ (τ.load cfg true fresh).1.edgeItems = σ.edgeItems

/-- The embeddings of the nodes have one length. -/
def Level (σ : Storage) : Prop :=
  ∀ a ∈ σ.nodeItems, ∀ b ∈ σ.nodeItems, ∀ v w, a.2.embedding = some v → b.2.embedding = some w → v.length = w.length

/-- Every datetime of the graph has a time zone. -/
def AllAware (cfg : StorageConfig) (σ : Storage) : Prop :=
  (∀ item ∈ σ.nodeItems, item.2.createdAt.Aware cfg.readers ∧ item.2.updatedAt.Aware cfg.readers) ∧
    ∀ item ∈ σ.edgeItems, item.2.createdAt.Aware cfg.readers

/-- The objects of the maps exist. -/
structure Held (σ : Storage) : Prop where
  node : ∀ entry ∈ σ.nodes.entries, entry.2 < σ.nodeObjects.size
  edge : ∀ entry ∈ σ.edges.entries, entry.2 < σ.edgeObjects.size

/-- A new node object comes last. -/
theorem nodeItems_putNode (held : σ.Held) {node : Node} (new : node.id ∉ σ.nodes.keys) :
    ((σ.newNode node).putNode cfg σ.nodeObjects.size).nodeItems = σ.nodeItems ++ [(node.id, node)] := by
  have read := node_newNode node σ
  have entries : ((σ.newNode node).putNode cfg σ.nodeObjects.size).nodes.entries =
      σ.nodes.entries ++ [(node.id, σ.nodeObjects.size)] := by
    rw [putNode, read]
    exact OrderedDict.entries_set_of_notMem new _
  rw [nodeItems, entries, List.map_append, List.map_singleton]
  congr 1
  · refine List.map_congr_left fun entry member => ?_
    exact congrArg (Prod.mk entry.1) (Heap.read_allocAll_of_lt (held.node entry member) [node])
  · exact congrArg (fun node' => [(node.id, node')]) read

theorem held_putNode (held : σ.Held) {node : Node} (new : node.id ∉ σ.nodes.keys) :
    ((σ.newNode node).putNode cfg σ.nodeObjects.size).Held := by
  have entries : ((σ.newNode node).putNode cfg σ.nodeObjects.size).nodes.entries =
      σ.nodes.entries ++ [(node.id, σ.nodeObjects.size)] := by
    rw [putNode, node_newNode]
    exact OrderedDict.entries_set_of_notMem new _
  refine ⟨fun entry member => ?_, held.edge⟩
  have larger := inside_newNode node σ
  rw [entries, List.mem_append, List.mem_singleton] at member
  rcases member with before | rfl
  · exact (held.node entry before).trans larger
  · exact larger

/-- A new edge object comes last. -/
theorem edgeItems_putEdge (held : σ.Held) {edge : Edge} (new : edge.id ∉ σ.edges.keys) :
    ((σ.newEdge edge).putEdge σ.edgeObjects.size).edgeItems = σ.edgeItems ++ [(edge.id, edge)] := by
  have read := edge_newEdge edge σ
  have entries : ((σ.newEdge edge).putEdge σ.edgeObjects.size).edges.entries =
      σ.edges.entries ++ [(edge.id, σ.edgeObjects.size)] := by
    rw [putEdge, read]
    exact OrderedDict.entries_set_of_notMem new _
  rw [edgeItems, entries, List.map_append, List.map_singleton]
  congr 1
  · refine List.map_congr_left fun entry member => ?_
    exact congrArg (Prod.mk entry.1) (Heap.read_allocAll_of_lt (held.edge entry member) [edge])
  · exact congrArg (fun edge' => [(edge.id, edge')]) read

theorem held_putEdge (held : σ.Held) {edge : Edge} (new : edge.id ∉ σ.edges.keys) :
    ((σ.newEdge edge).putEdge σ.edgeObjects.size).Held := by
  have entries : ((σ.newEdge edge).putEdge σ.edgeObjects.size).edges.entries =
      σ.edges.entries ++ [(edge.id, σ.edgeObjects.size)] := by
    rw [putEdge, edge_newEdge]
    exact OrderedDict.entries_set_of_notMem new _
  refine ⟨held.node, fun entry member => ?_⟩
  have larger := inside_newEdge edge σ
  rw [entries, List.mem_append, List.mem_singleton] at member
  rcases member with before | rfl
  · exact (held.edge entry before).trans larger
  · exact larger

theorem loadNodes_dicts (inverse : cfg.readers.Inverse) (fresh : Nat → Fresh) {nodes : List Node} (i : Nat) {σ : Storage}
    (held : σ.Held) (new : New (nodes.map Node.id) σ.nodes.keys) :
    ∃ τ, σ.loadNodes cfg fresh i (nodes.map Node.toDict) = (τ, true) ∧ τ.Held ∧ τ.edges = σ.edges ∧
      τ.edgeItems = σ.edgeItems ∧
        τ.nodeItems = σ.nodeItems ++ nodes.map fun node => (node.id, node.reread cfg.readers) := by
  induction nodes generalizing i σ with
  | nil => exact ⟨σ, rfl, held, rfl, rfl, (List.append_nil _).symm⟩
  | cons node nodes ih =>
    obtain ⟨first, apart, rest⟩ := new_cons.mp new
    have first' : (node.reread cfg.readers).id ∉ σ.nodes.keys := first
    have next : New (nodes.map Node.id) ((σ.newNode (node.reread cfg.readers)).putNode cfg σ.nodeObjects.size).nodes.keys := by
      refine (new_of_set fun other => ?_).mpr ⟨apart, rest⟩
      rw [mem_keys_putNode, node_newNode]
      exact Iff.rfl
    obtain ⟨τ, loaded, heldAfter, edges, edgeItems, items⟩ := ih (i + 1) (held_putNode held first') next
    refine ⟨τ, ?_, heldAfter, edges, edgeItems, ?_⟩
    · rw [List.map_cons, loadNodes, inverse.node]
      exact loaded
    · rw [items, nodeItems_putNode held first', List.append_assoc]
      rfl

theorem loadEdges_dicts (inverse : cfg.readers.Inverse) (fresh : Nat → Fresh) {edges : List Edge} (i : Nat) {σ : Storage}
    (held : σ.Held) (new : New (edges.map Edge.id) σ.edges.keys) :
    ∃ τ, σ.loadEdges cfg fresh i (edges.map Edge.toDict) = (τ, true) ∧ τ.nodeItems = σ.nodeItems ∧
      τ.nodes = σ.nodes ∧ τ.nodeObjects = σ.nodeObjects ∧
        τ.edgeItems = σ.edgeItems ++ edges.map fun edge => (edge.id, edge.reread cfg.readers) := by
  induction edges generalizing i σ with
  | nil => exact ⟨σ, rfl, rfl, rfl, rfl, (List.append_nil _).symm⟩
  | cons edge edges ih =>
    obtain ⟨first, apart, rest⟩ := new_cons.mp new
    have first' : (edge.reread cfg.readers).id ∉ σ.edges.keys := first
    have next : New (edges.map Edge.id) ((σ.newEdge (edge.reread cfg.readers)).putEdge σ.edgeObjects.size).edges.keys := by
      refine (new_of_set fun other => ?_).mpr ⟨apart, rest⟩
      rw [putEdge, edge_newEdge]
      exact OrderedDict.mem_keys_set
    obtain ⟨τ, loaded, nodeItems, nodes, objects, items⟩ := ih (i + 1) (held_putEdge held first') next
    refine ⟨τ, ?_, nodeItems, nodes, objects, ?_⟩
    · rw [List.map_cons, loadEdges, inverse.edge]
      exact loaded
    · rw [items, edgeItems_putEdge held first', List.append_assoc]
      rfl

/-- The rows of an index that is built from nodes with different ids. -/
theorem mem_values_indexNodes {nodes : List Node} {embeddings : OrderedDict String (List ℚ)} {row : List ℚ}
    (new : New (nodes.map Node.id) embeddings.keys) :
    row ∈ (nodes.foldl VectorStore.indexNode embeddings).values ↔
      row ∈ embeddings.values ∨ ∃ node ∈ nodes, node.embedding = some row := by
  induction nodes generalizing embeddings with
  | nil => exact ⟨.inl, fun either => either.resolve_right fun ⟨_, no, _⟩ => (nomatch no)⟩
  | cons node nodes ih =>
    obtain ⟨first, apart, rest⟩ := new_cons.mp new
    rw [List.foldl_cons]
    cases embedded : node.embedding with
    | none =>
      have same : VectorStore.indexNode embeddings node = embeddings := by rw [VectorStore.indexNode, embedded]
      rw [same, ih rest, List.exists_mem_cons_iff, embedded]
      simp only [reduceCtorEq, false_or]
    | some vector =>
      have set : VectorStore.indexNode embeddings node = embeddings.set node.id vector := by
        rw [VectorStore.indexNode, embedded]
      have next : New (nodes.map Node.id) (embeddings.set node.id vector).keys :=
        (new_of_set fun _ => OrderedDict.mem_keys_set).mpr ⟨apart, rest⟩
      have values : (embeddings.set node.id vector).values = embeddings.values ++ [vector] := by
        rw [OrderedDict.values, OrderedDict.entries_set_of_notMem first, List.map_append]
        rfl
      rw [set, ih next, values, List.mem_append, List.mem_singleton, List.exists_mem_cons_iff, embedded, or_assoc,
        Option.some.injEq, eq_comm]

/-- An index can be built from nodes exactly if their embeddings have one length. -/
theorem rebuildIndex_ok_iff {nodes : List Node} (distinct : (nodes.map Node.id).Nodup) (v : VectorStore) :
    (v.rebuildIndex nodes).2 = true ↔
      ∀ a ∈ nodes, ∀ b ∈ nodes, ∀ x y, a.embedding = some x → b.embedding = some y → x.length = y.length := by
  have rows : ∀ row, row ∈ (nodes.foldl VectorStore.indexNode {}).values ↔ ∃ node ∈ nodes, node.embedding = some row := by
    intro row
    have none : New (nodes.map Node.id) ({} : OrderedDict String (List ℚ)).keys := ⟨distinct, fun _ _ no => (nomatch no)⟩
    rw [mem_values_indexNodes none]
    exact or_iff_right fun no => (nomatch no)
  rw [VectorStore.rebuildIndex, updateMatrix_ok_iff]
  simp only [rows]
  constructor
  · exact fun level a inA b inB x y ofA ofB => level x ⟨a, inA, ofA⟩ y ⟨b, inB, ofB⟩
  · rintro level x ⟨a, inA, ofA⟩ y ⟨b, inB, ofB⟩
    exact level a inA b inB x y ofA ofB

theorem Valid.nodeItems_id (valid : σ.Valid cfg) {item : String × Node} (member : item ∈ σ.nodeItems) :
    item.2.id = item.1 := by
  obtain ⟨entry, held, rfl⟩ := List.mem_map.mp member
  exact (valid.node_held entry.1 entry.2 (OrderedDict.get?_eq_some.mpr held)).2

theorem Valid.edgeItems_id (valid : σ.Valid cfg) {item : String × Edge} (member : item ∈ σ.edgeItems) :
    item.2.id = item.1 := by
  obtain ⟨entry, held, rfl⟩ := List.mem_map.mp member
  exact (valid.edge_held entry.1 entry.2 (OrderedDict.get?_eq_some.mpr held)).2.1

theorem Valid.nodeIds (valid : σ.Valid cfg) : (σ.nodeItems.map Prod.snd).map Node.id = σ.nodes.keys := by
  have keys : σ.nodeItems.map Prod.fst = σ.nodes.keys := by
    rw [nodeItems, List.map_map]
    rfl
  rw [← keys, List.map_map]
  exact List.map_congr_left fun item member => valid.nodeItems_id member

theorem Valid.edgeIds (valid : σ.Valid cfg) : (σ.edgeItems.map Prod.snd).map Edge.id = σ.edges.keys := by
  have keys : σ.edgeItems.map Prod.fst = σ.edges.keys := by
    rw [edgeItems, List.map_map]
    rfl
  rw [← keys, List.map_map]
  exact List.map_congr_left fun item member => valid.edgeItems_id member

/-- What comes back when a saved graph is loaded, and when the load comes to its end. -/
theorem Valid.load_data (valid : σ.Valid cfg) (inverse : cfg.readers.Inverse) (fresh : Nat → Fresh)
    (saved : τ.saved = some σ.data) :
    ((τ.load cfg true fresh).2 = true ↔ σ.Level) ∧
      (τ.load cfg true fresh).1.nodeItems = σ.nodeItems.map (fun item => (item.1, item.2.reread cfg.readers)) ∧
        (τ.load cfg true fresh).1.edgeItems = σ.edgeItems.map fun item => (item.1, item.2.reread cfg.readers) := by
  let nodes := σ.nodeItems.map Prod.snd
  let edges := σ.edgeItems.map Prod.snd
  have dicts : σ.data = ⟨nodes.map Node.toDict, edges.map Edge.toDict⟩ := by
    simp only [nodes, edges, data, nodeItems, edgeItems, OrderedDict.values, List.map_map]
    rfl
  have cleared : τ.clear.Held := ⟨fun _ no => (by cases no), fun _ no => (by cases no)⟩
  have newNodes : New (nodes.map Node.id) τ.clear.nodes.keys :=
    ⟨by rw [valid.nodeIds]; exact σ.nodes.distinct, fun _ _ no => (by cases no)⟩
  obtain ⟨υ, loadedNodes, held, sameEdges, noEdges, nodeItems⟩ := loadNodes_dicts inverse fresh 0 cleared newNodes
  have newEdges : New (edges.map Edge.id) υ.edges.keys :=
    ⟨by rw [valid.edgeIds]; exact σ.edges.distinct, fun _ _ here => by rw [sameEdges] at here; cases here⟩
  obtain ⟨ω, loadedEdges, sameItems, _, _, edgeItems⟩ := loadEdges_dicts inverse fresh nodes.length held newEdges
  have loaded : τ.load cfg true fresh =
      ({ ω with vectorStore := (ω.vectorStore.rebuildIndex (ω.nodes.values.map ω.node)).1 },
        (ω.vectorStore.rebuildIndex (ω.nodes.values.map ω.node)).2) := by
    rw [Storage.load, saved, dicts]
    dsimp only
    rw [if_pos rfl, loadedNodes]
    dsimp only
    rw [List.length_map, loadedEdges]
  have items : ω.nodeItems = nodes.map fun node => (node.id, node.reread cfg.readers) :=
    sameItems.trans (nodeItems.trans (List.nil_append _))
  have sameEdgeItems : ω.edgeItems = edges.map fun edge => (edge.id, edge.reread cfg.readers) :=
    edgeItems.trans (by rw [noEdges]; exact List.nil_append _)
  have reread : ω.nodes.values.map ω.node = nodes.map (Node.reread cfg.readers) := by
    have seconds := congrArg (List.map Prod.snd) items
    rw [Storage.nodeItems, List.map_map, List.map_map] at seconds
    rw [OrderedDict.values, List.map_map]
    exact seconds
  have distinct : ((nodes.map (Node.reread cfg.readers)).map Node.id).Nodup := by
    rw [List.map_map]
    exact newNodes.distinct
  rw [loaded, reread]
  refine ⟨?_, ?_, ?_⟩
  · rw [rebuildIndex_ok_iff distinct, Level]
    simp only [nodes, List.forall_mem_map]
    rfl
  · refine items.trans ?_
    rw [List.map_map]
    refine List.map_congr_left fun item member => ?_
    exact congrArg (fun id => (id, item.2.reread cfg.readers)) (valid.nodeItems_id member)
  · refine sameEdgeItems.trans ?_
    rw [List.map_map]
    refine List.map_congr_left fun item member => ?_
    exact congrArg (fun id => (id, item.2.reread cfg.readers)) (valid.edgeItems_id member)

/-- Items are what they are reread as exactly if each of them is. -/
theorem map_reread_eq_iff {α : Type} {reread : α → α} {items : List (String × α)} :
    items.map (fun item => (item.1, reread item.2)) = items ↔ ∀ item ∈ items, reread item.2 = item.2 := by
  constructor
  · intro same item member
    have each := List.map_inj_left.mp (same.trans (List.map_id items).symm) item member
    exact congrArg Prod.snd each
  · intro same
    have each : ∀ item ∈ items, (item.1, reread item.2) = id item := fun item member =>
      congrArg (Prod.mk item.1) (same item member)
    exact (List.map_congr_left each).trans (List.map_id items)

theorem Valid.roundTrips_iff (valid : σ.Valid cfg) (inverse : cfg.readers.Inverse) :
    RoundTrips cfg σ ↔ σ.Level ∧ AllAware cfg σ := by
  constructor
  · intro trips
    let restarted : Storage := { saved := some σ.data }
    let fresh : Nat → Fresh := fun _ => ⟨"", epoch⟩
    obtain ⟨ended, nodes, edges⟩ := trips restarted fresh (saved_flush_save σ).symm
    obtain ⟨level, readNodes, readEdges⟩ := valid.load_data inverse fresh (show restarted.saved = _ from rfl)
    have sameNodes := map_reread_eq_iff.mp (readNodes.symm.trans nodes)
    have sameEdges := map_reread_eq_iff.mp (readEdges.symm.trans edges)
    exact ⟨level.mp ended, fun item member => Node.reread_eq_iff.mp (sameNodes item member),
      fun item member => Edge.reread_eq_iff.mp (sameEdges item member)⟩
  · rintro ⟨level, awareNodes, awareEdges⟩ τ fresh saved
    obtain ⟨ended, readNodes, readEdges⟩ := valid.load_data inverse fresh (saved.trans (saved_flush_save σ))
    have sameNodes := map_reread_eq_iff.mpr fun item member => Node.reread_eq_iff.mpr (awareNodes item member)
    have sameEdges := map_reread_eq_iff.mpr fun item member => Edge.reread_eq_iff.mpr (awareEdges item member)
    exact ⟨ended.mpr level, readNodes.trans sameNodes, readEdges.trans sameEdges⟩

/-- In every state that the operations of the storage reach, the graph survives saving and loading exactly
if its embeddings have one length and its datetimes have time zones. -/
theorem save_load_iff (inverse : cfg.readers.Inverse) {disk : Option GraphData}
    (readable : ∀ data, disk = some data → data.Valid cfg) {history : List (Action × Reply)}
    (run : Run (step cfg) (fun _ _ _ => True) { saved := disk } history σ) :
    RoundTrips cfg σ ↔ σ.Level ∧ AllAware cfg σ := by
  have valid : σ.Valid cfg := run.invariant (fun _ σ => σ.Valid cfg) (.initial readable) fun valid _ stepped =>
    valid.step stepped
  exact valid.roundTrips_iff inverse

end Storage

theorem sampleReaders_inverse : sampleReaders.Inverse := fun d => dif_pos d.spelled

/-- An actor with an embedding of its own. -/
def sampleEmbedded (id : String) (vector : List ℚ) : Node := { sampleActor id "Actor" with embedding := some vector }

/-- Two nodes come with embeddings of different lengths; the file that is written cannot be loaded. -/
theorem Storage.graph_not_loaded : ¬ ∀ (cfg : StorageConfig), cfg.readers.Inverse → ∀ history σ,
    Run (Storage.step cfg) (fun _ _ _ => True) {} history σ → Storage.RoundTrips cfg σ := by
  intro promised
  have observed : (leadsTo (Storage.step sampleConfig) {} [.newNode (sampleEmbedded "a" [1]),
      .newNode (sampleEmbedded "b" [1, 2]), .addNodes [0, 1] [] none]).map
        (fun σ => (({ saved := some σ.data } : Storage).load sampleConfig true fun _ => ⟨"", epoch⟩).2) = some false := by
    decide +kernel
  obtain ⟨σ, taken, failed⟩ := Option.map_eq_some_iff.mp observed
  obtain ⟨history, run⟩ := Run.of_leadsTo taken
  have trips := promised sampleConfig sampleReaders_inverse history σ run
  have loaded := (trips { saved := some σ.data } (fun _ => ⟨"", epoch⟩) (Storage.saved_flush_save σ).symm).1
  rw [failed] at loaded
  cases loaded

/-- A graph with two embedded nodes and an edge is saved and loaded. -/
theorem Storage.save_load_sample : ∃ history σ, σ.nodes.keys = ["a", "b"] ∧ σ.edges.keys = ["e"] ∧
    Run (Storage.step sampleConfig) (fun _ _ _ => True) { saved := none } history σ ∧
      Storage.RoundTrips sampleConfig σ := by
  have observed : (leadsTo (Storage.step sampleConfig) { saved := none } [.newNode (sampleEmbedded "a" [1, 0]),
      .newNode (sampleEmbedded "b" [0, 1]), .newEdge { id := "e", source := "a", target := "b", createdAt := epoch },
      .addNodes [0, 1] [0] none]).map (fun σ => (σ.nodes.keys, σ.edges.keys,
        σ.nodeItems.map fun item => item.2.embedding)) =
          some (["a", "b"], ["e"], [some [1, 0], some [0, 1]]) := by
    decide +kernel
  obtain ⟨σ, taken, seen⟩ := Option.map_eq_some_iff.mp observed
  obtain ⟨history, run⟩ := Run.of_leadsTo taken
  have noFile : ∀ data, (none : Option GraphData) = some data → data.Valid sampleConfig := fun _ no => (nomatch no)
  refine ⟨history, σ, congrArg Prod.fst seen, congrArg (fun o => o.2.1) seen, run,
    (Storage.save_load_iff sampleReaders_inverse noFile run).mpr ⟨?_, ?_, ?_⟩⟩
  · have embeddings : σ.nodeItems.map (fun item => item.2.embedding) = [some [1, 0], some [0, 1]] :=
      congrArg (fun o => o.2.2) seen
    have two : ∀ item ∈ σ.nodeItems, ∀ v, item.2.embedding = some v → v.length = 2 := by
      intro item member v embedded
      have listed := List.mem_map_of_mem (f := fun item : String × Node => item.2.embedding) member
      rw [embeddings, embedded] at listed
      simp only [List.mem_cons, Option.some.injEq, List.not_mem_nil, or_false] at listed
      rcases listed with rfl | rfl <;> rfl
    exact fun a inA b inB v w ofA ofB => (two a inA v ofA).trans (two b inB w ofB).symm
  · exact fun _ _ => ⟨rfl, rfl⟩
  · exact fun _ _ => rfl

end MetadataGraph.Graph
