import MetadataGraph.Lib.ObjectHeap
import MetadataGraph.Lib.MultiDigraph
import MetadataGraph.Graph.VectorStore

namespace MetadataGraph.Graph

open ObjectHeap

/-- The applicability rules of a relationship type; no entry allows every node type. -/
structure RelationshipRules where
  sourceTypes : List String := []
  targetTypes : List String := []

/-- An error of a library, from whose text the caller's message is made. -/
inductive LibraryError where
  | notValid (data : Dict Json)
  | notDict (value : Json)
  | notDatetime (text : String)
  | notStacked
  | noEdge (source target key : String)
  | noNode (id : String)

/-- What the storage takes from its surroundings. `coerceDict` is `dict(value)` for a value that
is not a dict. -/
structure StorageConfig where
  readers : Readers
  lower : String → String
  typeSearchableText : Dict String := {}
  relationshipTypes : Dict RelationshipRules := {}
  sameInstant : Datetime → Datetime → Bool
  coerceDict : Json → Option (Dict Json)
  errorText : LibraryError → String

/-- `build_searchable_text`. The labels of a type are looked up under `str(node.type)`. -/
def buildSearchableText (cfg : StorageConfig) (node : Node) : String :=
  let typeText := cfg.typeSearchableText[node.typeText]?.getD (cfg.lower node.typeText)
  cfg.lower (" ".intercalate [node.name, node.description, node.summary, " ".intercalate node.tags,
    " ".intercalate node.subtypes, " ".intercalate node.aliases, typeText])

def ruleAllows (rules : List String) (type : String) : Bool := rules = [] || "*" ∈ rules || type ∈ rules

/-- `relationship_type_allows_node_types`, with the message where the types are not allowed. -/
def relationshipTypeAllowsNodeTypes (cfg : StorageConfig) (relationship source target : String) : Option String :=
  match cfg.relationshipTypes[relationship]? with
  | none => none
  | some rules =>
    let refused (side type : String) (rules : List String) :=
      if ruleAllows rules type then []
      else [s!"{side} type '" ++ type ++ "' is not allowed (allowed: " ++ ", ".intercalate rules ++ ")"]
    match refused "source" source rules.sourceTypes ++ refused "target" target rules.targetTypes with
    | [] => none
    | parts => some ("Relationship type '" ++ relationship ++ "' cannot connect " ++ source ++ " -> " ++ target ++ ": " ++
        "; ".intercalate parts)

/-- The graph as it is persisted. -/
structure GraphData where
  nodes : List (Dict Json) := []
  edges : List (Dict Json) := []

/-- The storage: nodes and edges are objects, and the maps and the graph hold the same objects.
`saved` is the graph file, `pending` the writes that the worker still has to do. -/
structure Storage where
  nodeObjects : Heap Node := {}
  edgeObjects : Heap Edge := {}
  nodes : OrderedDict String Ref := {}
  edges : OrderedDict String Ref := {}
  graph : MultiDigraph String String Ref Ref := {}
  searchableText : OrderedDict String String := {}
  vectorStore : VectorStore := {}
  saved : Option GraphData := none
  pending : List GraphData := []

instance : Inhabited Storage := ⟨{}⟩

/-- What an operation raises. -/
inductive StorageError where
  | stale (nodeId : String) (expected : String ⊕ Datetime) (current : Datetime)
  | value (message : String)
  | library (error : LibraryError)

structure AddNodesResult where
  addedNodeIds : List String := []
  addedEdgeIds : List String := []
  success : Bool
  message : String

structure DeleteNodesResult where
  deletedNodeIds : List String := []
  affectedEdgeIds : List String := []
  success : Bool
  message : String

structure DeleteEdgesResult where
  deletedEdgeIds : List String
  success : Bool
  message : String

namespace Storage

def node (σ : Storage) (ref : Ref) : Node := σ.nodeObjects.read ref

def edge (σ : Storage) (ref : Ref) : Edge := σ.edgeObjects.read ref

def newNode (node : Node) (σ : Storage) : Storage := { σ with nodeObjects := (σ.nodeObjects.allocAll [node]).1 }

def newEdge (edge : Edge) (σ : Storage) : Storage := { σ with edgeObjects := (σ.edgeObjects.allocAll [edge]).1 }

def setNode (ref : Ref) (node : Node) (σ : Storage) : Storage :=
  { σ with nodeObjects := σ.nodeObjects.write ref node }

def setEdge (ref : Ref) (edge : Edge) (σ : Storage) : Storage :=
  { σ with edgeObjects := σ.edgeObjects.write ref edge }

/-- A node object comes under its id into the map, the graph and the cache. -/
def putNode (cfg : StorageConfig) (ref : Ref) (σ : Storage) : Storage :=
  let node := σ.node ref
  { σ with
    nodes := σ.nodes.set node.id ref
    graph := σ.graph.addNode node.id ref
    searchableText := σ.searchableText.set node.id (buildSearchableText cfg node) }

/-- An edge object comes under its id into the map and the graph. -/
def putEdge (ref : Ref) (σ : Storage) : Storage :=
  let edge := σ.edge ref
  { σ with
    edges := σ.edges.set edge.id ref
    graph := σ.graph.addArc edge.source edge.target edge.id ref }

/-- The data that `save` captures. -/
def data (σ : Storage) : GraphData where
  nodes := σ.nodes.values.map fun ref => (σ.node ref).toDict
  edges := σ.edges.values.map fun ref => (σ.edge ref).toDict

def save (σ : Storage) : Storage := { σ with pending := σ.pending ++ [σ.data] }

/-- The first loop of `load`, and whether it came to its end. -/
def loadNodes (cfg : StorageConfig) (fresh : Nat → Fresh) : Nat → List (Dict Json) → Storage → Storage × Bool
  | _, [], σ => (σ, true)
  | i, data :: rest, σ => match Node.fromDict cfg.readers (fresh i) data with
    | none => (σ, false)
    | some node => loadNodes cfg fresh (i + 1) rest ((σ.newNode node).putNode cfg σ.nodeObjects.size)

/-- The second loop of `load`, and whether it came to its end. -/
def loadEdges (cfg : StorageConfig) (fresh : Nat → Fresh) : Nat → List (Dict Json) → Storage → Storage × Bool
  | _, [], σ => (σ, true)
  | i, data :: rest, σ => match Edge.fromDict cfg.readers (fresh i) data with
    | none => (σ, false)
    | some edge => loadEdges cfg fresh (i + 1) rest ((σ.newEdge edge).putEdge σ.edgeObjects.size)

def clear (σ : Storage) : Storage := { σ with nodes := {}, edges := {}, graph := {}, searchableText := {} }

/-- `load`, and whether it came to its end. With no file it saves the graph as it is; the wait for
that write is left to the worker. `readable` is whether the file could be read and parsed. -/
def load (cfg : StorageConfig) (readable : Bool) (fresh : Nat → Fresh) (σ : Storage) : Storage × Bool :=
  match σ.saved with
  | none => (σ.save, true)
  | some data =>
    if readable then match σ.clear.loadNodes cfg fresh 0 data.nodes with
      | (σ, false) => (σ, false)
      | (σ, true) => match σ.loadEdges cfg fresh data.nodes.length data.edges with
        | (σ, false) => (σ, false)
        | (σ, true) =>
          let rebuilt := σ.vectorStore.rebuildIndex (σ.nodes.values.map σ.node)
          ({ σ with vectorStore := rebuilt.1 }, rebuilt.2)
    else (σ, false)

/-- An embedding is set on the node object and in the index. -/
def setEmbedding (σ : Storage) (embedded : Ref × List ℚ) : Storage :=
  let node := σ.node embedded.1
  { σ.setNode embedded.1 { node with embedding := some embedded.2 } with
    vectorStore := { σ.vectorStore with embeddings := σ.vectorStore.embeddings.set node.id embedded.2 } }

/-- `update_nodes_embeddings`, and of one node `update_node_embedding`; `encoded` is what the
embedding model answers, if it is installed. What is raised here is caught by the callers. -/
def updateNodesEmbeddings (refs : List Ref) (encoded : Option (List (List ℚ))) (σ : Storage) : Storage :=
  match encoded with
  | none => σ
  | some vectors =>
    if refs = [] then σ
    else
      let σ := (refs.zip vectors).foldl setEmbedding σ
      { σ with vectorStore := σ.vectorStore.updateMatrix.1 }

/-- The loop over the new nodes, and the id at which it stopped. -/
def addEach (cfg : StorageConfig) : List Ref → Storage → Storage × Option String
  | [], σ => (σ, none)
  | ref :: rest, σ =>
    if (σ.node ref).id ∈ σ.nodes.keys then (σ, some (σ.node ref).id)
    else addEach cfg rest (σ.putNode cfg ref)

/-- `name_to_id`; of two nodes with one name the later counts. -/
def nameToId (σ : Storage) : OrderedDict String String :=
  .ofList (σ.nodes.entries.map fun entry => ((σ.node entry.2).name, entry.1))

/-- An end of an edge is the id of a node, or else the name of one. -/
def resolve (names : OrderedDict String String) (σ : Storage) (value : String) : Option String :=
  if value ∈ σ.nodes.keys then some value else names.get? value

/-- `_validate_edge_applicability`, with the message of what it raises. -/
def validateEdgeApplicability (cfg : StorageConfig) (σ : Storage) (edge : Edge) : Option String :=
  match σ.nodes.get? edge.source, σ.nodes.get? edge.target with
  | some source, some target =>
    relationshipTypeAllowsNodeTypes cfg edge.type.1 (σ.node source).typeStr (σ.node target).typeStr
  | _, _ => none

def missingEnd (side value : String) : String :=
  "Error during add: " ++ side ++ " node '" ++ value ++ "' does not exist (not found by ID or name)"

/-- The loop over the new edges, and the message with which it stopped. The ends of an edge object
are set before its id is checked. -/
def linkEach (cfg : StorageConfig) (names : OrderedDict String String) : List Ref → Storage → Storage × Option String
  | [], σ => (σ, none)
  | ref :: rest, σ =>
    let edge := σ.edge ref
    match σ.resolve names edge.source with
    | none => (σ, some (missingEnd "Source" edge.source))
    | some source => match σ.resolve names edge.target with
      | none => (σ, some (missingEnd "Target" edge.target))
      | some target =>
        let σ := σ.setEdge ref { edge with source, target }
        if edge.id ∈ σ.edges.keys then (σ, some ("Edge with ID " ++ edge.id ++ " already exists"))
        else match σ.validateEdgeApplicability cfg (σ.edge ref) with
          | some message => (σ, some ("Error during add: " ++ message))
          | none => linkEach cfg names rest (σ.putEdge ref)

def addNodes (cfg : StorageConfig) (nodes edges : List Ref) (encoded : Option (List (List ℚ))) (σ : Storage) :
    Storage × AddNodesResult :=
  match σ.addEach cfg nodes with
  | (σ, some id) => (σ, { success := false, message := "Node with ID " ++ id ++ " already exists" })
  | (σ, none) =>
    let σ := (σ.updateNodesEmbeddings nodes encoded).save
    match σ.linkEach cfg σ.nameToId edges with
    | (σ, some message) => (σ, { success := false, message })
    | (σ, none) => (σ.save, {
        addedNodeIds := nodes.map fun ref => (σ.node ref).id
        addedEdgeIds := edges.map fun ref => (σ.edge ref).id
        success := true
        message := s!"Added {nodes.length} nodes and {edges.length} edges" })

def allowedNodeFields : List String := ["name", "description", "summary", "tags", "subtypes", "aliases", "metadata"]

def reservedNodeFields : List String := ["id", "type", "embedding", "created_at", "updated_at", "archived"]

/-- `_apply_metadata_patch`: a null deletes its key. -/
def applyMetadataPatch (base patch : Dict Json) : Dict Json :=
  (base ∪ patch).filter fun key value => key ∉ patch || value ≠ .null

/-- `dict(value or {})`. -/
def toDict (cfg : StorageConfig) (value : Json) : Option (Dict Json) :=
  match value.orElse (.obj []) with
  | .obj entries => some (.of entries)
  | other => cfg.coerceDict other

/-- An update of a node as it is requested, and what the clock and the embedding model answer. -/
structure NodeUpdate where
  updates : Dict Json
  metadataMerge : Bool := false
  expectedUpdatedAt : Option (String ⊕ Datetime) := none
  now : Datetime
  encoded : Option (List ℚ) := none

/-- The updates that are no fields of the model. -/
def NodeUpdate.extra (request : NodeUpdate) : Dict Json :=
  request.updates.filter fun key _ => key ∉ allowedNodeFields && key ∉ reservedNodeFields

/-- The metadata of the candidate, if it is to change. -/
def NodeUpdate.metadata (cfg : StorageConfig) (node : Node) (request : NodeUpdate) :
    Except StorageError (Option Json) :=
  if request.metadataMerge then
    match request.updates["metadata"]? with
    | none => .ok (some (.obj (applyMetadataPatch node.metadata request.extra).toList))
    | some value => match value.orElse (.obj []) with
      | .obj entries =>
        let merged := applyMetadataPatch node.metadata (.of entries)
        .ok (some (.obj (applyMetadataPatch merged request.extra).toList))
      | _ => .error (.value "metadata must be an object when metadata_merge is set")
  else if request.extra.isEmpty then .ok request.updates["metadata"]?
  else
    let value := request.updates["metadata"]?.getD (.obj node.metadata.toList)
    match toDict cfg value with
    | none => .error (.library (.notDict value))
    | some metadata => .ok (some (.obj (metadata ∪ request.extra).toList))

/-- The candidate that is validated in place of the live node. -/
def NodeUpdate.candidate (cfg : StorageConfig) (node : Node) (request : NodeUpdate) :
    Except StorageError (Dict Json) := do
  let fields := request.updates.filter fun key _ => key ∈ allowedNodeFields && key ≠ "metadata"
  match ← request.metadata cfg node with
  | none => return node.toDict ∪ fields
  | some metadata => return (node.toDict ∪ fields).insert "metadata" metadata

/-- The optimistic-concurrency guard. -/
def NodeUpdate.guard (cfg : StorageConfig) (node : Node) (request : NodeUpdate) : Except StorageError Unit :=
  let check (expected : String ⊕ Datetime) (instant : Datetime) :=
    if cfg.sameInstant node.updatedAt instant then .ok ()
    else .error (.stale node.id expected node.updatedAt)
  match request.expectedUpdatedAt with
  | none => .ok ()
  | some (.inr instant) => check (.inr instant) instant
  | some (.inl text) => match cfg.readers.parseDatetime text with
    | none => .error (.library (.notDatetime text))
    | some instant => check (.inl text) instant

/-- The validated node of an update. -/
def NodeUpdate.validated (cfg : StorageConfig) (node : Node) (request : NodeUpdate) : Except StorageError Node := do
  request.guard cfg node
  let candidate ← request.candidate cfg node
  match Node.fromDict cfg.readers ⟨node.id, request.now⟩ candidate with
  | none => .error (.value ("Invalid node update: " ++ cfg.errorText (.notValid candidate)))
  | some validated => return validated

/-- `setattr` of the allowed fields. -/
def applyUpdate (now : Datetime) (node validated : Node) : Node :=
  { node with
    name := validated.name, description := validated.description, summary := validated.summary
    tags := validated.tags, subtypes := validated.subtypes, aliases := validated.aliases
    metadata := validated.metadata, limits := validated.limits, updatedAt := now }

def embeddedFields : List String := ["name", "description", "summary", "tags", "aliases"]

def updateNode (cfg : StorageConfig) (id : String) (request : NodeUpdate) (σ : Storage) :
    Storage × Except StorageError (Option Ref) :=
  match σ.nodes.get? id with
  | none => (σ, .ok none)
  | some ref =>
    let node := σ.node ref
    match request.validated cfg node with
    | .error error => (σ, .error error)
    | .ok validated =>
      let σ := σ.setNode ref (applyUpdate request.now node validated)
      match σ.graph.setData id ref with
      | none => (σ, .error (.library (.noNode id)))
      | some graph =>
        let text := buildSearchableText cfg (σ.node ref)
        let σ := { σ with graph, searchableText := σ.searchableText.set node.id text }
        let σ :=
          if embeddedFields.any (· ∈ request.updates) then
            σ.updateNodesEmbeddings [ref] (request.encoded.map fun vector => [vector])
          else σ
        (σ.save, .ok (some ref))

/-- The loop of `set_nodes_archived` over ids with the times of their changes: the nodes found, and
whether one of them changed. -/
def archiveNodes (archived : Bool) : List (String × Datetime) → Storage →
    Storage × Except StorageError (List Ref × Bool)
  | [], σ => (σ, .ok ([], false))
  | (id, now) :: rest, σ => match σ.nodes.get? id with
    | none => archiveNodes archived rest σ
    | some ref =>
      if (σ.node ref).archived = archived then
        let result := archiveNodes archived rest σ
        (result.1, result.2.map fun found => (ref :: found.1, found.2))
      else
        let σ := σ.setNode ref { σ.node ref with archived, updatedAt := now }
        match σ.graph.setData id ref with
        | none => (σ, .error (.library (.noNode id)))
        | some graph =>
          let result := archiveNodes archived rest { σ with graph }
          (result.1, result.2.map fun found => (ref :: found.1, true))

def setNodesArchived (nodes : List (String × Datetime)) (archived : Bool) (σ : Storage) :
    Storage × Except StorageError (List Ref) :=
  match σ.archiveNodes archived nodes with
  | (σ, .error error) => (σ, .error error)
  | (σ, .ok (found, changed)) => (if changed then σ.save else σ, .ok found)

/-- The ids of the edges at a node, as `delete_nodes` collects them. -/
def edgesAt (σ : Storage) (id : String) : List String :=
  (σ.edges.entries.filter fun entry => (σ.edge entry.2).source = id ∨ (σ.edge entry.2).target = id).map Prod.fst

/-- The edges of a node are removed from the graph and the map. -/
def dropEdges : List String → Storage → Storage × Option LibraryError
  | [], σ => (σ, none)
  | id :: rest, σ => match σ.edges.get? id with
    | none => (σ, some (.noNode id))
    | some ref =>
      let edge := σ.edge ref
      match σ.graph.removeArc edge.source edge.target id with
      | none => (σ, some (.noEdge edge.source edge.target id))
      | some graph => dropEdges rest { σ with graph, edges := σ.edges.erase id }

/-- A node with its edges is removed from the graph, the maps and the cache. -/
def dropNode (id : String) (σ : Storage) : Storage × Option LibraryError :=
  match σ.dropEdges (σ.edgesAt id) with
  | (σ, some error) => (σ, some error)
  | (σ, none) => match σ.graph.removeNode id with
    | none => (σ, some (.noNode id))
    | some graph =>
      ({ σ with graph, nodes := σ.nodes.erase id, searchableText := σ.searchableText.erase id }, none)

/-- The loop of `delete_nodes`: the deleted nodes with the edges that went with them. -/
def deleteEach : List String → Storage → Storage × Except LibraryError (List (String × List String))
  | [], σ => (σ, .ok [])
  | id :: rest, σ =>
    if id ∈ σ.nodes.keys then match σ.dropNode id with
      | (σ', some error) => (σ', .error error)
      | (σ', none) =>
        let result := deleteEach rest σ'
        (result.1, result.2.map fun deleted => (id, σ.edgesAt id) :: deleted)
    else deleteEach rest σ

def deleteNodes (cfg : StorageConfig) (ids : List String) (confirmed : Bool) (σ : Storage) :
    Storage × DeleteNodesResult :=
  let failed (error : LibraryError) : DeleteNodesResult :=
    { success := false, message := "Error during deletion: " ++ cfg.errorText error }
  if ids.length > 10 then
    (σ, { success := false, message := "Max 10 nodes can be deleted at a time. Contact admin for bulk deletion." })
  else if ¬ confirmed then (σ, { success := false, message := "Deletion requires confirmed=True parameter" })
  else match σ.deleteEach ids with
    | (σ, .error error) => (σ, failed error)
    | (σ, .ok deleted) =>
      let removed := σ.vectorStore.removeNodesEmbeddings (deleted.map Prod.fst)
      let σ := { σ with vectorStore := removed.1 }
      if removed.2 then
        let affected := deleted.flatMap Prod.snd
        (σ.save, {
          deletedNodeIds := deleted.map Prod.fst
          affectedEdgeIds := affected
          success := true
          message := s!"Deleted {deleted.length} nodes and {affected.length} edges" })
      else (σ, failed .notStacked)

/-- The candidate of an edge update: only three fields count, and no type is the general connection. -/
def edgeCandidate (edge : Edge) (updates : Dict Json) : Dict Json :=
  let fields := updates.filter fun key _ => key ∈ ["type", "label", "metadata"]
  edge.toDict ∪ fields.map fun key value =>
    if key = "type" ∧ (value = .null ∨ value = .str "") then .str "RELATES_TO" else value

def updateEdge (cfg : StorageConfig) (id : String) (updates : Dict Json) (σ : Storage) :
    Storage × Except StorageError (Option Ref) :=
  match σ.edges.get? id with
  | none => (σ, .ok none)
  | some ref =>
    let edge := σ.edge ref
    let candidate := edgeCandidate edge updates
    match Edge.fromDict cfg.readers ⟨edge.id, edge.createdAt⟩ candidate with
    | none => (σ, .error (.library (.notValid candidate)))
    | some validated => match σ.validateEdgeApplicability cfg validated with
      | some message => (σ, .error (.value message))
      | none =>
        let σ := σ.setEdge ref
          { edge with type := validated.type, label := validated.label, metadata := validated.metadata }
        (σ.save, .ok (some ref))

/-- The loop of `set_edges_archived`: the edges found, and whether one of them changed. -/
def archiveEdges (archived : Bool) : List String → Storage → Storage × List Ref × Bool
  | [], σ => (σ, [], false)
  | id :: rest, σ => match σ.edges.get? id with
    | none => archiveEdges archived rest σ
    | some ref =>
      if (σ.edge ref).archived = archived then
        let result := archiveEdges archived rest σ
        (result.1, ref :: result.2.1, result.2.2)
      else
        let result := archiveEdges archived rest (σ.setEdge ref { σ.edge ref with archived })
        (result.1, ref :: result.2.1, true)

def setEdgesArchived (ids : List String) (archived : Bool) (σ : Storage) : Storage × List Ref :=
  let result := σ.archiveEdges archived ids
  (if result.2.2 then result.1.save else result.1, result.2.1)

/-- An edge is removed from the graph and the map; that the graph does not have it is ignored. -/
def dropEdge (id : String) (ref : Ref) (σ : Storage) : Storage :=
  let edge := σ.edge ref
  { σ with
    graph := (σ.graph.removeArc edge.source edge.target id).getD σ.graph
    edges := σ.edges.erase id }

def deleteEdge (id : String) (σ : Storage) : Storage × Bool :=
  match σ.edges.get? id with
  | none => (σ, false)
  | some ref => ((σ.dropEdge id ref).save, true)

/-- The loop of `delete_edges`, with the ids it deleted. -/
def deleteEachEdge : List String → Storage → Storage × List String
  | [], σ => (σ, [])
  | id :: rest, σ => match σ.edges.get? id with
    | none => deleteEachEdge rest σ
    | some ref =>
      let result := deleteEachEdge rest (σ.dropEdge id ref)
      (result.1, id :: result.2)

def deleteEdges (ids : List String) (σ : Storage) : Storage × DeleteEdgesResult :=
  let result := σ.deleteEachEdge ids
  (result.1.save,
    { deletedEdgeIds := result.2, success := true, message := s!"Deleted {result.2.length} edges" })

/-- An end of an edge object that is no id of a node is replaced by the id of a node with that name. -/
def addEdge (cfg : StorageConfig) (ref : Ref) (σ : Storage) : Storage × Except StorageError (Option String) :=
  match σ.resolve σ.nameToId (σ.edge ref).source with
  | none => (σ, .ok none)
  | some source =>
    let σ := σ.setEdge ref { σ.edge ref with source }
    match σ.resolve σ.nameToId (σ.edge ref).target with
    | none => (σ, .ok none)
    | some target =>
      let σ := σ.setEdge ref { σ.edge ref with target }
      if (σ.edge ref).id ∈ σ.edges.keys then (σ, .ok none)
      else match σ.validateEdgeApplicability cfg (σ.edge ref) with
        | some message => (σ, .error (.value message))
        | none => ((σ.putEdge ref).save, .ok (some (σ.edge ref).id))

/-- The oldest write reaches the file, or fails and leaves it as it is. -/
def saveDone (landed : Bool) (σ : Storage) : Option Storage :=
  match σ.pending with
  | [] => none
  | data :: pending => some { σ with saved := if landed then some data else σ.saved, pending }

end Storage

/-- An operation on the storage, the making of an object by a caller, or a write of the worker. -/
inductive Action where
  | newNode (node : Node)
  | newEdge (edge : Edge)
  | saveDone (landed : Bool)
  | load (readable : Bool) (fresh : Nat → Fresh)
  | addNodes (nodes edges : List Ref) (encoded : Option (List (List ℚ)))
  | updateNode (id : String) (request : Storage.NodeUpdate)
  | setNodesArchived (nodes : List (String × Datetime)) (archived : Bool)
  | deleteNodes (ids : List String) (confirmed : Bool)
  | updateEdge (id : String) (updates : Dict Json)
  | setEdgesArchived (ids : List String) (archived : Bool)
  | deleteEdge (id : String)
  | deleteEdges (ids : List String)
  | addEdge (edge : Ref)

/-- What an operation returns or raises. -/
inductive Reply where
  | done
  | object (ref : Ref)
  | loaded (ended : Bool)
  | added (result : AddNodesResult)
  | updated (result : Except StorageError (Option Ref))
  | archived (result : Except StorageError (List Ref))
  | nodesDeleted (result : DeleteNodesResult)
  | edgeDeleted (deleted : Bool)
  | edgesDeleted (result : DeleteEdgesResult)
  | edgeAdded (result : Except StorageError (Option String))

/-- The storage after an action, under its lock. Callers pass objects that exist. -/
def Storage.step (cfg : StorageConfig) (σ : Storage) : Action → Option (Storage × Reply)
  | .newNode node => some (σ.newNode node, .object σ.nodeObjects.size)
  | .newEdge edge => some (σ.newEdge edge, .object σ.edgeObjects.size)
  | .saveDone landed => (σ.saveDone landed).map fun σ => (σ, .done)
  | .load readable fresh => some ((σ.load cfg readable fresh).map id .loaded)
  | .addNodes nodes edges encoded =>
    if (∀ ref ∈ nodes, ref < σ.nodeObjects.size) ∧ ∀ ref ∈ edges, ref < σ.edgeObjects.size then
      some ((σ.addNodes cfg nodes edges encoded).map id .added)
    else none
  | .updateNode nodeId request => some ((σ.updateNode cfg nodeId request).map id .updated)
  | .setNodesArchived nodes archived => some ((σ.setNodesArchived nodes archived).map id .archived)
  | .deleteNodes ids confirmed => some ((σ.deleteNodes cfg ids confirmed).map id .nodesDeleted)
  | .updateEdge edgeId updates => some ((σ.updateEdge cfg edgeId updates).map id .updated)
  | .setEdgesArchived ids archived => some ((σ.setEdgesArchived ids archived).map id (.archived ∘ .ok))
  | .deleteEdge edgeId => some ((σ.deleteEdge edgeId).map id .edgeDeleted)
  | .deleteEdges ids => some ((σ.deleteEdges ids).map id .edgesDeleted)
  | .addEdge edge => if edge < σ.edgeObjects.size then some ((σ.addEdge cfg edge).map id .edgeAdded) else none

end MetadataGraph.Graph
