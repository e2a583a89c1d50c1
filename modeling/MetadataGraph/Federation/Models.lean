import MetadataGraph.Graph.Models
import MetadataGraph.Lib.OrderedDict
import MetadataGraph.Lib.Runs

namespace MetadataGraph.Federation

open MetadataGraph.Graph

/-- What the cache uses of Python besides the models: the text of a value, a dict made of a list
of pairs, and the text of the exception that an item raises. A list of pairs makes no dict when
`dict` raises, and none with string keys when another key is among them. -/
structure Builtins where
  str : Json → String
  dict : List Json → Option (Option (Dict Json))
  refusal : Json → String
  str_str : ∀ s, str (.str s) = s

/-- `dict(value or {})`. -/
def Builtins.metadata (b : Builtins) : Json → Option (Option (Dict Json))
  | .obj entries => some (some (.of entries))
  | .arr items => if items = [] then some (some {}) else b.dict items
  | value => if value.truthy then none else some (some {})

/-- `{**(value or {})}`. -/
def unpack : Json → Option (Dict Json)
  | .obj entries => some (.of entries)
  | value => if value.truthy then none else some {}

/-- The part of a graph's configuration that a sync reads. -/
structure FederationGraphConfig where
  graphId : String
  displayName : String
  enabled : Bool := true
  graphJsonUrl : Option String

def federatedId (graph : FederationGraphConfig) (originId : String) : String :=
  "federated::" ++ graph.graphId ++ "::" ++ originId

/-- What the cache adds to the metadata of every item. -/
def provenance (graph : FederationGraphConfig) (originKey : String) (originId : Json) : List (String × Json) := [
  ("origin_graph_id", .str graph.graphId), ("origin_graph_name", .str graph.displayName), (originKey, originId),
  ("federation_distance", .num 1), ("federation_path", .arr [.str graph.graphId]), ("sync_state", .str "fresh"),
  ("is_federated", .bool true)]

/-- `node_payload`. -/
def nodePayload (graph : FederationGraphConfig) (federatedNodeId : String) (sourceNode metadata : Dict Json) : Dict Json :=
  .of [
    ("id", .str federatedNodeId),
    ("type", sourceNode["type"]?.getD (.str "Resource")),
    ("name", sourceNode["name"]?.getD (.str "Unnamed")),
    ("description", sourceNode["description"]?.getD (.str "")),
    ("summary", sourceNode["summary"]?.getD (.str "")),
    ("tags", sourceNode["tags"]?.getD (.arr [])),
    ("metadata", .obj (metadata ∪ .of (provenance graph "origin_node_id" (sourceNode.get "id"))).toList),
    ("archived", .bool (sourceNode["archived"]?.getD (.bool false)).truthy)]

/-- `edge_payload`. -/
def edgePayload (graph : FederationGraphConfig) (edgeId source target : String) (sourceEdge metadata : Dict Json) :
    Dict Json :=
  .of [
    ("id", .str edgeId), ("source", .str source), ("target", .str target),
    ("type", sourceEdge["type"]?.getD (.str "RELATES_TO")),
    ("label", sourceEdge["label"]?.getD (.str "")),
    ("metadata", .obj (metadata ∪ .of (provenance graph "origin_edge_id" (sourceEdge.get "id"))).toList),
    ("archived", .bool (sourceEdge["archived"]?.getD (.bool false)).truthy)]

/-- An item of a payload with what the default factories give when it is built. -/
abbrev Item := Json × Fresh

def stamp (fresh : ℕ → Fresh) (first : ℕ) (items : List Json) : List Item :=
  (items.zipIdx first).map fun item => (item.1, fresh item.2)

section Build

variable (b : Builtins) (r : Readers) (graph : FederationGraphConfig)

/-- The node loop on one item: the text of its origin id, and the node unless the model refuses it. -/
def loadNode (item : Item) : Except String (String × Option Node) :=
  match readObject item.1 with
  | some sourceNode =>
    let originNodeId := b.str (sourceNode.get "id")
    match b.metadata (sourceNode.get "metadata") with
    | some metadata =>
      .ok (originNodeId, metadata.bind fun metadata =>
        Node.fromDict r item.2 (nodePayload graph (federatedId graph originNodeId) sourceNode metadata))
    | none => .error (b.refusal item.1)
  | none => .error (b.refusal item.1)

/-- `source_edge.get('id', f'{source}->{target}')` as a text. -/
def edgeOrigin (sourceEdge : Dict Json) (source target : String) : String :=
  match sourceEdge["id"]? with
  | some id => b.str id
  | none => source ++ "->" ++ target

/-- The edge of an item between two federated ids, unless the model refuses it. There is no
result where the metadata cannot be unpacked. -/
def buildEdge (fresh : Fresh) (sourceEdge : Dict Json) (source target : String) : Option (Option (String × Edge)) :=
  let edgeId := federatedId graph (edgeOrigin b sourceEdge source target)
  (unpack (sourceEdge.get "metadata")).map fun metadata =>
    (Edge.fromDict r fresh (edgePayload graph edgeId source target sourceEdge metadata)).map fun edge => (edgeId, edge)

/-- The edge loop on one item, with no edge where it is skipped. -/
def loadEdge (idMapping : OrderedDict String String) (item : Item) : Except String (Option (String × Edge)) :=
  match readObject item.1 with
  | some sourceEdge =>
    match idMapping.get? (b.str (sourceEdge.get "source")), idMapping.get? (b.str (sourceEdge.get "target")) with
    | some source, some target =>
      if source = "" ∨ target = "" then .ok none
      else match buildEdge b r graph item.2 sourceEdge source target with
        | some edge => .ok edge
        | none => .error (b.refusal item.1)
    | _, _ => .ok none
  | none => .error (b.refusal item.1)

/-- The cache of the loaded nodes, under their federated ids. -/
def cachedNodes (loaded : List (String × Option Node)) : List (String × Node) :=
  loaded.filterMap fun item => item.2.map fun node => (federatedId graph item.1, node)

/-- `id_mapping`. -/
def idMapping (loaded : List (String × Option Node)) : OrderedDict String String :=
  .ofList (loaded.map fun item => (item.1, federatedId graph item.1))

/-- `_build_cache`. -/
def buildCache (fresh : ℕ → Fresh) (sourceNodes sourceEdges : List Json) :
    Except String (OrderedDict String Node × OrderedDict String Edge) := do
  let nodes ← (stamp fresh 0 sourceNodes).mapM (loadNode b r graph)
  let edges ← (stamp fresh sourceNodes.length sourceEdges).mapM (loadEdge b r graph (idMapping graph nodes))
  return (.ofList (cachedNodes graph nodes), .ofList (edges.filterMap id))

end Build

/-- An event about a node or an edge, with the object before and after. -/
inductive Event (α : Type) where
  | create (after : α)
  | update (before after : α)
  | delete (before : α)

/-- The order in which Python runs through a set. -/
structure SetOrder where
  order : List String → List String
  perm : ∀ ids, (order ids).Perm ids

/-- The events for what was added and removed, and for what the comparison says of the rest. -/
def emitEvents {α : Type} (o : SetOrder) (compare : α → α → List (Event α)) (previous current : OrderedDict String α) :
    List (Event α) :=
  (o.order (current.keys.filter (· ∉ previous.keys))).filterMap (fun id => (current.get? id).map .create) ++
    (o.order (previous.keys.filter (· ∉ current.keys))).filterMap (fun id => (previous.get? id).map .delete) ++
    (o.order (previous.keys.filter (· ∈ current.keys))).flatMap fun id =>
      ((previous.get? id).bind fun old => (current.get? id).map (compare old)).getD []

/-- `_node_event_fingerprint`. -/
def nodeEventFingerprint (node : Node) : Dict Json :=
  (node.toDict.erase "created_at").erase "updated_at"

def compareNodes (old new : Node) : List (Event Node) :=
  if nodeEventFingerprint old = nodeEventFingerprint new then [] else [.update old new]

/-- There is no event for the update of an edge: it is replaced. -/
def compareEdges (old new : Edge) : List (Event Edge) :=
  if old.toDict = new.toDict then [] else [.delete old, .create new]

def emitNodeEvents (o : SetOrder) (previous current : OrderedDict String Node) : List (Event Node) :=
  emitEvents o compareNodes previous current

def emitEdgeEvents (o : SetOrder) (previous current : OrderedDict String Edge) : List (Event Edge) :=
  emitEvents o compareEdges previous current

inductive SyncStatus where
  | offline | disabled | healthy | degraded
  deriving DecidableEq

structure FederatedGraphCache where
  status : SyncStatus := .offline
  lastSyncedAt : Option Datetime := none
  lastError : Option String := none
  nodes : OrderedDict String Node := {}
  edges : OrderedDict String Edge := {}

/-- What one sync meets: the times at which items are built, the time of the swap, and the
orders of the sets of changed ids. -/
structure Moment where
  fresh : ℕ → Fresh
  now : Datetime
  nodeOrder : SetOrder
  edgeOrder : SetOrder

inductive SyncResult where
  | synced (graphId : String) (nodes edges : ℕ)
  | failed (graphId : Option String) (error : String)

def SyncResult.success : SyncResult → Bool
  | synced .. => true
  | failed .. => false

structure Emitted where
  nodes : List (Event Node) := []
  edges : List (Event Edge) := []

section Sync

variable (b : Builtins) (r : Readers)

/-- The lists that `_update_cache` reads from a payload. -/
def readPayload : Json → Except String (List Json × List Json)
  | .obj entries =>
    let payload := Dict.of entries
    match payload["nodes"]?, payload["edges"]?.getD (.arr []) with
    | none, _ => .error "Federated graph payload must include a nodes list"
    | some (.arr nodes), .arr edges => .ok (nodes, edges)
    | some (.arr _), _ => .error "Federated graph payload edges must be a list"
    | some _, _ => .error "Federated graph payload nodes must be a list"
  | _ => .error "Federated graph payload must be a JSON object"

/-- `_update_cache`. -/
def FederatedGraphCache.update (graph : FederationGraphConfig) (moment : Moment) (payload : Json)
    (entry : FederatedGraphCache) : Except String (FederatedGraphCache × SyncResult × Emitted) := do
  let (nodes, edges) ← readPayload payload
  let (cacheNodes, cacheEdges) ← buildCache b r graph moment.fresh nodes edges
  return ({ status := .healthy, lastSyncedAt := some moment.now, lastError := none, nodes := cacheNodes,
            edges := cacheEdges },
    .synced graph.graphId cacheNodes.entries.length cacheEdges.entries.length,
    { nodes := emitNodeEvents moment.nodeOrder entry.nodes cacheNodes
      edges := emitEdgeEvents moment.edgeOrder entry.edges cacheEdges })

/-- `_set_degraded`. -/
def FederatedGraphCache.setDegraded (error : String) (entry : FederatedGraphCache) : FederatedGraphCache :=
  { entry with status := .degraded, lastError := some error }

/-- `sync_graph` for a configured graph, given what the fetch of its payload returns or raises. -/
def FederatedGraphCache.sync (graph : FederationGraphConfig) (fetched : Except String Json) (moment : Moment)
    (entry : FederatedGraphCache) : FederatedGraphCache × SyncResult × Emitted :=
  if graph.enabled = false then (entry, .failed none ("Graph " ++ graph.graphId ++ " is disabled"), {})
  else if graph.graphJsonUrl.getD "" = "" then
    (entry.setDegraded "graph_json_url is missing; only MCP/GUI configured",
      .failed none "No graph_json_url configured", {})
  else match fetched.bind fun payload => entry.update b r graph moment payload with
    | .ok done => done
    | .error error => (entry.setDegraded error, .failed (some graph.graphId) error, {})

end Sync

/-- The manager. There is one entry of the cache for each configured graph. -/
structure FederationManager where
  graphs : List FederationGraphConfig
  cache : String → FederatedGraphCache
  distinct : (graphs.map FederationGraphConfig.graphId).Nodup

def FederationManager.init (graphs : List FederationGraphConfig)
    (distinct : (graphs.map FederationGraphConfig.graphId).Nodup) : FederationManager where
  graphs := graphs
  cache := fun graphId => match graphs.find? (·.graphId = graphId) with
    | some graph => { status := if graph.enabled then .offline else .disabled }
    | none => {}
  distinct := distinct

namespace FederationManager

/-- `_get_graph_config`. -/
def graphConfig (m : FederationManager) (graphId : String) : Option FederationGraphConfig :=
  m.graphs.find? (·.graphId = graphId)

/-- `get_cached_node`. -/
def cachedNode (m : FederationManager) (federatedNodeId : String) : Option Node :=
  m.graphs.findSome? fun graph => (m.cache graph.graphId).nodes.get? federatedNodeId

/-- A sync as the manager is asked for it. -/
structure Request where
  graphId : String
  fetched : Except String Json
  moment : Moment

/-- `sync_graph`. -/
def syncGraph (b : Builtins) (r : Readers) (m : FederationManager) (request : Request) :
    FederationManager × SyncResult × Emitted :=
  match m.graphConfig request.graphId with
  | none => (m, .failed none ("Unknown graph_id: " ++ request.graphId), {})
  | some graph =>
    let (entry, answer) := (m.cache graph.graphId).sync b r graph request.fetched request.moment
    ({ m with cache := Function.update m.cache graph.graphId entry }, answer)

end FederationManager

variable {b : Builtins} {r : Readers} {graph : FederationGraphConfig}

/-- The entry after a swap of its cache. -/
def FederatedGraphCache.swapped (moment : Moment) (built : OrderedDict String Node × OrderedDict String Edge) :
    FederatedGraphCache :=
  { status := .healthy, lastSyncedAt := some moment.now, lastError := none, nodes := built.1, edges := built.2 }

def emitted (moment : Moment) (entry : FederatedGraphCache) (built : OrderedDict String Node × OrderedDict String Edge) :
    Emitted :=
  { nodes := emitNodeEvents moment.nodeOrder entry.nodes built.1
    edges := emitEdgeEvents moment.edgeOrder entry.edges built.2 }

theorem FederatedGraphCache.sync_of_built (enabled : graph.enabled = true) (url : graph.graphJsonUrl.getD "" ≠ "")
    {payload : Json} {nodes edges : List Json} (lists : readPayload payload = .ok (nodes, edges)) {moment : Moment}
    {built : OrderedDict String Node × OrderedDict String Edge}
    (made : buildCache b r graph moment.fresh nodes edges = .ok built) (entry : FederatedGraphCache) :
    entry.sync b r graph (.ok payload) moment = (swapped moment built,
      .synced graph.graphId built.1.entries.length built.2.entries.length, emitted moment entry built) := by
  have updated : entry.update b r graph moment payload = .ok (swapped moment built,
      .synced graph.graphId built.1.entries.length built.2.entries.length, emitted moment entry built) := by
    rw [update, lists]
    simp only [bind, Except.bind, made]
    rfl
  rw [sync, if_neg (by simp [enabled]), if_neg url]
  simp only [Except.bind, updated]

theorem FederatedGraphCache.sync_of_unbuilt (enabled : graph.enabled = true) (url : graph.graphJsonUrl.getD "" ≠ "")
    {payload : Json} {nodes edges : List Json} (lists : readPayload payload = .ok (nodes, edges)) {moment : Moment}
    {error : String} (failed : buildCache b r graph moment.fresh nodes edges = .error error)
    (entry : FederatedGraphCache) :
    entry.sync b r graph (.ok payload) moment = (entry.setDegraded error, .failed (some graph.graphId) error, {}) := by
  have refused : entry.update b r graph moment payload = .error error := by
    rw [update, lists]
    simp only [bind, Except.bind, failed]
  rw [sync, if_neg (by simp [enabled]), if_neg url]
  simp only [Except.bind, refused]

variable (b r graph) in
/-- A sync either swaps in a cache built from the lists of a payload, or fails and leaves every
node and edge. -/
theorem FederatedGraphCache.sync_cases (fetched : Except String Json) (moment : Moment) (entry : FederatedGraphCache) :
    (∃ payload nodes edges built, fetched = .ok payload ∧ readPayload payload = .ok (nodes, edges) ∧
      buildCache b r graph moment.fresh nodes edges = .ok built ∧
      entry.sync b r graph fetched moment = (swapped moment built,
        .synced graph.graphId built.1.entries.length built.2.entries.length, emitted moment entry built)) ∨
    ∃ after result, entry.sync b r graph fetched moment = (after, result, {}) ∧ result.success = false ∧
      after.nodes = entry.nodes ∧ after.edges = entry.edges := by
  by_cases enabled : graph.enabled = true
  · by_cases url : graph.graphJsonUrl.getD "" = ""
    · refine .inr ⟨entry.setDegraded "graph_json_url is missing; only MCP/GUI configured",
        .failed none "No graph_json_url configured", ?_, rfl, rfl, rfl⟩
      rw [sync, if_neg (by simp [enabled]), if_pos url]
    · cases fetched with
      | error error =>
        refine .inr ⟨entry.setDegraded error, .failed (some graph.graphId) error, ?_, rfl, rfl, rfl⟩
        rw [sync, if_neg (by simp [enabled]), if_neg url]
        rfl
      | ok payload =>
        cases lists : readPayload payload with
        | error error =>
          have refused : entry.update b r graph moment payload = .error error := by
            rw [update, lists]
            rfl
          refine .inr ⟨entry.setDegraded error, .failed (some graph.graphId) error, ?_, rfl, rfl, rfl⟩
          rw [sync, if_neg (by simp [enabled]), if_neg url]
          simp only [Except.bind, refused]
        | ok pair =>
          cases made : buildCache b r graph moment.fresh pair.1 pair.2 with
          | error error => exact .inr ⟨_, _, sync_of_unbuilt enabled url lists made entry, rfl, rfl, rfl⟩
          | ok built => exact .inl ⟨payload, _, _, built, rfl, lists, made, sync_of_built enabled url lists made entry⟩
  · refine .inr ⟨entry, .failed none ("Graph " ++ graph.graphId ++ " is disabled"), ?_, rfl, rfl, rfl⟩
    rw [sync, if_pos (Bool.eq_false_iff.mpr enabled)]

namespace FederationManager

variable {m : FederationManager}

theorem graphConfig_eq (configured : graph ∈ m.graphs) : m.graphConfig graph.graphId = some graph := by
  cases found : m.graphConfig graph.graphId with
  | none =>
    have other := List.find?_eq_none.mp found graph configured
    simp at other
  | some g =>
    have same : g.graphId = graph.graphId := by simpa using List.find?_some found
    rw [List.inj_on_of_nodup_map m.distinct (List.mem_of_find?_eq_some found) configured same]

theorem syncGraph_eq (configured : graph ∈ m.graphs) {request : Request} (asked : request.graphId = graph.graphId) :
    m.syncGraph b r request = (
      { m with
        cache := Function.update m.cache graph.graphId
          ((m.cache graph.graphId).sync b r graph request.fetched request.moment).1 },
      ((m.cache graph.graphId).sync b r graph request.fetched request.moment).2) := by
  rw [syncGraph, asked, graphConfig_eq configured]

theorem syncGraph_unknown {request : Request} (unknown : ∀ graph ∈ m.graphs, request.graphId ≠ graph.graphId) :
    (m.syncGraph b r request).1 = m := by
  have none : m.graphConfig request.graphId = none := by
    rw [graphConfig, List.find?_eq_none]
    intro graph configured same
    exact unknown graph configured (of_decide_eq_true same).symm
  rw [syncGraph, none]

end FederationManager

end MetadataGraph.Federation
