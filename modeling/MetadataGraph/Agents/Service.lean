import MetadataGraph.Graph.Outcomes
import MetadataGraph.Agents.Tools

namespace MetadataGraph.Agents

open MetadataGraph.Graph ObjectHeap

/-- `GraphAuthorizationDecision`, with the narrowing as what it says of a node. -/
structure Decision where
  allowed : Bool := true
  reason : String := ""
  mode : String := "permissive"
  source : String := "default"
  narrowed : Bool := false
  visible : Node → Bool := fun _ => true

/-- What a method of the graph service raises. -/
inductive Raised where
  | badCall (tool : String) (args : Dict Json)
  | badValue (value : Json)
  | storage (error : LibraryError)
  | stale (nodeId : String) (expected : Json)

/-- What the graph service takes from its surroundings. `node` and `edge` are the constructors of the
models, `valueError` is which errors of libraries are a `ValueError`; no exception has an empty text. -/
structure ServiceConfig where
  storage : StorageConfig
  node : Fresh → Dict Json → Except String Node
  edge : Fresh → Dict Json → Except String Edge
  savedViewAnnotationError : Dict Json → Option String
  serializeNode : Node → Json
  serializeEdge : Edge → Json
  str : Json → String
  valueError : LibraryError → Bool
  queries : String → Option (Dict Json → Storage → Except Raised Json)
  queries_write_file : queries "write_file" = none
  text : Raised → String
  text_ne : ∀ raised, text raised ≠ ""

/-- What a call meets: the clock, the default factories, the embedding model and the authorization. -/
structure Moment where
  now : Datetime
  fresh : Nat → Fresh
  encoded : Option (List (List ℚ)) := none
  evaluate : String → Decision := fun _ => {}
  attribution : String → Option Json := fun _ => none

/-- A result of the graph service. -/
def respond (entries : List (String × Json)) : Json := .obj (Dict.of entries).toList

/-- `attach_mutation_attribution`. -/
def attributed (moment : Moment) (target : String) (entries : List (String × Json)) : Json :=
  respond (entries ++ match moment.attribution target with
    | none => []
    | some attribution => [("attribution", attribution)])

/-- `build_access_denied_result`, with the lists that a caller adds. -/
def accessDenied (target : String) (decision : Decision) (lists : List (String × Json)) : Json :=
  respond ([("success", .bool false), ("error", .str "Graph access denied"),
    ("message", .str (if decision.reason = "" then "Graph access denied." else decision.reason)),
    ("error_code", .str "access_denied"),
    ("authorization", respond [("action", .str "mutate"), ("target", .str target), ("mode", .str decision.mode),
      ("source", .str decision.source)])] ++ lists)

/-- The parameters that name what an event comes from. -/
def eventParameters : List String := ["event_origin", "event_session_id", "event_correlation_id"]

/-- `method(**args)` finds a value for every parameter that needs one, and no other argument. -/
def Accepts (required optional : List String) (args : Dict Json) : Prop :=
  (∀ key ∈ required, key ∈ args) ∧ ∀ key ∈ args.keys, key ∈ required ++ optional ++ eventParameters

instance (required optional : List String) (args : Dict Json) : Decidable (Accepts required optional args) :=
  inferInstanceAs (Decidable (_ ∧ _))

/-- The items that a loop over the value meets. -/
def iterated : Json → Option (List Json)
  | .arr items => some items
  | .str s => some (s.toList.map fun c => .str (String.singleton c))
  | .obj entries => some (entries.map fun entry => .str entry.1)
  | .null | .bool _ | .num _ => none

namespace ServiceConfig

def nodeModelFields : List String :=
  ["id", "type", "name", "description", "summary", "tags", "subtypes", "aliases", "metadata", "embedding", "created_at",
   "updated_at"]

def savedViewNodeTypes : List String := ["SavedView", "VisualizationView"]

/-- The fields a node is built from: what is no field of the model goes into the metadata. -/
def nodeFields (cfg : ServiceConfig) (data : Dict Json) : Option (Dict Json) :=
  let extra := data.filter fun key _ => key ∉ nodeModelFields
  if extra.isEmpty then some data
  else (Storage.toDict cfg.storage (data.get "metadata")).map fun metadata =>
    (data.filter fun key _ => key ∈ nodeModelFields).insert "metadata" (.obj (metadata ∪ extra).toList)

/-- `Node(**node_dict)` of one entry of `nodes`, with the text of what is wrong with it. -/
def readNode (cfg : ServiceConfig) (fresh : Fresh) (value : Json) : Except String Node :=
  match (match value with
    | .obj entries => some (Dict.of entries)
    | other => cfg.storage.coerceDict other).bind cfg.nodeFields with
  | none => .error (cfg.text (.badValue value))
  | some fields => do
    let node ← cfg.node fresh fields
    if node.typeStr ∈ savedViewNodeTypes then match cfg.savedViewAnnotationError node.metadata with
      | some error => throw error
      | none => return node
    else return node

/-- `Edge(**e)` of one entry of `edges`. -/
def readEdge (cfg : ServiceConfig) (fresh : Fresh) : Json → Except String Edge
  | .obj entries => cfg.edge fresh (.of entries)
  | other => .error (cfg.text (.badValue other))

/-- The node and edge objects of a call of `add_nodes`. -/
def readObjects (cfg : ServiceConfig) (moment : Moment) (nodes edges : Json) :
    Except String (List Node × List Edge) := do
  let some nodeValues := iterated nodes | throw (cfg.text (.badValue nodes))
  let nodeObjects ← nodeValues.zipIdx.mapM fun (value, i) => cfg.readNode (moment.fresh i) value
  let some edgeValues := iterated edges | throw (cfg.text (.badValue edges))
  let edgeObjects ← edgeValues.zipIdx.mapM fun (value, i) => cfg.readEdge (moment.fresh (nodeValues.length + i)) value
  return (nodeObjects, edgeObjects)

/-- The storage with new objects that nothing refers to yet, and their references. -/
def allocate (nodes : List Node) (edges : List Edge) (σ : Storage) : Storage × List Ref × List Ref :=
  ({ σ with nodeObjects := (σ.nodeObjects.allocAll nodes).1, edgeObjects := (σ.edgeObjects.allocAll edges).1 },
    (σ.nodeObjects.allocAll nodes).2, (σ.edgeObjects.allocAll edges).2)

def addNodes (cfg : ServiceConfig) (moment : Moment) (nodes edges : Json) (σ : Storage) : Storage × Json :=
  let decision := moment.evaluate "add_nodes"
  if decision.allowed then
    match cfg.readObjects moment nodes edges with
    | .error error => (σ, respond [("success", .bool false), ("message", .str ("Error validating input: " ++ error)),
        ("added_node_ids", .arr []), ("added_edge_ids", .arr [])])
    | .ok (nodeObjects, edgeObjects) =>
      let (σ, nodeRefs, edgeRefs) := allocate nodeObjects edgeObjects σ
      let (σ, result) := σ.addNodes cfg.storage nodeRefs edgeRefs moment.encoded
      let shown := if result.success then
        [("nodes", .arr ((result.addedNodeIds.filterMap σ.nodes.get?).map (cfg.serializeNode ∘ σ.node))),
         ("edges", .arr ((result.addedEdgeIds.filterMap σ.edges.get?).map (cfg.serializeEdge ∘ σ.edge))),
         ("action", .str "add_to_visualization")] else []
      (σ, attributed moment "add_nodes"
        ([("added_node_ids", .ofStrings result.addedNodeIds), ("added_edge_ids", .ofStrings result.addedEdgeIds),
          ("success", .bool result.success), ("message", .str result.message)] ++ shown))
  else (σ, accessDenied "add_nodes" decision [("added_node_ids", .arr []), ("added_edge_ids", .arr [])])

/-- A value in a formatted text. -/
def formatted (cfg : ServiceConfig) : Json → String
  | .str s => s
  | other => cfg.str other

def notFound (cfg : ServiceConfig) (nodeId : Json) : Json :=
  respond [("success", .bool false), ("error", .str ("Node with ID " ++ cfg.formatted nodeId ++ " not found"))]

def validationError (error : String) : Json :=
  respond [("success", .bool false), ("error", .str ("Error validating input: " ++ error))]

/-- The node object that a value is the id of; a value that cannot be looked up raises. -/
def getNode (σ : Storage) (nodeId : Json) : Except Raised (Option Ref) :=
  if nodeId.hashable then .ok (nodeId.string?.bind σ.nodes.get?) else .error (.badValue nodeId)

/-- The answer to an update that another one has come before. -/
def conflict (cfg : ServiceConfig) (node : Node) (expected : Json) : Json :=
  respond [("success", .bool false), ("conflict", .bool true), ("error", .str (cfg.text (.stale node.id expected))),
    ("current_updated_at", .str node.updatedAt.isoformat)]

/-- The answer to what `storage.update_node` raises for a node. -/
def updateRaised (cfg : ServiceConfig) (node : Node) (expected : Json) : StorageError → Except Raised Json
  | .stale _ _ _ => .ok (cfg.conflict node expected)
  | .value message => .ok (validationError message)
  | .library error =>
    if cfg.valueError error then .ok (validationError (cfg.text (.storage error))) else .error (.storage error)

/-- `storage.update_node` of a node that is there, with the guard as a text, and the answer to what it
returns or raises. -/
def updateGuarded (cfg : ServiceConfig) (moment : Moment) (ref : Ref) (updates metadataMerge expected : Json)
    (guard : Option String) (σ : Storage) : Storage × Except Raised Json :=
  let node := σ.node ref
  let request (updates : Dict Json) : Storage.NodeUpdate :=
    { updates, metadataMerge := metadataMerge.truthy, expectedUpdatedAt := guard.map .inl, now := moment.now
      encoded := moment.encoded.bind List.head? }
  match updates with
  | .obj entries => match σ.updateNode cfg.storage node.id (request (.of entries)) with
    | (σ, .ok none) => (σ, .ok (cfg.notFound (.str node.id)))
    | (σ, .ok (some ref)) =>
      let shown := cfg.serializeNode (σ.node ref)
      (σ, .ok (attributed moment "update_node" [("success", .bool true), ("node", shown), ("nodes", .arr [shown]),
        ("action", .str "update_in_visualization")]))
    | (σ, .error error) => (σ, cfg.updateRaised node expected error)
  | other => match (request {}).guard cfg.storage node with
    | .ok _ => (σ, .error (.badValue other))
    | .error error => (σ, cfg.updateRaised node expected error)

/-- The guard may be a text; any other value but none is not the time of the last change. -/
def updateStored (cfg : ServiceConfig) (moment : Moment) (ref : Ref) (updates metadataMerge expected : Json)
    (σ : Storage) : Storage × Except Raised Json :=
  match expected with
  | .null => cfg.updateGuarded moment ref updates metadataMerge expected none σ
  | .str text => cfg.updateGuarded moment ref updates metadataMerge expected (some text) σ
  | _ => (σ, .ok (cfg.conflict (σ.node ref) expected))

def updateNode (cfg : ServiceConfig) (moment : Moment) (nodeId updates metadataMerge expected : Json) (σ : Storage) :
    Storage × Except Raised Json :=
  let decision := moment.evaluate "update_node"
  if decision.allowed then
    match getNode σ nodeId with
    | .error raised => (σ, .error raised)
    | .ok target =>
      if decision.narrowed && !target.any fun ref => decision.visible (σ.node ref) then (σ, .ok (cfg.notFound nodeId))
      else match target with
        | none => (σ, .ok (cfg.notFound nodeId))
        | some ref =>
          if (σ.node ref).typeStr ∈ savedViewNodeTypes then match updates with
            | .obj entries => match Dict.get (Dict.of entries) "metadata" with
              | .obj metadata => match cfg.savedViewAnnotationError (.of metadata) with
                | some error => (σ, .ok (validationError error))
                | none => cfg.updateStored moment ref updates metadataMerge expected σ
              | _ => cfg.updateStored moment ref updates metadataMerge expected σ
            | other => (σ, .error (.badValue other))
          else cfg.updateStored moment ref updates metadataMerge expected σ
  else (σ, .ok (accessDenied "update_node" decision []))

/-- The items that are left when those are dropped that a narrowed caller does not see. -/
def visibleItems (decision : Decision) (sees : Json → Bool) (value : Json) : Except Raised (List Json) :=
  match iterated value with
  | none => .error (.badValue value)
  | some items =>
    if decision.narrowed then
      if items.all Json.hashable then .ok (items.filter sees) else .error (.badValue value)
    else .ok items

def seesNode (decision : Decision) (σ : Storage) (nodeId : Json) : Bool :=
  (nodeId.string?.bind σ.nodes.get?).any fun ref => decision.visible (σ.node ref)

/-- An edge is seen where both of its ends are. -/
def seesEdge (decision : Decision) (σ : Storage) (edgeId : Json) : Bool :=
  (edgeId.string?.bind σ.edges.get?).any fun ref =>
    seesNode decision σ (.str (σ.edge ref).source) && seesNode decision σ (.str (σ.edge ref).target)

/-- The ids that a loop meets before one that cannot be looked up. -/
def lookedUp (items : List Json) : List String := (items.takeWhile Json.hashable).filterMap Json.string?

/-- `storage.delete_nodes` of a list of any values. -/
def deleteStoredNodes (cfg : ServiceConfig) (items : List Json) (confirmed : Bool) (σ : Storage) :
    Storage × DeleteNodesResult :=
  if items.length > 10 then
    (σ, { success := false, message := "Max 10 nodes can be deleted at a time. Contact admin for bulk deletion." })
  else if ¬ confirmed then (σ, { success := false, message := "Deletion requires confirmed=True parameter" })
  else if items.all Json.hashable then σ.deleteNodes cfg.storage (lookedUp items) true
  else
    ((σ.deleteEach (lookedUp items)).1,
      { success := false, message := "Error during deletion: " ++ cfg.text (.badValue (.arr items)) })

def deleteNodes (cfg : ServiceConfig) (moment : Moment) (nodeIds confirmed : Json) (σ : Storage) :
    Storage × Except Raised Json :=
  let decision := moment.evaluate "delete_nodes"
  if decision.allowed then
    match visibleItems decision (seesNode decision σ) nodeIds with
    | .error raised => (σ, .error raised)
    | .ok items =>
      let (σ, result) := cfg.deleteStoredNodes items confirmed.truthy σ
      (σ, .ok (attributed moment "delete_nodes"
        [("deleted_node_ids", .ofStrings result.deletedNodeIds), ("affected_edge_ids", .ofStrings result.affectedEdgeIds),
         ("success", .bool result.success), ("message", .str result.message)]))
  else (σ, .ok (accessDenied "delete_nodes" decision [("deleted_node_ids", .arr []), ("affected_edge_ids", .arr [])]))

/-- `storage.delete_edges` of a list of any values. -/
def deleteStoredEdges (cfg : ServiceConfig) (items : List Json) (σ : Storage) : Storage × DeleteEdgesResult :=
  if items.all Json.hashable then σ.deleteEdges (lookedUp items)
  else
    ((σ.deleteEachEdge (lookedUp items)).1,
      { deletedEdgeIds := [], success := false,
        message := "Error during edge deletion: " ++ cfg.text (.badValue (.arr items)) })

def edgesRefused (message : String) : Json :=
  respond [("deleted_edge_ids", .arr []), ("success", .bool false), ("message", .str message)]

def deleteEdges (cfg : ServiceConfig) (moment : Moment) (edgeIds confirmed : Json) (σ : Storage) :
    Storage × Except Raised Json :=
  let decision := moment.evaluate "delete_edges"
  if decision.allowed then
    match iterated edgeIds with
    | none => (σ, .error (.badValue edgeIds))
    | some items =>
      if items.length > 50 then (σ, .ok (edgesRefused "Max 50 edges can be deleted at a time."))
      else if ¬ confirmed.truthy then
        (σ, .ok (edgesRefused "Deletion requires confirmed=True. Please confirm before proceeding."))
      else match visibleItems decision (seesEdge decision σ) edgeIds with
        | .error raised => (σ, .error raised)
        | .ok items =>
          let (σ, result) := cfg.deleteStoredEdges items σ
          (σ, .ok (attributed moment "delete_edges" [("deleted_edge_ids", .ofStrings result.deletedEdgeIds),
            ("success", .bool result.success), ("message", .str result.message)]))
  else (σ, .ok (accessDenied "delete_edges" decision [("deleted_edge_ids", .arr [])]))

/-- A method is run if the arguments fit its parameters. -/
def bound (required optional : List String) (method : String) (args : Dict Json) (σ : Storage)
    (run : Storage × Except Raised Json) : Storage × Except Raised Json :=
  if Accepts required optional args then run else (σ, .error (.badCall method args))

/-- A method of the graph service called with keyword arguments; there may be none of the name. -/
def call (cfg : ServiceConfig) (moment : Moment) (method : String) (args : Dict Json) (σ : Storage) :
    Option (Storage × Except Raised Json) :=
  if method = "add_nodes" then
    let done := cfg.addNodes moment (args.get "nodes") (args.get "edges") σ
    some (bound ["nodes", "edges"] [] method args σ (done.1, .ok done.2))
  else if method = "update_node" then
    some (bound ["node_id", "updates"] ["metadata_merge", "expected_updated_at"] method args σ
      (cfg.updateNode moment (args.get "node_id") (args.get "updates") (args.get "metadata_merge")
        (args.get "expected_updated_at") σ))
  else if method = "delete_nodes" then
    some (bound ["node_ids"] ["confirmed"] method args σ
      (cfg.deleteNodes moment (args.get "node_ids") (args.get "confirmed") σ))
  else if method = "delete_edges" then
    some (bound ["edge_ids"] ["confirmed"] method args σ
      (cfg.deleteEdges moment (args.get "edge_ids") (args.get "confirmed") σ))
  else (cfg.queries method).map fun query => (σ, query args σ)

end ServiceConfig

/-- The arguments as `_execute_graph_tool` completes them. -/
def completed (agentId toolName : String) (inputArgs : Dict Json) : Dict Json :=
  let args := if agentId ≠ "" ∧ toolName ∈ ["add_nodes", "update_node", "delete_nodes", "delete_edges"] then
    inputArgs.insert "event_origin" (.str ("agent:" ++ agentId)) else inputArgs
  if toolName = "add_nodes" then (args.insertIfNew "edges" (.arr [])).insertIfNew "nodes" (.arr []) else args

/-- `_execute_graph_tool`. -/
def executeGraphTool (graphService : Option ServiceConfig) (moment : Moment) (agentId toolName : String)
    (inputArgs : Dict Json) (σ : Storage) : Storage × Except String Json :=
  match graphService with
  | none => (σ, .ok (errorResult "Graph service not available"))
  | some cfg => match cfg.call moment toolName (completed agentId toolName inputArgs) σ with
    | none => (σ, .ok (errorResult ("Unknown graph tool: " ++ toolName)))
    | some (σ, .ok result) => (σ, .ok result)
    | some (σ, .error raised) => (σ, .ok (errorResult (cfg.text raised)))

/-- The graph service reported that it did what it was asked for. -/
def effective (result : Json) : Bool := result.field "success" = .bool true

/-- The result carries an error that is not empty. -/
def complains (result : Json) : Bool := (result.field "error").truthy

theorem field_toList (d : Dict Json) (key : String) : (Json.obj d.toList).field key = d.get key := by
  rw [Json.field, Dict.get]
  congr 1
  cases atKey : d[key]? with
  | none =>
    rw [Option.map_eq_none_iff, List.find?_eq_none]
    rintro ⟨k, v⟩ member same
    obtain rfl : k = key := of_decide_eq_true same
    rw [Std.ExtTreeMap.mem_toList_iff_getElem?_eq_some.mp member] at atKey
    cases atKey
  | some value =>
    have present := Std.ExtTreeMap.mem_toList_iff_getElem?_eq_some.mpr atKey
    cases found : d.toList.find? (·.1 = key) with
    | none => exact absurd (decide_eq_true rfl) (List.find?_eq_none.mp found (key, value) present)
    | some entry =>
      obtain ⟨k, v⟩ := entry
      have named := List.find?_some found
      obtain rfl : k = key := of_decide_eq_true named
      rw [Std.ExtTreeMap.mem_toList_iff_getElem?_eq_some.mp (List.mem_of_find?_eq_some found)] at atKey
      cases atKey
      rfl

theorem field_respond {entries : List (String × Json)} (distinct : (entries.map Prod.fst).Nodup) (key : String) :
    (respond entries).field key = ((entries.find? (·.1 = key)).map Prod.snd).getD .null := by
  rw [respond, field_toList, Dict.get]
  congr 1
  cases found : entries.find? (·.1 = key) with
  | none =>
    refine Std.ExtTreeMap.getElem?_ofList_of_contains_eq_false ?_
    rw [List.contains_eq_mem, decide_eq_false_iff_not, List.mem_map]
    rintro ⟨⟨k, v⟩, member, rfl⟩
    exact List.find?_eq_none.mp found _ member (decide_eq_true rfl)
  | some entry =>
    obtain ⟨k, v⟩ := entry
    have named := List.find?_some found
    obtain rfl : k = key := of_decide_eq_true named
    exact Dict.getElem?_of distinct (List.mem_of_find?_eq_some found)

/-- The attribution changes no other field. -/
theorem field_attributed {entries : List (String × Json)} (distinct : (entries.map Prod.fst).Nodup)
    (apart : "attribution" ∉ entries.map Prod.fst) (moment : Moment) (target : String) {key : String}
    (other : key ≠ "attribution") : (attributed moment target entries).field key = (respond entries).field key := by
  rw [attributed]
  split
  · rw [List.append_nil]
  · rename_i attribution _
    have longer : ((entries ++ [("attribution", attribution)]).map Prod.fst).Nodup := by
      rw [List.map_append, List.nodup_append]
      refine ⟨distinct, by simp, fun a member b last same => apart ?_⟩
      rw [List.map_singleton, List.mem_singleton] at last
      have named : a = "attribution" := same.trans last
      exact named ▸ member
    rw [field_respond longer, field_respond distinct, List.find?_append]
    cases entries.find? (·.1 = key) with
    | some entry => rfl
    | none => simp [Ne.symm other]

/-- A refusal that carries an error. -/
structure Complaint (result : Json) : Prop where
  complains : complains result = true
  ineffective : effective result = false

theorem complaint_respond {entries : List (String × Json)} (distinct : (entries.map Prod.fst).Nodup)
    (failed : entries.find? (·.1 = "success") = some ("success", .bool false)) {error : String}
    (given : entries.find? (·.1 = "error") = some ("error", .str error)) (worded : error ≠ "") :
    Complaint (respond entries) := by
  constructor
  · rw [Agents.complains, field_respond distinct, given]
    exact decide_eq_true worded
  · rw [effective, field_respond distinct, failed]
    rfl

theorem complaint_errorResult {error : String} (worded : error ≠ "") : Complaint (errorResult error) :=
  ⟨decide_eq_true worded, rfl⟩

theorem complaint_accessDenied (target : String) (decision : Decision) {lists : List (String × Json)}
    (distinct : (["success", "error", "message", "error_code", "authorization"] ++ lists.map Prod.fst).Nodup) :
    Complaint (accessDenied target decision lists) := by
  have worded : "Graph access denied" ≠ "" := by decide
  exact complaint_respond distinct rfl rfl worded

theorem complaint_validationError (error : String) : Complaint (ServiceConfig.validationError error) := by
  refine complaint_respond (by simp) rfl rfl ?_
  intro empty
  exact absurd (congrArg String.length empty) (by simp)

theorem complaint_notFound (cfg : ServiceConfig) (nodeId : Json) : Complaint (cfg.notFound nodeId) := by
  refine complaint_respond (by simp) rfl rfl ?_
  intro empty
  exact absurd (congrArg String.length empty) (by simp)

theorem complaint_conflict (cfg : ServiceConfig) (node : Node) (expected : Json) : Complaint (cfg.conflict node expected) :=
  complaint_respond (by simp) rfl rfl (cfg.text_ne _)

/-- A result without an error, which says only by its flag whether the action took effect. -/
structure Quiet (result : Json) (success : Bool) : Prop where
  quiet : complains result = false
  flag : effective result = success

section Shapes

variable {entries : List (String × Json)} {success : Bool}

theorem quiet_respond (distinct : (entries.map Prod.fst).Nodup)
    (flag : entries.find? (·.1 = "success") = some ("success", .bool success))
    (none : entries.find? (·.1 = "error") = none) : Quiet (respond entries) success := by
  constructor
  · rw [complains, field_respond distinct, none]
    rfl
  · rw [effective, field_respond distinct, flag]
    cases success <;> rfl

theorem quiet_attributed (distinct : (entries.map Prod.fst).Nodup) (apart : "attribution" ∉ entries.map Prod.fst)
    (flag : entries.find? (·.1 = "success") = some ("success", .bool success))
    (none : entries.find? (·.1 = "error") = none) (moment : Moment) (target : String) :
    Quiet (attributed moment target entries) success := by
  obtain ⟨quiet, flag⟩ := quiet_respond distinct flag none
  constructor
  · rw [complains, field_attributed distinct apart moment target (by decide)]
    exact quiet
  · rw [effective, field_attributed distinct apart moment target (by decide)]
    exact flag

end Shapes

variable {σ : Storage}

/-- Every entry is read, and the storage can add them all. -/
def AddsAll (cfg : ServiceConfig) (moment : Moment) (nodes edges : Json) (σ : Storage) : Prop :=
  ∃ nodeObjects edgeObjects, cfg.readObjects moment nodes edges = .ok (nodeObjects, edgeObjects) ∧
    (ServiceConfig.allocate nodeObjects edgeObjects σ).1.Addable cfg.storage
      (ServiceConfig.allocate nodeObjects edgeObjects σ).2.1 (ServiceConfig.allocate nodeObjects edgeObjects σ).2.2

/-- A result from which it can be told whether the action took effect. -/
def Told : Except Raised Json → Prop
  | .error _ => True
  | .ok result => Complaint result ∨ Quiet result true

/-- The answer tells whether the action took effect, unless it is refused silently. -/
structure Answered (silent : Prop) (answer : Except Raised Json) : Prop where
  refused : silent → ∃ result, answer = .ok result ∧ Quiet result false
  told : ¬ silent → Told answer

theorem Answered.of_told {silent : Prop} {answer : Except Raised Json} (not : ¬ silent) (told : Told answer) :
    Answered silent answer :=
  ⟨fun silent => absurd silent not, fun _ => told⟩

theorem Answered.of_refused {silent : Prop} {result : Json} (silence : silent) (refused : Quiet result false) :
    Answered silent (.ok result) :=
  ⟨fun _ => ⟨result, rfl, refused⟩, fun not => absurd silence not⟩

theorem addNodes_answered (cfg : ServiceConfig) (moment : Moment) (nodes edges : Json) (σ : Storage) :
    Answered ((moment.evaluate "add_nodes").allowed = true ∧ ¬ AddsAll cfg moment nodes edges σ)
      (.ok (cfg.addNodes moment nodes edges σ).2) := by
  rw [ServiceConfig.addNodes]
  dsimp only
  by_cases allowed : (moment.evaluate "add_nodes").allowed = true
  · rw [if_pos allowed]
    cases read : cfg.readObjects moment nodes edges with
    | error error =>
      refine .of_refused ⟨allowed, ?_⟩ (quiet_respond (by simp) rfl rfl)
      rintro ⟨nodeObjects, edgeObjects, ok, _⟩
      rw [read] at ok
      cases ok
    | ok objects =>
      obtain ⟨nodeObjects, edgeObjects⟩ := objects
      have inside : ∀ ref ∈ (ServiceConfig.allocate nodeObjects edgeObjects σ).2.2,
          ref < (ServiceConfig.allocate nodeObjects edgeObjects σ).1.edgeObjects.size := by
        intro ref member
        have fresh := Heap.allocAll_fresh member
        rw [ServiceConfig.allocate, Heap.size_allocAll]
        exact fresh.2
      have success := Storage.addNodes_success_iff cfg.storage (ServiceConfig.allocate nodeObjects edgeObjects σ).2.1
        moment.encoded inside
      dsimp only
      generalize (ServiceConfig.allocate nodeObjects edgeObjects σ).1.addNodes cfg.storage
        (ServiceConfig.allocate nodeObjects edgeObjects σ).2.1 (ServiceConfig.allocate nodeObjects edgeObjects σ).2.2
        moment.encoded = done at success
      by_cases adds : (ServiceConfig.allocate nodeObjects edgeObjects σ).1.Addable cfg.storage
          (ServiceConfig.allocate nodeObjects edgeObjects σ).2.1 (ServiceConfig.allocate nodeObjects edgeObjects σ).2.2
      · refine .of_told (fun silent => silent.2 ⟨nodeObjects, edgeObjects, read, adds⟩) ?_
        rw [success.mpr adds, if_pos rfl]
        exact .inr (quiet_attributed (by simp) (by simp) rfl rfl moment _)
      · refine .of_refused ⟨allowed, ?_⟩ ?_
        · rintro ⟨nodeObjects', edgeObjects', ok, adds'⟩
          rw [read] at ok
          cases ok
          exact adds adds'
        · rw [eq_false_of_ne_true (mt success.mp adds), if_neg Bool.false_ne_true]
          exact quiet_attributed (by simp) (by simp) rfl rfl moment _
  · rw [if_neg allowed]
    exact .of_told (fun silent => allowed silent.1) (.inl (complaint_accessDenied _ _ (by simp)))

/-- The nodes can be deleted: not too many, confirmed, and the embeddings that are left fit together. -/
structure DeletesAll (items : List Json) (confirmed : Bool) (σ : Storage) : Prop where
  few : items.length ≤ 10
  confirmed : confirmed = true
  hashable : items.all Json.hashable = true
  ends : σ.Ends (ServiceConfig.lookedUp items)
  stackable : Storage.Stackable (σ.known (ServiceConfig.lookedUp items)) σ.vectorStore

theorem length_lookedUp (items : List Json) : (ServiceConfig.lookedUp items).length ≤ items.length :=
  (List.length_filterMap_le _ _).trans (List.takeWhile_sublist _).length_le

theorem deleteStoredNodes_success_iff (cfg : ServiceConfig) (items : List Json) (confirmed : Bool) (σ : Storage) :
    (cfg.deleteStoredNodes items confirmed σ).2.success = true ↔ DeletesAll items confirmed σ := by
  rw [ServiceConfig.deleteStoredNodes]
  split
  · rename_i many
    exact ⟨fun no => (nomatch no), fun deletes => absurd deletes.few (Nat.not_le.mpr many)⟩
  · rename_i few
    split
    · rename_i unconfirmed
      exact ⟨fun no => (nomatch no), fun deletes => absurd deletes.confirmed unconfirmed⟩
    · rename_i confirmed
      split
      · rename_i hashable
        rw [Storage.deleteNodes_success_iff]
        constructor
        · rintro ⟨_, _, ends, stackable⟩
          exact ⟨Nat.not_lt.mp few, not_not.mp confirmed, hashable, ends, stackable⟩
        · intro deletes
          exact ⟨(length_lookedUp items).trans deletes.few, rfl, deletes.ends, deletes.stackable⟩
      · rename_i unhashable
        exact ⟨fun no => (nomatch no), fun deletes => absurd deletes.hashable unhashable⟩

theorem deleteNodes_answered (cfg : ServiceConfig) (moment : Moment) (nodeIds confirmed : Json) (σ : Storage) :
    Answered ((moment.evaluate "delete_nodes").allowed = true ∧ ∃ items,
        ServiceConfig.visibleItems (moment.evaluate "delete_nodes")
          (ServiceConfig.seesNode (moment.evaluate "delete_nodes") σ) nodeIds = .ok items ∧
        ¬ DeletesAll items confirmed.truthy σ)
      (cfg.deleteNodes moment nodeIds confirmed σ).2 := by
  rw [ServiceConfig.deleteNodes]
  dsimp only
  by_cases allowed : (moment.evaluate "delete_nodes").allowed = true
  · rw [if_pos allowed]
    cases seen : ServiceConfig.visibleItems (moment.evaluate "delete_nodes")
        (ServiceConfig.seesNode (moment.evaluate "delete_nodes") σ) nodeIds with
    | error raised =>
      refine .of_told ?_ trivial
      rintro ⟨_, items, ok, _⟩
      cases ok
    | ok items =>
      have success := deleteStoredNodes_success_iff cfg items confirmed.truthy σ
      dsimp only
      by_cases deletes : DeletesAll items confirmed.truthy σ
      · refine .of_told ?_ ?_
        · rintro ⟨_, items', ok, fails⟩
          cases ok
          exact fails deletes
        · rw [success.mpr deletes]
          exact .inr (quiet_attributed (by simp) (by simp) rfl rfl moment _)
      · refine .of_refused ⟨allowed, items, rfl, deletes⟩ ?_
        rw [eq_false_of_ne_true (mt success.mp deletes)]
        exact quiet_attributed (by simp) (by simp) rfl rfl moment _
  · rw [if_neg allowed]
    exact .of_told (fun silent => allowed silent.1) (.inl (complaint_accessDenied _ _ (by simp)))

/-- The edges can be deleted: not too many, confirmed, and all that are seen can be looked up. -/
def DeletesEdges (decision : Decision) (σ : Storage) (edgeIds : Json) (confirmed : Bool) (items : List Json) : Prop :=
  items.length ≤ 50 ∧ confirmed = true ∧ ∀ seen,
    ServiceConfig.visibleItems decision (ServiceConfig.seesEdge decision σ) edgeIds = .ok seen →
      seen.all Json.hashable = true

theorem deleteEdges_answered (cfg : ServiceConfig) (moment : Moment) (edgeIds confirmed : Json) (σ : Storage) :
    Answered ((moment.evaluate "delete_edges").allowed = true ∧ ∃ items, iterated edgeIds = some items ∧
        ¬ DeletesEdges (moment.evaluate "delete_edges") σ edgeIds confirmed.truthy items)
      (cfg.deleteEdges moment edgeIds confirmed σ).2 := by
  rw [ServiceConfig.deleteEdges]
  dsimp only
  by_cases allowed : (moment.evaluate "delete_edges").allowed = true
  · rw [if_pos allowed]
    cases looped : iterated edgeIds with
    | none =>
      refine .of_told ?_ trivial
      rintro ⟨_, _, no, _⟩
      cases no
    | some items =>
      dsimp only
      split
      · rename_i many
        exact .of_refused ⟨allowed, items, rfl, fun deletes => absurd deletes.1 (Nat.not_le.mpr many)⟩
          (quiet_respond (by simp) rfl rfl)
      · rename_i few
        split
        · rename_i unconfirmed
          exact .of_refused ⟨allowed, items, rfl, fun deletes => absurd deletes.2.1 unconfirmed⟩
            (quiet_respond (by simp) rfl rfl)
        · rename_i given
          cases seen : ServiceConfig.visibleItems (moment.evaluate "delete_edges")
              (ServiceConfig.seesEdge (moment.evaluate "delete_edges") σ) edgeIds with
          | error raised =>
            refine .of_told ?_ trivial
            rintro ⟨_, items', same, fails⟩
            cases same
            refine fails ⟨Nat.not_lt.mp few, not_not.mp given, fun seen' ok => ?_⟩
            rw [seen] at ok
            cases ok
          | ok seenItems =>
            dsimp only
            rw [ServiceConfig.deleteStoredEdges]
            by_cases hashable : seenItems.all Json.hashable = true
            · rw [if_pos hashable]
              refine .of_told ?_ (.inr (quiet_attributed (by simp) (by simp) rfl rfl moment _))
              rintro ⟨_, items', same, fails⟩
              cases same
              refine fails ⟨Nat.not_lt.mp few, not_not.mp given, fun seen' ok => ?_⟩
              rw [seen] at ok
              cases ok
              exact hashable
            · rw [if_neg hashable]
              refine .of_refused ⟨allowed, items, rfl, fun deletes => ?_⟩
                (quiet_attributed (by simp) (by simp) rfl rfl moment _)
              exact hashable (deletes.2.2 seenItems seen)
  · rw [if_neg allowed]
    exact .of_told (fun silent => allowed silent.1) (.inl (complaint_accessDenied _ _ (by simp)))

theorem told_updateRaised (cfg : ServiceConfig) (node : Node) (expected : Json) (error : StorageError) :
    Told (cfg.updateRaised node expected error) := by
  cases error with
  | stale id old current => exact .inl (complaint_conflict cfg node expected)
  | value message => exact .inl (complaint_validationError message)
  | library error =>
    rw [ServiceConfig.updateRaised]
    split
    · exact .inl (complaint_validationError _)
    · trivial

theorem told_updateGuarded (cfg : ServiceConfig) (moment : Moment) (ref : Ref) (updates metadataMerge expected : Json)
    (guard : Option String) (σ : Storage) :
    Told (cfg.updateGuarded moment ref updates metadataMerge expected guard σ).2 := by
  unfold ServiceConfig.updateGuarded
  dsimp only
  split
  · split
    · exact .inl (complaint_notFound cfg _)
    · exact .inr (quiet_attributed (by simp) (by simp) rfl rfl moment _)
    · exact told_updateRaised cfg _ _ _
  · split
    · trivial
    · exact told_updateRaised cfg _ _ _

theorem told_updateStored (cfg : ServiceConfig) (moment : Moment) (ref : Ref) (updates metadataMerge expected : Json)
    (σ : Storage) : Told (cfg.updateStored moment ref updates metadataMerge expected σ).2 := by
  unfold ServiceConfig.updateStored
  split
  · exact told_updateGuarded cfg moment ref updates metadataMerge .null none σ
  · exact told_updateGuarded cfg moment ref updates metadataMerge _ (some _) σ
  · exact .inl (complaint_conflict cfg _ _)

/-- A refused update always carries an error. -/
theorem told_updateNode (cfg : ServiceConfig) (moment : Moment) (nodeId updates metadataMerge expected : Json)
    (σ : Storage) : Told (cfg.updateNode moment nodeId updates metadataMerge expected σ).2 := by
  unfold ServiceConfig.updateNode
  dsimp only
  split
  · split
    · trivial
    · split
      · exact .inl (complaint_notFound cfg nodeId)
      · split
        · exact .inl (complaint_notFound cfg nodeId)
        · have stored := fun ref => told_updateStored cfg moment ref updates metadataMerge expected σ
          split
          · split
            · split
              · split
                · exact .inl (complaint_validationError _)
                · exact stored _
              · exact stored _
            · trivial
          · exact stored _
  · exact .inl (complaint_accessDenied _ _ (by simp))

/-- The graph service answers a call with no more than a message that the action did not take effect. -/
def RefusesSilently (cfg : ServiceConfig) (moment : Moment) (method : String) (args : Dict Json) (σ : Storage) : Prop :=
  (method = "add_nodes" ∧ Accepts ["nodes", "edges"] [] args ∧ (moment.evaluate "add_nodes").allowed = true ∧
    ¬ AddsAll cfg moment (args.get "nodes") (args.get "edges") σ) ∨
  (method = "delete_nodes" ∧ Accepts ["node_ids"] ["confirmed"] args ∧
    (moment.evaluate "delete_nodes").allowed = true ∧ ∃ items,
      ServiceConfig.visibleItems (moment.evaluate "delete_nodes")
        (ServiceConfig.seesNode (moment.evaluate "delete_nodes") σ) (args.get "node_ids") = .ok items ∧
      ¬ DeletesAll items (args.get "confirmed").truthy σ) ∨
  (method = "delete_edges" ∧ Accepts ["edge_ids"] ["confirmed"] args ∧
    (moment.evaluate "delete_edges").allowed = true ∧ ∃ items, iterated (args.get "edge_ids") = some items ∧
      ¬ DeletesEdges (moment.evaluate "delete_edges") σ (args.get "edge_ids") (args.get "confirmed").truthy items)

theorem told_bound {required optional : List String} {method : String} {args : Dict Json}
    {run : Storage × Except Raised Json} (told : Told run.2) :
    Told (ServiceConfig.bound required optional method args σ run).2 := by
  rw [ServiceConfig.bound]
  split
  · exact told
  · trivial

theorem bound_answered {silent : Prop} {required optional : List String} {method : String} {args : Dict Json}
    {run : Storage × Except Raised Json} (answered : Answered silent run.2) :
    Answered (Accepts required optional args ∧ silent) (ServiceConfig.bound required optional method args σ run).2 := by
  rw [ServiceConfig.bound]
  split
  · rename_i accepts
    simp only [accepts, true_and]
    exact answered
  · rename_i rejects
    exact .of_told (fun silent => rejects silent.1) trivial

/-- A call of a mutating method. -/
theorem call_answered (cfg : ServiceConfig) (moment : Moment) {method : String}
    (mutating : method ∈ ["add_nodes", "update_node", "delete_nodes", "delete_edges"]) (args : Dict Json) (σ : Storage) :
    ∃ done, cfg.call moment method args σ = some done ∧ Answered (RefusesSilently cfg moment method args σ) done.2 := by
  rw [ServiceConfig.call]
  dsimp only
  simp only [List.mem_cons, List.not_mem_nil, or_false] at mutating
  rcases mutating with rfl | rfl | rfl | rfl
  · rw [if_pos rfl]
    refine ⟨_, rfl, ?_⟩
    simp only [RefusesSilently, true_and, String.reduceEq, false_and, or_false]
    exact bound_answered (addNodes_answered cfg moment (args.get "nodes") (args.get "edges") σ)
  · rw [if_neg (by decide), if_pos rfl]
    refine ⟨_, rfl, ?_⟩
    simp only [RefusesSilently, String.reduceEq, false_and, or_false]
    exact .of_told not_false (told_bound (told_updateNode cfg moment _ _ _ _ σ))
  · rw [if_neg (by decide), if_neg (by decide), if_pos rfl]
    refine ⟨_, rfl, ?_⟩
    simp only [RefusesSilently, true_and, String.reduceEq, false_and, or_false, false_or]
    exact bound_answered (deleteNodes_answered cfg moment (args.get "node_ids") (args.get "confirmed") σ)
  · rw [if_neg (by decide), if_neg (by decide), if_neg (by decide), if_pos rfl]
    refine ⟨_, rfl, ?_⟩
    simp only [RefusesSilently, true_and, String.reduceEq, false_and, false_or]
    exact bound_answered (deleteEdges_answered cfg moment (args.get "edge_ids") (args.get "confirmed") σ)

/-- An executed tool of the graph integration tells whether its action took effect, by an error that is
not empty or by none, exactly if the service does not refuse it silently. -/
theorem executeGraphTool_told_iff (graphService : Option ServiceConfig) (moment : Moment) (agentId : String)
    {toolName : String} (mutating : toolName ∈ ["add_nodes", "update_node", "delete_nodes", "delete_edges", "write_file"])
    (inputArgs : Dict Json) (σ : Storage) :
    ∃ result, (executeGraphTool graphService moment agentId toolName inputArgs σ).2 = .ok result ∧
      ((effective result = !complains result) ↔ ∀ cfg, graphService = some cfg →
        ¬ RefusesSilently cfg moment toolName (completed agentId toolName inputArgs) σ) := by
  have complaint : ∀ {result}, Complaint result → (effective result = !complains result) := fun complaint => by
    rw [complaint.complains, complaint.ineffective]
    rfl
  cases graphService with
  | none =>
    refine ⟨_, rfl, fun _ cfg no => (nomatch no), fun _ => complaint (complaint_errorResult (by decide))⟩
  | some cfg =>
    rw [executeGraphTool]
    by_cases method : toolName ∈ ["add_nodes", "update_node", "delete_nodes", "delete_edges"]
    · obtain ⟨⟨τ, answer⟩, called, answered⟩ := call_answered cfg moment method (completed agentId toolName inputArgs) σ
      rw [called]
      by_cases silent : RefusesSilently cfg moment toolName (completed agentId toolName inputArgs) σ
      · obtain ⟨result, ok, quiet⟩ := answered.refused silent
        dsimp only at ok
        rw [ok]
        refine ⟨result, rfl, fun told => ?_, fun spared => absurd silent (spared cfg rfl)⟩
        rw [quiet.quiet, quiet.flag] at told
        cases told
      · have told := answered.told silent
        cases answer with
        | error raised =>
          exact ⟨_, rfl, fun _ cfg' same => Option.some.inj same ▸ silent,
            fun _ => complaint (complaint_errorResult (cfg.text_ne raised))⟩
        | ok result =>
          refine ⟨result, rfl, fun _ cfg' same => Option.some.inj same ▸ silent, fun _ => ?_⟩
          rcases told with refused | done
          · exact complaint refused
          · rw [done.quiet, done.flag]
            rfl
    · obtain rfl : toolName = "write_file" := by
        simp only [List.mem_cons, List.not_mem_nil, or_false] at mutating method
        tauto
      have unknown : cfg.call moment "write_file" (completed agentId "write_file" inputArgs) σ = none := by
        rw [ServiceConfig.call, if_neg (by decide), if_neg (by decide), if_neg (by decide), if_neg (by decide),
          cfg.queries_write_file, Option.map_none]
      rw [unknown]
      refine ⟨_, rfl, fun _ cfg' _ silent => ?_, fun _ => complaint (complaint_errorResult (by decide))⟩
      rcases silent with ⟨no, _⟩ | ⟨no, _⟩ | ⟨no, _⟩
      · exact absurd no (by decide)
      · exact absurd no (by decide)
      · exact absurd no (by decide)

end MetadataGraph.Agents
