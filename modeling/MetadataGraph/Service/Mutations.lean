import MetadataGraph.Graph.Frames
import MetadataGraph.Agents.Service
import MetadataGraph.Federation.Models
import MetadataGraph.Service.Access

namespace MetadataGraph.Service

open MetadataGraph.Graph MetadataGraph.Agents ObjectHeap Runs

/-- The decision as the write paths read it. -/
def GraphAuthorizationDecision.onNodes (t : Texts) (decision : GraphAuthorizationDecision) : Decision where
  allowed := decision.allowed
  reason := decision.reason
  mode := decision.mode
  source := decision.source
  narrowed := decision.graphAccess.enabled
  visible := isNodeVisible t decision.graphAccess

/-- The federation as an adoption uses it; `allowAdopt` is the capability of a configured graph. -/
structure Federated where
  manager : Federation.FederationManager
  allowAdopt : String → Bool

/-- The arguments of `adopt_federated_node`. -/
structure AdoptionRequest where
  federatedNodeId : String
  localName : Option String := none
  relationshipType : String := "ADOPTED_FROM"
  createNewCopy : Bool := false

/-- The write paths of the graph service. -/
inductive Mutation where
  | addNodes (nodes edges : Json)
  | updateNode (nodeId updates metadataMerge expectedUpdatedAt : Json)
  | deleteNodes (nodeIds confirmed : Json)
  | setNodesArchived (nodeIds : List String) (archived : Bool)
  | addEdge (source target : String) (type label : Option String)
  | updateEdge (edgeId : String) (updates : Dict Json)
  | deleteEdge (edgeId : String)
  | deleteEdges (edgeIds confirmed : Json)
  | setEdgesArchived (edgeIds : List String) (archived : Bool)
  | adoptFederatedNode (request : AdoptionRequest)

section Functions

variable (cfg : ServiceConfig) (moment : Moment)

/-- What is raised, or the text of what is caught as a `ValueError`. -/
def valueErrorText : StorageError → Except Raised String
  | .value message => .ok message
  | .library error => if cfg.valueError error then .ok (cfg.text (.storage error)) else .error (.storage error)
  | .stale nodeId _ _ => .error (.stale nodeId .null)

def setNodesArchived (nodeIds : List String) (archived : Bool) (σ : Storage) : Storage × Except Raised Json :=
  let decision := moment.evaluate "archive_nodes"
  if decision.allowed then
    let nodeIds := if decision.narrowed then nodeIds.filter fun id => ServiceConfig.seesNode decision σ (.str id) else nodeIds
    match σ.setNodesArchived (nodeIds.zipIdx.map fun entry => (entry.1, (moment.fresh entry.2).now)) archived with
    | (σ, .error error) => (σ, (valueErrorText cfg error).bind fun text => .error (.badValue (.str text)))
    | (σ, .ok found) => (σ, .ok (attributed moment "archive_nodes" [("success", .bool true), ("archived", .bool archived),
        ("node_ids", .ofStrings (found.map fun ref => (σ.node ref).id)),
        ("nodes", .arr (found.map fun ref => cfg.serializeNode (σ.node ref))), ("action", .str "update_in_visualization")]))
  else (σ, .ok (accessDenied "archive_nodes" decision [("node_ids", .arr [])]))

def edgeNotAdded : Json :=
  respond [("success", .bool false), ("message", .str "Could not add edge (source or target not found)")]

def edgeNotFound (edgeId : String) : Json :=
  respond [("success", .bool false), ("error", .str ("Edge with ID " ++ edgeId ++ " not found"))]

/-- `edge_data`. -/
def edgeData (source target : String) (type label : Option String) : Dict Json :=
  .of ([("source", .str source), ("target", .str target)] ++
    (if type.getD "" = "" then [] else [("type", .str (type.getD ""))]) ++
    if label.getD "" = "" then [] else [("label", .str (label.getD ""))])

def addEdge (source target : String) (type label : Option String) (σ : Storage) : Storage × Except Raised Json :=
  let decision := moment.evaluate "add_edge"
  if decision.allowed then
    if decision.narrowed && !(ServiceConfig.seesNode decision σ (.str source) &&
        ServiceConfig.seesNode decision σ (.str target)) then (σ, .ok edgeNotAdded)
    else match Edge.fromDict cfg.storage.readers (moment.fresh 0) (edgeData source target type label) with
      | none => (σ, .ok (respond [("success", .bool false), ("message",
          .str ("Invalid edge data: " ++ cfg.storage.errorText (.notValid (edgeData source target type label))))]))
      | some edge => match (σ.newEdge edge).addEdge cfg.storage σ.edgeObjects.size with
        | (σ', .error error) => (σ', (valueErrorText cfg error).map fun text =>
            respond [("success", .bool false), ("message", .str text)])
        | (σ', .ok none) => (σ', .ok edgeNotAdded)
        | (σ', .ok (some _)) =>
          let shown := cfg.serializeEdge (σ'.edge σ.edgeObjects.size)
          (σ', .ok (attributed moment "add_edge" [("success", .bool true), ("edge", shown), ("edges", .arr [shown]),
            ("action", .str "add_to_visualization")]))
  else (σ, .ok (accessDenied "add_edge" decision []))

def updateEdge (edgeId : String) (updates : Dict Json) (σ : Storage) : Storage × Except Raised Json :=
  let decision := moment.evaluate "update_edge"
  if decision.allowed then
    if decision.narrowed && !ServiceConfig.seesEdge decision σ (.str edgeId) then (σ, .ok (edgeNotFound edgeId))
    else match σ.updateEdge cfg.storage edgeId updates with
      | (σ, .error error) => (σ, (valueErrorText cfg error).map fun text =>
          respond [("success", .bool false), ("message", .str text)])
      | (σ, .ok none) => (σ, .ok (edgeNotFound edgeId))
      | (σ, .ok (some ref)) => (σ, .ok (attributed moment "update_edge" [("success", .bool true),
          ("edge", cfg.serializeEdge (σ.edge ref))]))
  else (σ, .ok (accessDenied "update_edge" decision []))

def deleteEdge (edgeId : String) (σ : Storage) : Storage × Except Raised Json :=
  let decision := moment.evaluate "delete_edge"
  if decision.allowed then
    if decision.narrowed && !ServiceConfig.seesEdge decision σ (.str edgeId) then (σ, .ok (edgeNotFound edgeId))
    else match σ.deleteEdge edgeId with
      | (σ, false) => (σ, .ok (edgeNotFound edgeId))
      | (σ, true) => (σ, .ok (attributed moment "delete_edge" [("success", .bool true), ("deleted_edge_id", .str edgeId)]))
  else (σ, .ok (accessDenied "delete_edge" decision []))

def setEdgesArchived (edgeIds : List String) (archived : Bool) (σ : Storage) : Storage × Except Raised Json :=
  let decision := moment.evaluate "archive_edges"
  if decision.allowed then
    let edgeIds := if decision.narrowed then edgeIds.filter fun id => ServiceConfig.seesEdge decision σ (.str id) else edgeIds
    match σ.setEdgesArchived edgeIds archived with
    | (σ, found) => (σ, .ok (attributed moment "archive_edges" [("success", .bool true), ("archived", .bool archived),
        ("edge_ids", .ofStrings (found.map fun ref => (σ.edge ref).id)),
        ("edges", .arr (found.map fun ref => cfg.serializeEdge (σ.edge ref))), ("action", .str "update_in_visualization")]))
  else (σ, .ok (accessDenied "archive_edges" decision [("edge_ids", .arr [])]))

/-- `get_graph_config_for_node`. -/
def graphConfigForNode (m : Federation.FederationManager) (federatedNodeId : String) :
    Option Federation.FederationGraphConfig :=
  ((m.cachedNode federatedNodeId).bind fun node => (node.metadata.get "origin_graph_id").string?).bind fun originGraphId =>
    if originGraphId = "" then none else m.graphConfig originGraphId

/-- The loop over the local nodes that looks for an adoption; metadata of another shape raises. -/
def alreadyAdopted (federatedNodeId : String) : List Node → Except Raised (Option Node)
  | [] => .ok none
  | node :: rest => match (node.metadata.get "adopted_from").orElse (.obj []) with
    | .obj entries =>
      if (Dict.of entries).get "federated_node_id" = .str federatedNodeId then .ok (some node)
      else alreadyAdopted federatedNodeId rest
    | other => .error (.badValue other)

/-- The metadata of the local node. -/
def adoptedMetadata (source : Node) : Dict Json :=
  (source.metadata.insert "is_adopted" (.bool true)).insert "adopted_from" (respond [
    ("federated_node_id", .str source.id), ("origin_graph_id", source.metadata.get "origin_graph_id"),
    ("origin_node_id", source.metadata.get "origin_node_id")])

/-- The name of the local node. -/
def adoptedName (localName : Option String) (source : Node) : String :=
  if localName.getD "" = "" then source.name else localName.getD ""

/-- The local node, unless its name is too long. -/
def adoptedNode (fresh : Fresh) (localName : Option String) (source : Node) : Option Node :=
  if limits : FieldLimits (adoptedName localName source) source.description source.summary source.tags [] then
    some { id := fresh.id, typeName := source.typeStr, name := adoptedName localName source,
           description := source.description, summary := source.summary, tags := source.tags,
           metadata := adoptedMetadata source, createdAt := fresh.now, updatedAt := fresh.now, limits }
  else none

theorem limits_reference (source : Node) :
    FieldLimits source.name source.description source.summary source.tags [] := by
  obtain ⟨name, description, summary, tags, _⟩ := source.limits
  exact ⟨name, description, summary, tags, Nat.zero_le _, fun _ none => absurd none List.not_mem_nil⟩

/-- The read-only copy to which the lineage edge leads. -/
def sourceReference (fresh : Fresh) (source : Node) : Node :=
  { id := source.id, typeName := source.typeStr, name := source.name, description := source.description,
    summary := source.summary, tags := source.tags,
    metadata := (source.metadata.insert "is_federated_reference" (.bool true)).insert "read_only" (.bool true),
    createdAt := fresh.now, updatedAt := fresh.now, limits := limits_reference source }

/-- What an adoption adds. -/
structure Adoption where
  source : Node
  node : Node
  reference : Option Node
  edge : Edge

def notAdopted (message : String) : Json :=
  respond [("success", .bool false), ("message", .str message), ("added_node_ids", .arr []), ("added_edge_ids", .arr [])]

def noAdditions : List (String × Json) := [("added_node_ids", .arr []), ("added_edge_ids", .arr [])]

def outOfScope : String := "Graph access denied for the selected graph scope."

/-- The node that is to be adopted, or the answer where it may not be. -/
def adoptable (federation : Option Federated) (request : AdoptionRequest) : Except Json Node :=
  let decision := moment.evaluate "adopt_federated_node"
  if decision.allowed = false then .error (accessDenied "adopt_federated_node" decision noAdditions)
  else match federation with
    | none => .error (notAdopted "Federation is not enabled")
    | some federation => match federation.manager.cachedNode request.federatedNodeId with
      | none => .error (notAdopted ("Federated node not found in cache: " ++ request.federatedNodeId))
      | some source =>
        if decision.visible source = false then
          .error (accessDenied "adopt_federated_node" { decision with allowed := false, reason := outOfScope } noAdditions)
        else match (graphConfigForNode federation.manager request.federatedNodeId).filter
            fun graph => !federation.allowAdopt graph.graphId with
          | some graph => .error (notAdopted ("Adoption is not allowed for source graph: " ++ graph.graphId))
          | none => .ok source

/-- The answer for a node that counts as adopted already. -/
def adoptedBefore (node source : Node) : Json :=
  respond ([("success", .bool true), ("message", .str "Federated node already adopted"),
    ("adopted_node", cfg.serializeNode node), ("source_node", cfg.serializeNode source), ("lineage_edge", .null)] ++
    noAdditions ++ [("action", .str "add_to_visualization"), ("already_adopted", .bool true)])

/-- The edge from the local node to its source, or to what is stored under the id of its source. -/
def lineageEdge (fresh : Fresh) (request : AdoptionRequest) (source node : Node) (held : Option Node) : Edge :=
  { id := fresh.id, source := node.id, target := (held.map Node.id).getD source.id
    type := if given : request.relationshipType = "" then relatesTo else ⟨request.relationshipType, given⟩
    label := "Adopted from federated source"
    metadata := .of [("is_federated_lineage", .bool true), ("origin_graph_id", source.metadata.get "origin_graph_id")]
    createdAt := fresh.now }

/-- What `adopt_federated_node` adds, or what it answers or raises where it adds nothing. -/
def prepareAdoption (federation : Option Federated) (request : AdoptionRequest) (σ : Storage) :
    Except (Except Raised Json) Adoption :=
  match adoptable moment federation request with
  | .error answer => .error (.ok answer)
  | .ok source =>
    match if request.createNewCopy then .ok none else alreadyAdopted source.id (σ.nodes.values.map σ.node) with
    | .error raised => .error (.error raised)
    | .ok (some node) => .error (.ok (adoptedBefore cfg node source))
    | .ok none => match adoptedNode (moment.fresh 0) request.localName source with
      | none => .error (.error (.badValue (.str (adoptedName request.localName source))))
      | some node =>
        match if node.typeStr ∈ ServiceConfig.savedViewNodeTypes then cfg.savedViewAnnotationError node.metadata else none with
        | some error => .error (.ok (notAdopted ("Error validating input: " ++ error)))
        | none => .ok {
            source, node
            reference := if (σ.stored source.id).isNone then some (sourceReference (moment.fresh 1) source) else none
            edge := lineageEdge (moment.fresh 2) request source node (σ.stored source.id) }

/-- The nodes of an adoption in the order in which they are added. -/
def Adoption.nodes (adoption : Adoption) : List Node := adoption.node :: adoption.reference.toList

def adoptFederatedNode (federation : Option Federated) (request : AdoptionRequest) (σ : Storage) :
    Storage × Except Raised Json :=
  match prepareAdoption cfg moment federation request σ with
  | .error answer => (σ, answer)
  | .ok adoption =>
    let objects := ServiceConfig.allocate adoption.nodes [adoption.edge] σ
    let (τ, result) := objects.1.addNodes cfg.storage objects.2.1 objects.2.2 moment.encoded
    let added := [("added_node_ids", .ofStrings result.addedNodeIds), ("added_edge_ids", .ofStrings result.addedEdgeIds)]
    if result.success then
      (τ, .ok (attributed moment "adopt_federated_node" ([("success", .bool true),
        ("message", .str "Federated node adopted into local graph"),
        ("adopted_node", cfg.serializeNode (τ.node σ.nodeObjects.size)), ("source_node", cfg.serializeNode adoption.source),
        ("lineage_edge", cfg.serializeEdge (τ.edge σ.edgeObjects.size))] ++ added ++
        [("action", .str "add_to_visualization")])))
    else (τ, .ok (respond (added ++ [("success", .bool false), ("message", .str result.message)])))

/-- The moment under the decision. -/
def under (t : Texts) (decision : GraphAuthorizationDecision) (moment : Moment) : Moment :=
  { moment with evaluate := fun _ => decision.onNodes t }

/-- A call of a write path under a decision. -/
def mutate (t : Texts) (federation : Option Federated) (decision : GraphAuthorizationDecision) (call : Mutation)
    (σ : Storage) : Storage × Except Raised Json :=
  let moment := under t decision moment
  match call with
  | .addNodes nodes edges => (cfg.addNodes moment nodes edges σ).map id .ok
  | .updateNode nodeId updates metadataMerge expectedUpdatedAt =>
    cfg.updateNode moment nodeId updates metadataMerge expectedUpdatedAt σ
  | .deleteNodes nodeIds confirmed => cfg.deleteNodes moment nodeIds confirmed σ
  | .setNodesArchived nodeIds archived => setNodesArchived cfg moment nodeIds archived σ
  | .addEdge source target type label => addEdge cfg moment source target type label σ
  | .updateEdge edgeId updates => updateEdge cfg moment edgeId updates σ
  | .deleteEdge edgeId => deleteEdge moment edgeId σ
  | .deleteEdges edgeIds confirmed => cfg.deleteEdges moment edgeIds confirmed σ
  | .setEdgesArchived edgeIds archived => setEdgesArchived cfg moment edgeIds archived σ
  | .adoptFederatedNode request => adoptFederatedNode cfg moment federation request σ

end Functions

section Sight

variable {t : Texts} {decision : GraphAuthorizationDecision} {σ τ : Storage} {cfg : StorageConfig}

/-- What is stored depends on the objects that are there. -/
theorem stored_of_grown (indexed : σ.Indexed cfg) (nodes : τ.nodes = σ.nodes)
    (objects : ∀ ref : Nat, ref < σ.nodeObjects.size → τ.node ref = σ.node ref) (id : String) : τ.stored id = σ.stored id := by
  rw [Storage.stored, Storage.stored, nodes]
  cases found : σ.nodes.get? id with
  | none => rfl
  | some ref => exact congrArg some (objects ref (indexed.node_held id ref found).1)

theorem link_of_grown (indexed : σ.Indexed cfg) (edges : τ.edges = σ.edges)
    (objects : ∀ ref : Nat, ref < σ.edgeObjects.size → τ.edge ref = σ.edge ref) (id : String) : τ.link id = σ.link id := by
  rw [Storage.link, Storage.link, edges]
  cases found : σ.edges.get? id with
  | none => rfl
  | some ref => exact congrArg some (objects ref (indexed.edge_held id ref found).1)

theorem stored_allocate (indexed : σ.Indexed cfg) (nodes : List Node) (edges : List Edge) (id : String) :
    (ServiceConfig.allocate nodes edges σ).1.stored id = σ.stored id := by
  have nodesSame : (ServiceConfig.allocate nodes edges σ).1.nodes = σ.nodes := rfl
  exact stored_of_grown indexed nodesSame (fun _ inside => Heap.read_allocAll_of_lt inside nodes) id

theorem link_allocate (indexed : σ.Indexed cfg) (nodes : List Node) (edges : List Edge) (id : String) :
    (ServiceConfig.allocate nodes edges σ).1.link id = σ.link id := by
  have edgesSame : (ServiceConfig.allocate nodes edges σ).1.edges = σ.edges := rfl
  exact link_of_grown indexed edgesSame (fun _ inside => Heap.read_allocAll_of_lt inside edges) id

theorem seesNode_iff {id : String} : ServiceConfig.seesNode (decision.onNodes t) σ (.str id) = true ↔
    ∃ node, σ.stored id = some node ∧ isNodeVisible t decision.graphAccess node = true := by
  rw [ServiceConfig.seesNode, Json.string?_str, Option.bind_some, Storage.stored]
  cases σ.nodes.get? id with
  | none => exact ⟨fun no => (by cases no), fun shown => shown.elim fun _ no => (by cases no.1)⟩
  | some ref =>
    refine ⟨fun seen => ⟨_, rfl, seen⟩, ?_⟩
    rintro ⟨_, same, seen⟩
    cases same
    exact seen

/-- A node that is listed as seen is seen. -/
theorem seen_of_seesNode {id : String} (sees : ServiceConfig.seesNode (decision.onNodes t) σ (.str id) = true) {node : Node}
    (here : σ.stored id = some node) : isNodeVisible t decision.graphAccess node = true := by
  obtain ⟨_, there, seen⟩ := seesNode_iff.mp sees
  obtain rfl := Option.some.inj (there.symm.trans here)
  exact seen

/-- An edge that is seen is not hidden. -/
theorem shown_of_seesEdge {id : String} (sees : ServiceConfig.seesEdge (decision.onNodes t) σ (.str id) = true) {edge : Edge}
    (here : σ.link id = some edge) : ¬ σ.Hidden (isNodeVisible t decision.graphAccess) edge := by
  obtain ⟨ref, found, rfl⟩ := Storage.link_eq_some.mp here
  rw [ServiceConfig.seesEdge, Json.string?_str, Option.bind_some, found, Option.any_some, Bool.and_eq_true] at sees
  rintro ⟨gone, node, atEnd, there, unseen⟩
  have seen : isNodeVisible t decision.graphAccess node = true := by
    rcases atEnd with rfl | rfl
    · exact seen_of_seesNode sees.1 there
    · exact seen_of_seesNode sees.2 there
  rw [unseen] at seen
  cases seen

/-- The ids that a loop meets are among the items. -/
theorem mem_lookedUp {items : List Json} {id : String} (member : id ∈ ServiceConfig.lookedUp items) : .str id ∈ items := by
  obtain ⟨value, taken, same⟩ := List.mem_filterMap.mp member
  have listed := List.takeWhile_subset _ taken
  cases value <;> cases same
  exact listed

theorem mem_visibleItems {sees : Json → Bool} {value : Json} {items : List Json} (narrowed : decision.graphAccess.enabled = true)
    (read : ServiceConfig.visibleItems (decision.onNodes t) sees value = .ok items) {item : Json} (member : item ∈ items) :
    sees item = true := by
  have on : (decision.onNodes t).narrowed = true := narrowed
  rw [ServiceConfig.visibleItems] at read
  split at read
  · cases read
  · rw [if_pos on] at read
    split at read
    · cases read
      exact (List.mem_filter.mp member).2
    · cases read

end Sight

section Confinement

variable {t : Texts} {decision : GraphAuthorizationDecision} {σ : Storage} {cfg : ServiceConfig} {moment : Moment}

theorem confined_allocate {nodes : List Node} {edges : List Edge} (valid : σ.Valid cfg.storage)
    (encoded : Option (List (List ℚ))) :
    Storage.Confined (isNodeVisible t decision.graphAccess) σ ((ServiceConfig.allocate nodes edges σ).1.addNodes cfg.storage
      (ServiceConfig.allocate nodes edges σ).2.1 (ServiceConfig.allocate nodes edges σ).2.2 encoded).1 ↔
    ¬ (ServiceConfig.allocate nodes edges σ).1.Crosses cfg.storage (isNodeVisible t decision.graphAccess)
      (ServiceConfig.allocate nodes edges σ).2.1 (ServiceConfig.allocate nodes edges σ).2.2 := by
  rw [← Storage.Confined.congr (stored_allocate valid.toIndexed nodes edges) (link_allocate valid.toIndexed nodes edges)]
  refine Storage.addNodes_confined_iff encoded (fun ref member => ?_) (Heap.allocAll_nodup _ _) (fun id ref found member => ?_)
    (fun id ref found member => ?_) fun _ _ => rfl
  · rw [ServiceConfig.allocate, Heap.size_allocAll]
    exact (Heap.allocAll_fresh member).2
  · exact absurd (valid.node_held id ref found).1 (Nat.not_lt.mpr (Heap.allocAll_fresh member).1)
  · exact absurd (valid.edge_held id ref found).1 (Nat.not_lt.mpr (Heap.allocAll_fresh member).1)

theorem updateGuarded_cases (cfg : ServiceConfig) (moment : Moment) (ref : Ref)
    (updates metadataMerge expected : Json) (guard : Option String) (σ : Storage) :
    (cfg.updateGuarded moment ref updates metadataMerge expected guard σ).1 = σ ∨
      ∃ request, (cfg.updateGuarded moment ref updates metadataMerge expected guard σ).1 =
        (σ.updateNode cfg.storage (σ.node ref).id request).1 := by
  cases updates with
  | obj entries =>
    let request : Storage.NodeUpdate :=
      { updates := .of entries, metadataMerge := metadataMerge.truthy, expectedUpdatedAt := guard.map .inl, now := moment.now
        encoded := moment.encoded.bind List.head? }
    refine .inr ⟨request, ?_⟩
    rw [ServiceConfig.updateGuarded]
    dsimp only
    split <;> rename_i done <;> exact (congrArg Prod.fst done).symm
  | _ =>
    refine .inl ?_
    rw [ServiceConfig.updateGuarded]
    · dsimp only
      split <;> rfl
    · intro entries no
      cases no

theorem updateStored_cases (cfg : ServiceConfig) (moment : Moment) (ref : Ref)
    (updates metadataMerge expected : Json) (σ : Storage) :
    (cfg.updateStored moment ref updates metadataMerge expected σ).1 = σ ∨
      ∃ request, (cfg.updateStored moment ref updates metadataMerge expected σ).1 =
        (σ.updateNode cfg.storage (σ.node ref).id request).1 := by
  cases expected with
  | null => exact updateGuarded_cases ..
  | str text => exact updateGuarded_cases ..
  | _ => exact .inl rfl

theorem updateNode_confined (valid : σ.Valid cfg.storage) (narrowed : decision.graphAccess.enabled = true)
    (nodeId updates metadataMerge expected : Json) :
    Storage.Confined (isNodeVisible t decision.graphAccess) σ
      (cfg.updateNode (under t decision moment) nodeId updates metadataMerge expected σ).1 := by
  have on : ((under t decision moment).evaluate "update_node").narrowed = true := narrowed
  rw [ServiceConfig.updateNode]
  split
  · split
    · exact .refl _ σ
    · rename_i target found
      rw [on, Bool.true_and]
      split
      · exact .refl _ σ
      · rename_i seen
        split
        · exact .refl _ σ
        · rename_i ref
          have shown : ((under t decision moment).evaluate "update_node").visible (σ.node ref) = true := by simpa using seen
          have visible : isNodeVisible t decision.graphAccess (σ.node ref) = true := shown
          have held : ∃ id, σ.nodes.get? id = some ref := by
            rw [ServiceConfig.getNode] at found
            split at found
            · have same := Except.ok.inj found
              obtain ⟨id, _, there⟩ := Option.bind_eq_some_iff.mp same
              exact ⟨id, there⟩
            · cases found
          have stored : ∀ request, Storage.Confined (isNodeVisible t decision.graphAccess) σ
              (σ.updateNode cfg.storage (σ.node ref).id request).1 := fun request => by
            obtain ⟨id, there⟩ := held
            rw [(valid.node_held id ref there).2]
            rcases Storage.updateNode_cases valid id request with ⟨same, _⟩ | ⟨other, there', _, one⟩
            · rw [same]
              exact .refl _ σ
            · obtain rfl : other = ref := Option.some.inj (there'.symm.trans there)
              exact one.confined visible
          have done : Storage.Confined (isNodeVisible t decision.graphAccess) σ
              (cfg.updateStored (under t decision moment) ref updates metadataMerge expected σ).1 := by
            rcases updateStored_cases cfg (under t decision moment) ref updates metadataMerge expected σ with
              same | ⟨request, same⟩
            · rw [same]
              exact .refl _ σ
            · rw [same]
              exact stored request
          split
          · split
            · split
              · split
                · exact .refl _ σ
                · exact done
              · exact done
            · exact .refl _ σ
          · exact done
  · exact .refl _ σ

theorem deleteNodes_inside (valid : σ.Valid cfg.storage) (narrowed : decision.graphAccess.enabled = true)
    (nodeIds confirmed : Json) : Storage.Confined (isNodeVisible t decision.graphAccess) σ
      (cfg.deleteNodes (under t decision moment) nodeIds confirmed σ).1 := by
  rw [ServiceConfig.deleteNodes]
  dsimp only
  split
  · split
    · exact .refl _ σ
    · rename_i items read
      have seen : ∀ id ∈ ServiceConfig.lookedUp items, ∀ node, σ.stored id = some node →
          isNodeVisible t decision.graphAccess node = true := fun id member node here =>
        seen_of_seesNode (mem_visibleItems narrowed read (mem_lookedUp member)) here
      show Storage.Confined _ σ (cfg.deleteStoredNodes items confirmed.truthy σ).1
      rw [ServiceConfig.deleteStoredNodes]
      split
      · exact .refl _ σ
      · split
        · exact .refl _ σ
        · split
          · exact Storage.deleteNodes_confined cfg.storage valid.toSound _ true seen
          · exact Storage.deleteEach_confined valid.toSound _ seen
  · exact .refl _ σ

theorem deleteEdges_inside (valid : σ.Valid cfg.storage) (narrowed : decision.graphAccess.enabled = true)
    (edgeIds confirmed : Json) : Storage.Confined (isNodeVisible t decision.graphAccess) σ
      (cfg.deleteEdges (under t decision moment) edgeIds confirmed σ).1 := by
  rw [ServiceConfig.deleteEdges]
  dsimp only
  split
  · split
    · exact .refl _ σ
    · split
      · exact .refl _ σ
      · split
        · exact .refl _ σ
        · split
          · exact .refl _ σ
          · rename_i items read
            have seen : ∀ id ∈ ServiceConfig.lookedUp items, ∀ edge, σ.link id = some edge →
                ¬ σ.Hidden (isNodeVisible t decision.graphAccess) edge := fun id member edge here =>
              shown_of_seesEdge (mem_visibleItems narrowed read (mem_lookedUp member)) here
            have inside := Storage.deleteEachEdge_confined valid.toIndexed _ seen
            show Storage.Confined _ σ (cfg.deleteStoredEdges items σ).1
            rw [ServiceConfig.deleteStoredEdges]
            split
            · exact inside.save
            · exact inside
  · exact .refl _ σ

theorem setNodesArchived_inside (narrowed : decision.graphAccess.enabled = true) (nodeIds : List String) (archived : Bool) :
    Storage.Confined (isNodeVisible t decision.graphAccess) σ
      (setNodesArchived cfg (under t decision moment) nodeIds archived σ).1 := by
  have on : ((under t decision moment).evaluate "archive_nodes").narrowed = true := narrowed
  rw [setNodesArchived]
  split
  · dsimp only
    set seen := nodeIds.filter fun id =>
      ServiceConfig.seesNode ((under t decision moment).evaluate "archive_nodes") σ (.str id) with named
    have inside : Storage.Confined (isNodeVisible t decision.graphAccess) σ
        (σ.setNodesArchived (seen.zipIdx.map fun entry => (entry.1, ((under t decision moment).fresh entry.2).now))
          archived).1 := by
      refine Storage.setNodesArchived_confined _ archived fun pair member node here => ?_
      obtain ⟨entry, listed, rfl⟩ := List.mem_map.mp member
      have chosen : entry.1 ∈ seen := by
        rw [← List.zipIdx_map_fst 0 seen]
        exact List.mem_map_of_mem listed
      rw [named, List.mem_filter] at chosen
      exact seen_of_seesNode chosen.2 here
    split <;> rename_i done <;> rw [done] at inside <;> exact inside
  · exact .refl _ σ

theorem updateEdge_inside (narrowed : decision.graphAccess.enabled = true) (edgeId : String) (updates : Dict Json) :
    Storage.Confined (isNodeVisible t decision.graphAccess) σ
      (updateEdge cfg (under t decision moment) edgeId updates σ).1 := by
  have on : ((under t decision moment).evaluate "update_edge").narrowed = true := narrowed
  rw [updateEdge]
  split
  · rw [on, Bool.true_and]
    split
    · exact .refl _ σ
    · rename_i seen
      have sees : ServiceConfig.seesEdge (decision.onNodes t) σ (.str edgeId) = true := by
        rw [Bool.not_eq_true, Bool.not_eq_false'] at seen
        exact seen
      have inside := Storage.updateEdge_confined cfg.storage edgeId updates fun edge here => shown_of_seesEdge sees here
      split <;> rename_i done <;> rw [done] at inside <;> exact inside
  · exact .refl _ σ

theorem deleteEdge_inside (valid : σ.Valid cfg.storage) (narrowed : decision.graphAccess.enabled = true) (edgeId : String) :
    Storage.Confined (isNodeVisible t decision.graphAccess) σ (deleteEdge (under t decision moment) edgeId σ).1 := by
  have on : ((under t decision moment).evaluate "delete_edge").narrowed = true := narrowed
  rw [deleteEdge]
  split
  · rw [on, Bool.true_and]
    split
    · exact .refl _ σ
    · rename_i seen
      have sees : ServiceConfig.seesEdge (decision.onNodes t) σ (.str edgeId) = true := by
        rw [Bool.not_eq_true, Bool.not_eq_false'] at seen
        exact seen
      have inside := Storage.deleteEdge_confined valid.toIndexed edgeId fun edge here => shown_of_seesEdge sees here
      split <;> rename_i done <;> rw [done] at inside <;> exact inside
  · exact .refl _ σ

theorem setEdgesArchived_inside (narrowed : decision.graphAccess.enabled = true) (edgeIds : List String) (archived : Bool) :
    Storage.Confined (isNodeVisible t decision.graphAccess) σ
      (setEdgesArchived cfg (under t decision moment) edgeIds archived σ).1 := by
  have on : ((under t decision moment).evaluate "archive_edges").narrowed = true := narrowed
  rw [setEdgesArchived]
  split
  · dsimp only
    refine Storage.setEdgesArchived_confined _ archived fun id member edge here => ?_
    exact shown_of_seesEdge (List.mem_filter.mp member).2 here
  · exact .refl _ σ

theorem ends_edgeData {r : Readers} {fresh : Fresh} {source target : String} {type label : Option String} {edge : Edge}
    (built : Edge.fromDict r fresh (edgeData source target type label) = some edge) :
    edge.source = source ∧ edge.target = target := by
  have distinct : (([("source", .str source), ("target", .str target)] ++
      (if type.getD "" = "" then [] else [("type", .str (type.getD ""))]) ++
      if label.getD "" = "" then [] else [("label", .str (label.getD ""))] : List (String × Json)).map Prod.fst).Nodup := by
    by_cases typed : type.getD "" = "" <;> by_cases labelled : label.getD "" = "" <;> simp [typed, labelled]
  have fromSource : (edgeData source target type label)["source"]? = some (.str source) :=
    Dict.getElem?_of distinct (by simp)
  have toTarget : (edgeData source target type label)["target"]? = some (.str target) :=
    Dict.getElem?_of distinct (by simp)
  rw [Edge.fromDict, fromSource, toTarget] at built
  simp only [Option.bind_eq_bind, Option.bind_some, Json.string?_str, Option.bind_eq_some_iff] at built
  obtain ⟨_, _, _, _, _, _, _, _, _, _, _, _, built⟩ := built
  obtain rfl := Option.some.inj built
  exact ⟨rfl, rfl⟩

theorem addEdge_inside (valid : σ.Valid cfg.storage) (narrowed : decision.graphAccess.enabled = true)
    (source target : String) (type label : Option String) :
    Storage.Confined (isNodeVisible t decision.graphAccess) σ
      (addEdge cfg (under t decision moment) source target type label σ).1 := by
  have on : ((under t decision moment).evaluate "add_edge").narrowed = true := narrowed
  rw [addEdge]
  split
  · rw [on, Bool.true_and]
    split
    · exact .refl _ σ
    · rename_i seen
      rw [Bool.not_eq_true, Bool.not_eq_false', Bool.and_eq_true] at seen
      split
      · exact .refl _ σ
      · rename_i edge built
        obtain ⟨fromSource, toTarget⟩ := ends_edgeData built
        have read : (σ.newEdge edge).edge σ.edgeObjects.size = edge := Storage.edge_newEdge edge σ
        have stored : ∀ id, (σ.newEdge edge).stored id = σ.stored id := Storage.stored_of_same rfl rfl
        have link : ∀ id, (σ.newEdge edge).link id = σ.link id := by
          have edgesSame : (σ.newEdge edge).edges = σ.edges := rfl
          exact link_of_grown valid.toIndexed edgesSame fun _ inside => Heap.read_allocAll_of_lt inside [edge]
        have atSource : ∃ node, (σ.newEdge edge).stored ((σ.newEdge edge).edge σ.edgeObjects.size).source = some node ∧
            isNodeVisible t decision.graphAccess node = true := by
          rw [read, fromSource, stored]
          exact seesNode_iff.mp seen.1
        have atTarget : ∃ node, (σ.newEdge edge).stored ((σ.newEdge edge).edge σ.edgeObjects.size).target = some node ∧
            isNodeVisible t decision.graphAccess node = true := by
          rw [read, toTarget, stored]
          exact seesNode_iff.mp seen.2
        have linked : Storage.Confined (isNodeVisible t decision.graphAccess) (σ.newEdge edge)
            ((σ.newEdge edge).addEdge cfg.storage σ.edgeObjects.size).1 := Storage.addEdge_confined atSource atTarget
        have inside := (Storage.Confined.congr stored link).mp linked
        split <;> rename_i done <;> rw [done] at inside <;> exact inside
  · exact .refl _ σ

theorem visible_of_adoptable {federation : Option Federated} {request : AdoptionRequest} {source : Node}
    (allowed : adoptable moment federation request = .ok source) :
    (moment.evaluate "adopt_federated_node").visible source = true := by
  unfold adoptable at allowed
  dsimp only at allowed
  split at allowed
  · cases allowed
  · split at allowed
    · cases allowed
    · split at allowed
      · cases allowed
      · split at allowed
        · cases allowed
        · rename_i seen
          split at allowed
          · cases allowed
          · cases allowed
            exact eq_true_of_ne_false seen

theorem metadata_adoptedNode {fresh : Fresh} {localName : Option String} {source node : Node}
    (built : adoptedNode fresh localName source = some node) : node.metadata = adoptedMetadata source := by
  rw [adoptedNode] at built
  split at built
  · cases built
    rfl
  · cases built

/-- What an adoption that is let through adds. -/
structure Prepared (moment : Moment) (request : AdoptionRequest) (σ : Storage) (adoption : Adoption) : Prop where
  visible : (moment.evaluate "adopt_federated_node").visible adoption.source = true
  metadata : adoption.node.metadata = adoptedMetadata adoption.source
  reference : adoption.reference =
    if (σ.stored adoption.source.id).isNone then some (sourceReference (moment.fresh 1) adoption.source) else none
  edge : adoption.edge = lineageEdge (moment.fresh 2) request adoption.source adoption.node (σ.stored adoption.source.id)

theorem prepared_of_ok {federation : Option Federated} {request : AdoptionRequest} {adoption : Adoption}
    (prepared : prepareAdoption cfg moment federation request σ = .ok adoption) : Prepared moment request σ adoption := by
  rw [prepareAdoption] at prepared
  split at prepared
  · cases prepared
  · rename_i source allowed
    split at prepared
    · cases prepared
    · cases prepared
    · split at prepared
      · cases prepared
      · rename_i node built
        split at prepared
        · cases prepared
        · cases prepared
          exact ⟨visible_of_adoptable allowed, metadata_adoptedNode built, rfl, rfl⟩

/-- The copies of a node are seen where it is. -/
theorem isNodeVisible_adopted {access : GraphAccessNarrowing} {source node : Node}
    (metadata : node.metadata = adoptedMetadata source) : isNodeVisible t access node = isNodeVisible t access source := by
  have origin : node.metadata.get "origin_graph_id" = source.metadata.get "origin_graph_id" := by
    rw [metadata, adoptedMetadata, Dict.get_insert, if_neg (by decide), Dict.get_insert, if_neg (by decide)]
  rw [isNodeVisible, isNodeVisible, nodeGraphId, nodeGraphId, origin]

theorem isNodeVisible_reference {access : GraphAccessNarrowing} {fresh : Fresh} {source : Node} :
    isNodeVisible t access (sourceReference fresh source) = isNodeVisible t access source := by
  have origin : (sourceReference fresh source).metadata.get "origin_graph_id" = source.metadata.get "origin_graph_id" := by
    rw [sourceReference, Dict.get_insert, if_neg (by decide), Dict.get_insert, if_neg (by decide)]
  rw [isNodeVisible, isNodeVisible, nodeGraphId, nodeGraphId, origin]

theorem validate_of_stored {cfg : StorageConfig} {edge : Edge} {source target : Node}
    (fromNode : σ.stored edge.source = some source) (toNode : σ.stored edge.target = some target) :
    σ.validateEdgeApplicability cfg edge =
      relationshipTypeAllowsNodeTypes cfg edge.type.1 source.typeStr target.typeStr := by
  obtain ⟨first, atSource, rfl⟩ := Storage.stored_eq_some.mp fromNode
  obtain ⟨second, atTarget, rfl⟩ := Storage.stored_eq_some.mp toNode
  rw [Storage.validateEdgeApplicability, atSource, atTarget]

/-- A stored node resolves to itself. -/
theorem resolve_of_stored {names : OrderedDict String String} {id : String} {node : Node}
    (here : σ.stored id = some node) : σ.resolve names id = some id := by
  obtain ⟨ref, found, _⟩ := Storage.stored_eq_some.mp here
  rw [Storage.resolve, if_pos (OrderedDict.mem_keys.mpr ⟨ref, found⟩)]

/-- A new node is stored when it is put. -/
theorem stored_putNodes_of_mem {cfg : StorageConfig} {nodes : List Ref}
    (new : Storage.New (nodes.map fun ref => (σ.node ref).id) σ.nodes.keys) {ref : Ref} (member : ref ∈ nodes) :
    (σ.putNodes cfg nodes).stored (σ.node ref).id = some (σ.node ref) := by
  refine Storage.stored_eq_some.mpr ⟨ref, ?_, Storage.node_putNodes cfg nodes σ ref⟩
  rw [OrderedDict.get?_eq_some, Storage.entries_putNodes cfg new]
  exact List.mem_append_right _ (List.mem_map.mpr ⟨ref, member, rfl⟩)

/-- The adoption comes to a node under the id of its source that is not seen, and nothing stops it. -/
def LinksHidden (cfg : StorageConfig) (visible : Node → Bool) (adoption : Adoption) (σ : Storage) : Prop :=
  adoption.node.id ∉ σ.nodes.keys ∧ adoption.edge.id ∉ σ.edges.keys ∧
    ∃ held, σ.stored adoption.source.id = some held ∧ visible held = false ∧
      relationshipTypeAllowsNodeTypes cfg adoption.edge.type.1 adoption.node.typeStr held.typeStr = none

/-- The objects of an adoption. -/
theorem objects_adoption (adoption : Adoption) (σ : Storage) :
    (ServiceConfig.allocate adoption.nodes [adoption.edge] σ).2.1.map
        (ServiceConfig.allocate adoption.nodes [adoption.edge] σ).1.node = adoption.nodes ∧
      (ServiceConfig.allocate adoption.nodes [adoption.edge] σ).2.2 = [σ.edgeObjects.size] ∧
        (ServiceConfig.allocate adoption.nodes [adoption.edge] σ).1.edge σ.edgeObjects.size = adoption.edge :=
  ⟨Heap.map_read_allocAll σ.nodeObjects adoption.nodes, rfl, Heap.read_allocAll_one σ.edgeObjects adoption.edge⟩

/-- What the lineage edge leads to: the node that is stored, or the reference that is made. -/
theorem far_adoption (valid : σ.Valid cfg.storage) {request : AdoptionRequest} {adoption : Adoption}
    (prepared : Prepared moment request σ adoption) :
    adoption.edge.target = adoption.source.id ∧
      ((∃ held, σ.stored adoption.source.id = some held ∧ adoption.nodes = [adoption.node]) ∨
        σ.stored adoption.source.id = none ∧
          adoption.nodes = [adoption.node, sourceReference (moment.fresh 1) adoption.source]) := by
  have reference := prepared.reference
  have edge := prepared.edge
  cases here : σ.stored adoption.source.id with
  | none =>
    rw [here] at reference edge
    exact ⟨by rw [edge]; rfl, .inr ⟨rfl, by rw [Adoption.nodes, reference]; rfl⟩⟩
  | some held =>
    rw [here] at reference edge
    obtain ⟨ref, found, rfl⟩ := Storage.stored_eq_some.mp here
    have named := (valid.node_held _ ref found).2
    exact ⟨by rw [edge]; exact named, .inl ⟨_, rfl, by rw [Adoption.nodes, reference]; rfl⟩⟩

/-- The nodes of an adoption as they are put, and the ends of its edge among them. -/
structure Joined (cfg : ServiceConfig) (fresh : Fresh) (adoption : Adoption) (σ ρ : Storage) (refs : List Ref) : Prop where
  ids : refs.map (fun ref => (ρ.node ref).id) = adoption.nodes.map Node.id
  near : (ρ.putNodes cfg.storage refs).stored adoption.edge.source = some adoption.node
  far : ∃ node, (ρ.putNodes cfg.storage refs).stored adoption.edge.target = some node ∧
    (σ.stored adoption.source.id = some node ∨
      σ.stored adoption.source.id = none ∧ node = sourceReference fresh adoption.source)

theorem joined_adoption (valid : σ.Valid cfg.storage) {request : AdoptionRequest} {adoption : Adoption}
    (prepared : Prepared moment request σ adoption)
    (new : Storage.New (adoption.nodes.map Node.id) σ.nodes.keys) :
    Joined cfg (moment.fresh 1) adoption σ (ServiceConfig.allocate adoption.nodes [adoption.edge] σ).1
      (ServiceConfig.allocate adoption.nodes [adoption.edge] σ).2.1 := by
  obtain ⟨nodesRead, _, _⟩ := objects_adoption adoption σ
  obtain ⟨target, far⟩ := far_adoption valid prepared
  have source : adoption.edge.source = adoption.node.id := by rw [prepared.edge]; rfl
  have stored := stored_allocate valid.toIndexed adoption.nodes [adoption.edge]
  have keys : (ServiceConfig.allocate adoption.nodes [adoption.edge] σ).1.nodes.keys = σ.nodes.keys := rfl
  generalize (ServiceConfig.allocate adoption.nodes [adoption.edge] σ).2.1 = refs at *
  generalize (ServiceConfig.allocate adoption.nodes [adoption.edge] σ).1 = ρ at *
  have ids : refs.map (fun ref => (ρ.node ref).id) = adoption.nodes.map Node.id := by
    rw [← nodesRead, List.map_map]
    rfl
  have newRefs : Storage.New (refs.map fun ref => (ρ.node ref).id) ρ.nodes.keys := by
    rw [ids, keys]
    exact new
  have newly : ∀ node ∈ adoption.nodes, (ρ.putNodes cfg.storage refs).stored node.id = some node := fun node member => by
    rw [← nodesRead] at member
    obtain ⟨ref, listed, rfl⟩ := List.mem_map.mp member
    exact stored_putNodes_of_mem newRefs listed
  refine ⟨ids, by rw [source]; exact newly _ (.head _), ?_⟩
  rw [target]
  rcases far with ⟨held, here, _⟩ | ⟨none, nodes⟩
  · exact ⟨held, Storage.stored_putNodes cfg.storage newRefs ((stored _).trans here), .inl here⟩
  · have made : sourceReference (moment.fresh 1) adoption.source ∈ adoption.nodes := by
      rw [nodes]
      exact .tail _ (.head _)
    have there := newly (sourceReference (moment.fresh 1) adoption.source) made
    exact ⟨_, there, .inr ⟨none, rfl⟩⟩

/-- An adoption whose source is seen comes to a hidden node only where that node is stored under the id of
its source. -/
theorem crosses_adoption_iff (valid : σ.Valid cfg.storage) {request : AdoptionRequest} {adoption : Adoption}
    (prepared : Prepared (under t decision moment) request σ adoption) :
    (ServiceConfig.allocate adoption.nodes [adoption.edge] σ).1.Crosses cfg.storage (isNodeVisible t decision.graphAccess)
        (ServiceConfig.allocate adoption.nodes [adoption.edge] σ).2.1
        (ServiceConfig.allocate adoption.nodes [adoption.edge] σ).2.2 ↔
      LinksHidden cfg.storage (isNodeVisible t decision.graphAccess) adoption σ := by
  obtain ⟨nodesRead, edgeRefs, edgeRead⟩ := objects_adoption adoption σ
  have joined := joined_adoption valid prepared
  have visible : isNodeVisible t decision.graphAccess adoption.source = true := prepared.visible
  have seenNear : isNodeVisible t decision.graphAccess adoption.node = true :=
    (isNodeVisible_adopted prepared.metadata).trans visible
  have keys : (ServiceConfig.allocate adoption.nodes [adoption.edge] σ).1.nodes.keys = σ.nodes.keys := rfl
  have edgeKeys : (ServiceConfig.allocate adoption.nodes [adoption.edge] σ).1.edges.keys = σ.edges.keys := rfl
  rw [Storage.Crosses, edgeRefs, keys, edgeKeys]
  generalize (ServiceConfig.allocate adoption.nodes [adoption.edge] σ).2.1 = refs at *
  generalize (ServiceConfig.allocate adoption.nodes [adoption.edge] σ).1 = ρ at *
  have ids : refs.map (fun ref => (ρ.node ref).id) = adoption.nodes.map Node.id := by
    rw [← nodesRead, List.map_map]
    rfl
  rw [ids]
  constructor
  · rintro ⟨new, front, ref, begins, newEdge, linkable, value, id, node, atEnd, resolved, here, unseen⟩
    have single : front = [] ∧ ref = σ.edgeObjects.size := by
      have short := begins.length_le
      have none : front = [] := by
        rw [List.length_append, List.length_singleton, List.length_singleton] at short
        exact List.eq_nil_of_length_eq_zero (by omega)
      rw [none, List.nil_append] at begins
      exact ⟨none, (List.cons_prefix_cons.mp begins).1⟩
    obtain ⟨rfl, rfl⟩ := single
    obtain ⟨_, near, far, atFar, held⟩ := joined new
    rw [edgeRead] at atEnd
    have fresh := newEdge.fresh _ (List.mem_map_of_mem (List.mem_append_right _ (.head _)))
    rw [edgeRead] at fresh
    refine ⟨new.fresh _ (List.mem_map_of_mem (.head _)), fresh, ?_⟩
    rcases atEnd with rfl | rfl
    · obtain rfl : _ = id := Option.some.inj ((resolve_of_stored near).symm.trans resolved)
      obtain rfl : adoption.node = node := Option.some.inj (near.symm.trans here)
      rw [seenNear] at unseen
      cases unseen
    · obtain rfl : _ = id := Option.some.inj ((resolve_of_stored atFar).symm.trans resolved)
      obtain rfl : far = node := Option.some.inj (atFar.symm.trans here)
      rcases held with held | ⟨_, rfl⟩
      · refine ⟨far, held, unseen, ?_⟩
        obtain ⟨first, second, toFirst, toSecond, allowed⟩ := linkable _ (List.mem_append_right _ (.head _))
        rw [edgeRead] at toFirst toSecond allowed
        obtain rfl := Option.some.inj ((resolve_of_stored near).symm.trans toFirst)
        obtain rfl := Option.some.inj ((resolve_of_stored atFar).symm.trans toSecond)
        rw [← allowed]
        exact (validate_of_stored near atFar).symm
      · rw [isNodeVisible_reference, visible] at unseen
        cases unseen
  · rintro ⟨fresh, freshEdge, held, here, unseen, allowed⟩
    have nodes : adoption.nodes = [adoption.node] := by
      rcases (far_adoption valid prepared).2 with ⟨_, _, nodes⟩ | ⟨none, _⟩
      · exact nodes
      · rw [here] at none
        cases none
    have new : Storage.New (adoption.nodes.map Node.id) σ.nodes.keys := by
      rw [nodes]
      exact ⟨List.nodup_singleton _, fun id member => by rw [List.mem_singleton.mp member]; exact fresh⟩
    obtain ⟨_, near, far, atFar, sees⟩ := joined new
    have same : far = held := by
      rcases sees with there | ⟨none, _⟩
      · exact Option.some.inj (there.symm.trans here)
      · rw [here] at none
        cases none
    obtain rfl := same
    refine ⟨new, [], _, List.prefix_refl _, ?_, fun other member => ?_, adoption.edge.target, adoption.edge.target, far, ?_,
      resolve_of_stored atFar, atFar, unseen⟩
    · rw [List.nil_append, List.map_singleton, edgeRead]
      exact ⟨List.nodup_singleton _, fun id member => by rw [List.mem_singleton.mp member]; exact freshEdge⟩
    · rw [List.mem_singleton.mp member, edgeRead]
      exact ⟨_, _, resolve_of_stored near, resolve_of_stored atFar, (validate_of_stored near atFar).trans allowed⟩
    · rw [edgeRead]
      exact .inr rfl

theorem addNodes_inside_iff (valid : σ.Valid cfg.storage) (nodes edges : Json) :
    Storage.Confined (isNodeVisible t decision.graphAccess) σ (cfg.addNodes (under t decision moment) nodes edges σ).1 ↔
      ¬ (decision.allowed = true ∧ ∃ nodeObjects edgeObjects,
        cfg.readObjects moment nodes edges = .ok (nodeObjects, edgeObjects) ∧
          (ServiceConfig.allocate nodeObjects edgeObjects σ).1.Crosses cfg.storage (isNodeVisible t decision.graphAccess)
            (ServiceConfig.allocate nodeObjects edgeObjects σ).2.1 (ServiceConfig.allocate nodeObjects edgeObjects σ).2.2) := by
  have same : cfg.readObjects (under t decision moment) nodes edges = cfg.readObjects moment nodes edges := rfl
  have allow : ((under t decision moment).evaluate "add_nodes").allowed = decision.allowed := rfl
  rw [ServiceConfig.addNodes, allow, same]
  by_cases allowed : decision.allowed = true
  · rw [if_pos allowed]
    cases read : cfg.readObjects moment nodes edges with
    | error error =>
      refine ⟨fun _ crosses => ?_, fun _ => .refl _ σ⟩
      obtain ⟨_, _, _, ok, _⟩ := crosses
      cases ok
    | ok objects =>
      obtain ⟨nodeObjects, edgeObjects⟩ := objects
      refine (confined_allocate valid moment.encoded).trans (not_congr ?_)
      constructor
      · exact fun crosses => ⟨allowed, nodeObjects, edgeObjects, rfl, crosses⟩
      · rintro ⟨_, _, _, ok, crosses⟩
        obtain ⟨rfl, rfl⟩ := Prod.mk.inj (Except.ok.inj ok)
        exact crosses
  · rw [if_neg allowed]
    exact ⟨fun _ crosses => allowed crosses.1, fun _ => .refl _ σ⟩

theorem adoptFederatedNode_inside_iff (valid : σ.Valid cfg.storage) (federation : Option Federated) (request : AdoptionRequest) :
    Storage.Confined (isNodeVisible t decision.graphAccess) σ
        (adoptFederatedNode cfg (under t decision moment) federation request σ).1 ↔
      ¬ ∃ adoption, prepareAdoption cfg (under t decision moment) federation request σ = .ok adoption ∧
        LinksHidden cfg.storage (isNodeVisible t decision.graphAccess) adoption σ := by
  rw [adoptFederatedNode]
  cases prepared : prepareAdoption cfg (under t decision moment) federation request σ with
  | error answer =>
    refine ⟨fun _ links => ?_, fun _ => .refl _ σ⟩
    obtain ⟨_, ok, _⟩ := links
    cases ok
  | ok adoption =>
    have crosses := crosses_adoption_iff valid (prepared_of_ok prepared)
    have known : (LinksHidden cfg.storage (isNodeVisible t decision.graphAccess) adoption σ ↔ ∃ adoption',
        (.ok adoption : Except (Except Raised Json) Adoption) = .ok adoption' ∧
          LinksHidden cfg.storage (isNodeVisible t decision.graphAccess) adoption' σ) := by
      constructor
      · exact fun links => ⟨adoption, rfl, links⟩
      · rintro ⟨_, ok, links⟩
        obtain rfl := Except.ok.inj ok
        exact links
    have outcome := (confined_allocate valid (under t decision moment).encoded).trans (not_congr (crosses.trans known))
    dsimp only
    split
    · exact outcome
    · exact outcome

/-- The call makes an edge to a node that the decision hides: an edge of a batch, or the lineage edge of an
adoption. -/
def Trespasses (cfg : ServiceConfig) (moment : Moment) (t : Texts) (federation : Option Federated)
    (decision : GraphAuthorizationDecision) (σ : Storage) : Mutation → Prop
  | .addNodes nodes edges => decision.allowed = true ∧ ∃ nodeObjects edgeObjects,
      cfg.readObjects moment nodes edges = .ok (nodeObjects, edgeObjects) ∧
        (ServiceConfig.allocate nodeObjects edgeObjects σ).1.Crosses cfg.storage (isNodeVisible t decision.graphAccess)
          (ServiceConfig.allocate nodeObjects edgeObjects σ).2.1 (ServiceConfig.allocate nodeObjects edgeObjects σ).2.2
  | .adoptFederatedNode request => ∃ adoption,
      prepareAdoption cfg (under t decision moment) federation request σ = .ok adoption ∧
        LinksHidden cfg.storage (isNodeVisible t decision.graphAccess) adoption σ
  | _ => False

theorem mutate_inside_iff (valid : σ.Valid cfg.storage) (narrowed : decision.graphAccess.enabled = true)
    (federation : Option Federated) (call : Mutation) :
    Storage.Confined (isNodeVisible t decision.graphAccess) σ (mutate cfg moment t federation decision call σ).1 ↔
      ¬ Trespasses cfg moment t federation decision σ call := by
  cases call with
  | addNodes nodes edges => exact addNodes_inside_iff valid nodes edges
  | adoptFederatedNode request => exact adoptFederatedNode_inside_iff valid federation request
  | updateNode nodeId updates metadataMerge expected =>
    exact iff_of_true (updateNode_confined valid narrowed nodeId updates metadataMerge expected) not_false
  | deleteNodes nodeIds confirmed => exact iff_of_true (deleteNodes_inside valid narrowed nodeIds confirmed) not_false
  | setNodesArchived nodeIds archived => exact iff_of_true (setNodesArchived_inside narrowed nodeIds archived) not_false
  | addEdge source target type label => exact iff_of_true (addEdge_inside valid narrowed source target type label) not_false
  | updateEdge edgeId updates => exact iff_of_true (updateEdge_inside narrowed edgeId updates) not_false
  | deleteEdge edgeId => exact iff_of_true (deleteEdge_inside valid narrowed edgeId) not_false
  | deleteEdges edgeIds confirmed => exact iff_of_true (deleteEdges_inside valid narrowed edgeIds confirmed) not_false
  | setEdgesArchived edgeIds archived => exact iff_of_true (setEdgesArchived_inside narrowed edgeIds archived) not_false

end Confinement

/-- In every state that the operations of the storage reach, a call under a narrowed decision stays inside of
what the decision shows exactly if it does not make an edge to a hidden node. -/
theorem narrowed_write_confined_iff (cfg : ServiceConfig) (moment : Moment) (t : Texts) (federation : Option Federated)
    {disk : Option GraphData} (readable : ∀ data, disk = some data → data.Valid cfg.storage)
    {history : List (Action × Reply)} {σ : Storage}
    (run : Run (Storage.step cfg.storage) (fun _ _ _ => True) { saved := disk } history σ)
    {decision : GraphAuthorizationDecision} (narrowed : decision.graphAccess.enabled = true) (call : Mutation) :
    Storage.Confined (isNodeVisible t decision.graphAccess) σ (mutate cfg moment t federation decision call σ).1 ↔
      ¬ Trespasses cfg moment t federation decision σ call := by
  have valid : σ.Valid cfg.storage := run.invariant (fun _ σ => σ.Valid cfg.storage) (.initial readable)
    fun valid _ stepped => valid.step stepped
  exact mutate_inside_iff valid narrowed federation call

def plainError (_ : Raised) : String := "error"

theorem plainError_ne (raised : Raised) : plainError raised ≠ "" := by
  rw [plainError]
  decide

def noQueries (_ : String) : Option (Dict Json → Storage → Except Raised Json) := none

theorem noQueries_write_file : noQueries "write_file" = none := rfl

/-- A graph service that reads nodes and edges as the storage does. -/
def plainService : ServiceConfig where
  storage := sampleConfig
  node fresh fields := ((Node.fromDict sampleReaders fresh fields).map Except.ok).getD (.error "invalid")
  edge fresh fields := ((Edge.fromDict sampleReaders fresh fields).map Except.ok).getD (.error "invalid")
  savedViewAnnotationError _ := none
  serializeNode node := .str node.id
  serializeEdge edge := .str edge.id
  str _ := "value"
  valueError _ := true
  queries := noQueries
  queries_write_file := noQueries_write_file
  text := plainError
  text_ne := plainError_ne

def plainTexts : Texts where
  strip text := text
  str value := value.string?.getD ""

def plainMoment : Moment where
  now := epoch
  fresh i := ⟨"fresh" ++ toString i, epoch⟩

theorem localOffice_limits : FieldLimits "Office" "" "" [] [] := by decide +kernel

theorem partnerAgency_limits : FieldLimits "Agency" "" "" [] [] := by decide +kernel

/-- An actor of a partner's graph. -/
def partnerActor : Node :=
  { sampleActor "b" "Agency" partnerAgency_limits with metadata := .of [("origin_graph_id", .str "partner")] }

/-- The steps that put an office of the local graph and an agency of the partner's graph into the storage. -/
def sharedGraph : List Action :=
  [.newNode (sampleActor "a" "Office" localOffice_limits), .newNode partnerActor, .addNodes [0, 1] [] none]

/-- A decision that shows the local graph only. -/
def localOnly : GraphAuthorizationDecision := { graphAccess := { enabled := true } }

/-- An edge of a batch from the office to the agency. -/
def crossingCall : Mutation :=
  .addNodes (.arr []) (.arr [.obj [("id", .str "e"), ("source", .str "a"), ("target", .str "b")]])

/-- A batch may link a hidden node. -/
theorem narrowed_write_escapes : ¬ ∀ (cfg : ServiceConfig) (moment : Moment) (t : Texts) (federation : Option Federated)
    (disk : Option GraphData), (∀ data, disk = some data → data.Valid cfg.storage) →
      ∀ history σ, Run (Storage.step cfg.storage) (fun _ _ _ => True) { saved := disk } history σ →
        ∀ decision : GraphAuthorizationDecision, decision.graphAccess.enabled = true → ∀ call : Mutation,
          Storage.Confined (isNodeVisible t decision.graphAccess) σ
            (mutate cfg moment t federation decision call σ).1 := by
  intro promised
  have observed : (leadsTo (Storage.step sampleConfig) {} sharedGraph).map (fun σ =>
      let τ := (mutate plainService plainMoment plainTexts none localOnly crossingCall σ).1
      ((σ.link "e").isSome, (τ.link "e").map fun edge => edge.target,
        (τ.stored "b").map fun node => isNodeVisible plainTexts localOnly.graphAccess node)) =
      some (false, some "b", some false) := by
    decide +kernel
  obtain ⟨σ, taken, seen⟩ := Option.map_eq_some_iff.mp observed
  obtain ⟨history, run⟩ := Run.of_leadsTo taken
  have confined := promised plainService plainMoment plainTexts none none (fun _ no => (by cases no)) history σ run
    localOnly rfl crossingCall
  have before : (σ.link "e").isSome = false := congrArg Prod.fst seen
  have linked := congrArg (fun told => told.2.1) seen
  have hidden := congrArg (fun told => told.2.2) seen
  obtain ⟨edge, here, toAgency⟩ := Option.map_eq_some_iff.mp linked
  obtain ⟨node, there, unseen⟩ := Option.map_eq_some_iff.mp hidden
  have known := confined.links "e" edge here ⟨"b", node, .inr toAgency.symm, there, unseen⟩
  rw [known] at before
  cases before

/-- A deletion of both nodes deletes the office only. -/
theorem narrowed_write_confined_iff_sample : ∃ history σ,
    Run (Storage.step sampleConfig) (fun _ _ _ => True) {} history σ ∧
      (mutate plainService plainMoment plainTexts none localOnly
        (.deleteNodes (.arr [.str "a", .str "b"]) (.bool true)) σ).1.nodes.keys = ["b"] ∧
      Storage.Confined (isNodeVisible plainTexts localOnly.graphAccess) σ
        (mutate plainService plainMoment plainTexts none localOnly
          (.deleteNodes (.arr [.str "a", .str "b"]) (.bool true)) σ).1 := by
  have observed : (leadsTo (Storage.step sampleConfig) {} sharedGraph).map (fun σ =>
      (mutate plainService plainMoment plainTexts none localOnly
        (.deleteNodes (.arr [.str "a", .str "b"]) (.bool true)) σ).1.nodes.keys) = some ["b"] := by
    decide +kernel
  obtain ⟨σ, taken, seen⟩ := Option.map_eq_some_iff.mp observed
  obtain ⟨history, run⟩ := Run.of_leadsTo taken
  refine ⟨history, σ, run, seen, ?_⟩
  have readable : ∀ data, (none : Option GraphData) = some data → data.Valid plainService.storage := fun _ no => by
    cases no
  exact (narrowed_write_confined_iff plainService plainMoment plainTexts none readable run rfl _).mpr not_false

end MetadataGraph.Service
