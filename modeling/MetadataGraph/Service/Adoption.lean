import MetadataGraph.Federation.Events
import MetadataGraph.Service.Mutations

namespace MetadataGraph.Service

open MetadataGraph.Graph MetadataGraph.Agents ObjectHeap Runs

/-- The graph of the service and the caches of its federation, with the stored nodes that adoptions made, each
with the federated id that it was made for. -/
structure Adoptions where
  storage : Storage
  manager : Federation.FederationManager
  ledger : List (String × String) := []

/-- A call of `adopt_federated_node` under a decision, the sync of a cache, or a deletion of nodes. -/
inductive Turn where
  | adopt (moment : Moment) (decision : GraphAuthorizationDecision) (request : AdoptionRequest)
  | sync (request : Federation.FederationManager.Request)
  | delete (nodeIds : List String)

/-- The first of the ids in a list of texts. -/
def firstId : Json → Option String
  | .arr (.str id :: _) => some id
  | _ => none

/-- The local node that an answer says was added. -/
def adoptedId : Except Raised Json → Option String
  | .error _ => none
  | .ok result => if effective result then firstId (result.field "added_node_ids") else none

def succeeded : Except Raised Json → Bool
  | .error _ => false
  | .ok result => effective result

def toldAdopted : Except Raised Json → Bool
  | .error _ => false
  | .ok result => result.field "already_adopted" = .bool true

/-- The federation, where it is enabled. -/
def Adoptions.federation (allowAdopt : Option (String → Bool)) (s : Adoptions) : Option Federated :=
  allowAdopt.map fun allow => ⟨s.manager, allow⟩

section Turns

variable (cfg : ServiceConfig) (t : Texts) (b : Federation.Builtins) (r : Readers) (allowAdopt : Option (String → Bool))

def Adoptions.call (s : Adoptions) (moment : Moment) (decision : GraphAuthorizationDecision) (request : AdoptionRequest) :
    Storage × Except Raised Json :=
  adoptFederatedNode cfg (under t decision moment) (s.federation allowAdopt) request s.storage

def Adoptions.step (s : Adoptions) : Turn → Option (Adoptions × Option (Except Raised Json))
  | .adopt moment decision request =>
    let called := s.call cfg t allowAdopt moment decision request
    let made := (adoptedId called.2).map fun id => (id, request.federatedNodeId)
    some ({ s with storage := called.1, ledger := made.toList ++ s.ledger }, some called.2)
  | .sync request => some ({ s with manager := (s.manager.syncGraph b r request).1 }, none)
  | .delete nodeIds =>
    let storage := (s.storage.deleteNodes cfg.storage nodeIds true).1
    some ({ s with storage, ledger := s.ledger.filter fun entry => entry.1 ∈ storage.nodes.keys }, none)

end Turns

section Origins

/-- What the metadata keeps under `adopted_from`, if it is a mapping or nothing. -/
def adoptedFrom (node : Node) : Option (Dict Json) :=
  match (node.metadata.get "adopted_from").orElse (.obj []) with
  | .obj entries => some (.of entries)
  | _ => none

/-- The metadata says that the node was adopted from the federated node. -/
def namesSource (federatedNodeId : String) (node : Node) : Bool :=
  (adoptedFrom node).any fun origin => origin.get "federated_node_id" = .str federatedNodeId

/-- The loop over the local nodes ends at the node. -/
def endsSearch (federatedNodeId : String) (node : Node) : Bool :=
  (adoptedFrom node).isNone || namesSource federatedNodeId node

/-- The loop finds the first node that names the federated node, unless it meets metadata of another shape
before. -/
theorem alreadyAdopted_cases (federatedNodeId : String) (nodes : List Node) :
    (nodes.find? (endsSearch federatedNodeId) = none ∧ alreadyAdopted federatedNodeId nodes = .ok none) ∨
      ∃ node, nodes.find? (endsSearch federatedNodeId) = some node ∧
        ((namesSource federatedNodeId node = true ∧ alreadyAdopted federatedNodeId nodes = .ok (some node)) ∨
          (namesSource federatedNodeId node = false ∧ ∃ raised, alreadyAdopted federatedNodeId nodes = .error raised)) := by
  induction nodes with
  | nil => exact .inl ⟨rfl, rfl⟩
  | cons node rest ih =>
    rw [alreadyAdopted]
    split
    · rename_i entries mapping
      have origin : adoptedFrom node = some (.of entries) := by rw [adoptedFrom, mapping]
      have named : namesSource federatedNodeId node =
          decide ((Dict.of entries).get "federated_node_id" = .str federatedNodeId) := by
        rw [namesSource, origin, Option.any_some]
      have ends : endsSearch federatedNodeId node = namesSource federatedNodeId node := by
        rw [endsSearch, origin, Option.isNone_some, Bool.false_or]
      rw [List.find?_cons, ends]
      by_cases here : (Dict.of entries).get "federated_node_id" = .str federatedNodeId
      · rw [named, decide_eq_true here, if_pos here]
        exact .inr ⟨node, rfl, .inl ⟨named.trans (decide_eq_true here), rfl⟩⟩
      · rw [named, decide_eq_false here, if_neg here]
        exact ih
    · rename_i other shape
      have none : adoptedFrom node = none := by
        rw [adoptedFrom]
        split
        · rename_i entries mapping
          exact absurd mapping (shape entries)
        · rfl
      have ends : endsSearch federatedNodeId node = true := by rw [endsSearch, none]; rfl
      have unnamed : namesSource federatedNodeId node = false := by rw [namesSource, none]; rfl
      rw [List.find?_cons, ends]
      exact .inr ⟨node, rfl, .inr ⟨unnamed, _, rfl⟩⟩

/-- The metadata of an adopted node names its source. -/
theorem namesSource_adopted {source node : Node} (metadata : node.metadata = adoptedMetadata source) :
    namesSource source.id node = true := by
  set origin : Dict Json := Dict.of [("federated_node_id", .str source.id),
    ("origin_graph_id", source.metadata.get "origin_graph_id"),
    ("origin_node_id", source.metadata.get "origin_node_id")] with made
  have given : node.metadata.get "adopted_from" = .obj origin.toList := by
    rw [metadata, adoptedMetadata, Dict.get_insert, if_pos rfl, respond]
  have inside : origin.get "federated_node_id" = .str source.id := by
    rw [← field_toList, made, ← respond, field_respond (by simp)]
    rfl
  have full : (Json.obj origin.toList).truthy = true := by
    cases listed : origin.toList with
    | nil =>
      rw [← field_toList, listed] at inside
      cases inside
    | cons => rfl
  have kept : adoptedFrom node = some origin := by
    rw [adoptedFrom, given, Json.orElse, if_pos full]
    exact congrArg some (Dict.of_toList origin)
  rw [namesSource, kept, Option.any_some, inside]
  exact decide_eq_true rfl

end Origins

section Answers

variable {cfg : ServiceConfig} {moment : Moment}

/-- An answer that neither adds a node nor returns one. -/
structure Declines (answer : Except Raised Json) : Prop where
  failed : succeeded answer = false
  untold : toldAdopted answer = false

theorem Declines.adoptedId {answer : Except Raised Json} (declines : Declines answer) : adoptedId answer = none := by
  cases answer with
  | error => rfl
  | ok result =>
    have ineffective : effective result = false := declines.failed
    rw [Service.adoptedId, ineffective]
    rfl

theorem declines_respond {entries : List (String × Json)} (distinct : (entries.map Prod.fst).Nodup)
    (failed : entries.find? (·.1 = "success") = some ("success", .bool false))
    (untold : entries.find? (·.1 = "already_adopted") = none) : Declines (.ok (respond entries)) := by
  constructor
  · rw [succeeded, effective, field_respond distinct, failed]
    rfl
  · rw [toldAdopted, field_respond distinct, untold]
    rfl

theorem declines_notAdopted (message : String) : Declines (.ok (notAdopted message)) :=
  declines_respond (by simp) rfl rfl

theorem declines_accessDenied (decision : Decision) :
    Declines (.ok (accessDenied "adopt_federated_node" decision noAdditions)) :=
  declines_respond (by simp [noAdditions]) rfl rfl

theorem declines_adoptable {federation : Option Federated} {request : AdoptionRequest} {answer : Json}
    (refused : adoptable moment federation request = .error answer) : Declines (.ok answer) := by
  unfold adoptable at refused
  dsimp only at refused
  split at refused
  · cases refused
    exact declines_accessDenied _
  · split at refused
    · cases refused
      exact declines_notAdopted _
    · split at refused
      · cases refused
        exact declines_notAdopted _
      · split at refused
        · cases refused
          exact declines_accessDenied _
        · split at refused
          · cases refused
            exact declines_notAdopted _
          · cases refused

/-- An answer that returns a node which was adopted before. -/
structure Recalls (cfg : ServiceConfig) (node : Node) (answer : Except Raised Json) : Prop where
  succeeded : succeeded answer = true
  told : toldAdopted answer = true
  added : adoptedId answer = none
  shown : ∃ result, answer = .ok result ∧ result.field "adopted_node" = cfg.serializeNode node

theorem recalls_adoptedBefore (cfg : ServiceConfig) (node source : Node) :
    Recalls cfg node (.ok (adoptedBefore cfg node source)) := by
  have field : ∀ key, (adoptedBefore cfg node source).field key = _ := fun key =>
    field_respond (by simp [noAdditions]) key
  refine ⟨?_, ?_, ?_, _, rfl, ?_⟩
  · rw [succeeded, effective, field]
    rfl
  · rw [toldAdopted, field]
    rfl
  · rw [adoptedId, field]
    split <;> rfl
  · rw [field]
    rfl

/-- The ids that an adoption adds: the local node's, and the source's where nothing is stored under it. -/
def addedIds (σ : Storage) (source node : Node) : List String :=
  node.id :: if (σ.stored source.id).isNone then [source.id] else []

/-- An answer that shows the node and the edge that were added. -/
structure Reports (cfg : ServiceConfig) (σ : Storage) (source node : Node) (edge : Edge) (answer : Except Raised Json) :
    Prop where
  succeeded : succeeded answer = true
  untold : toldAdopted answer = false
  added : adoptedId answer = some node.id
  shown : ∃ result, answer = .ok result ∧ result.field "adopted_node" = cfg.serializeNode node ∧
    result.field "lineage_edge" = cfg.serializeEdge edge ∧
      result.field "added_node_ids" = .ofStrings (addedIds σ source node) ∧
        result.field "added_edge_ids" = .ofStrings [edge.id]

theorem reports_attributed (cfg : ServiceConfig) (moment : Moment) (σ : Storage) (source node : Node) (edge : Edge)
    (message : String) (shown action : Json) : Reports cfg σ source node edge
      (.ok (attributed moment "adopt_federated_node" ([("success", .bool true), ("message", .str message),
        ("adopted_node", cfg.serializeNode node), ("source_node", shown), ("lineage_edge", cfg.serializeEdge edge)] ++
        [("added_node_ids", .ofStrings (addedIds σ source node)), ("added_edge_ids", .ofStrings [edge.id])] ++
        [("action", action)]))) := by
  have field : ∀ key, key ≠ "attribution" → (attributed moment "adopt_federated_node" ([("success", .bool true),
      ("message", .str message), ("adopted_node", cfg.serializeNode node), ("source_node", shown),
      ("lineage_edge", cfg.serializeEdge edge)] ++
        [("added_node_ids", .ofStrings (addedIds σ source node)), ("added_edge_ids", .ofStrings [edge.id])] ++
        [("action", action)])).field key = _ := fun key other =>
    (field_attributed (by simp) (by simp) moment _ other).trans (field_respond (by simp) key)
  refine ⟨?_, ?_, ?_, _, rfl, ?_, ?_, ?_, ?_⟩
  · rw [succeeded, effective, field _ (by decide)]
    rfl
  · rw [toldAdopted, field _ (by decide)]
    rfl
  · rw [adoptedId, effective, field _ (by decide), field _ (by decide)]
    rfl
  all_goals
    rw [field _ (by decide)]
    rfl

end Answers

section Adding

variable {cfg : ServiceConfig} {moment : Moment} {σ : Storage}

theorem kept_allocate (cfg : StorageConfig) (nodes : List Node) (edges : List Edge) (σ : Storage) :
    Storage.Kept cfg σ (ServiceConfig.allocate nodes edges σ).1 := by
  refine { Storage.Kept.refl cfg σ with node := fun ref inside => ?_, edge := fun id ref found inside => ?_ }
  · have same : (ServiceConfig.allocate nodes edges σ).1.node ref = σ.node ref := Heap.read_allocAll_of_lt inside nodes
    rw [same, ServiceConfig.allocate, Heap.size_allocAll]
    exact ⟨Nat.lt_add_right _ inside, rfl, rfl⟩
  · have same : (ServiceConfig.allocate nodes edges σ).1.edge ref = σ.edge ref := Heap.read_allocAll_of_lt inside edges
    rw [same, ServiceConfig.allocate, Heap.size_allocAll]
    exact ⟨Nat.lt_add_right _ inside, rfl, rfl, rfl⟩

/-- The new objects are inside of the heaps, and nothing refers to them. -/
structure Unused (ρ : Storage) (nodes edges : List Ref) : Prop where
  nodesInside : ∀ ref ∈ nodes, ref < ρ.nodeObjects.size
  edgesInside : ∀ ref ∈ edges, ref < ρ.edgeObjects.size
  distinct : edges.Nodup
  nodes : ∀ id ref, ρ.nodes.get? id = some ref → ref ∉ nodes
  edges : ∀ id ref, ρ.edges.get? id = some ref → ref ∉ edges

theorem unused_allocate (valid : σ.Valid cfg.storage) (nodes : List Node) (edges : List Edge) :
    Unused (ServiceConfig.allocate nodes edges σ).1 (ServiceConfig.allocate nodes edges σ).2.1
      (ServiceConfig.allocate nodes edges σ).2.2 := by
  refine ⟨fun ref member => ?_, fun ref member => ?_, Heap.allocAll_nodup _ _, fun id ref found member => ?_,
    fun id ref found member => ?_⟩
  · rw [ServiceConfig.allocate, Heap.size_allocAll]
    exact (Heap.allocAll_fresh member).2
  · rw [ServiceConfig.allocate, Heap.size_allocAll]
    exact (Heap.allocAll_fresh member).2
  · exact absurd (valid.node_held id ref found).1 (Nat.not_lt.mpr (Heap.allocAll_fresh member).1)
  · exact absurd (valid.edge_held id ref found).1 (Nat.not_lt.mpr (Heap.allocAll_fresh member).1)

/-- The adoption of a node from one storage to the next: one local copy of it, one edge from the copy to what
is stored under its id, and a read-only reference where nothing was. -/
structure Adopts (request : AdoptionRequest) (source : Node) (σ τ : Storage) (node : Node) (edge : Edge) : Prop where
  new : σ.stored node.id = none
  apart : node.id ≠ source.id
  copied : node.typeName = source.typeStr ∧ node.name = adoptedName request.localName source ∧
    node.description = source.description ∧ node.summary = source.summary ∧ node.tags = source.tags
  metadata : node.metadata = adoptedMetadata source
  stored : τ.stored node.id = some node
  newEdge : σ.link edge.id = none
  linked : τ.link edge.id = some edge
  lineage : edge.source = node.id ∧ edge.target = source.id
  reference : σ.stored source.id = none → ∃ reference, τ.stored source.id = some reference ∧
    reference.metadata = (source.metadata.insert "is_federated_reference" (.bool true)).insert "read_only" (.bool true)
  nodes : ∀ id, id ≠ node.id → (id = source.id → (σ.stored id).isSome) → τ.stored id = σ.stored id
  edges : ∀ id, id ≠ edge.id → τ.link id = σ.link id

/-- What is let through to be added. -/
theorem adoption_of_prepared {federation : Option Federated} {request : AdoptionRequest} {adoption : Adoption}
    (prepared : prepareAdoption cfg moment federation request σ = .ok adoption) :
    adoptable moment federation request = .ok adoption.source ∧
      adoptedNode (moment.fresh 0) request.localName adoption.source = some adoption.node ∧
        (if request.createNewCopy then .ok none
          else alreadyAdopted adoption.source.id (σ.nodes.values.map σ.node)) = .ok none := by
  rw [prepareAdoption] at prepared
  split at prepared
  · cases prepared
  · rename_i source allowed
    split at prepared
    · cases prepared
    · cases prepared
    · rename_i searched
      split at prepared
      · cases prepared
      · rename_i node built
        split at prepared
        · cases prepared
        · cases prepared
          exact ⟨allowed, built, searched⟩

theorem copied_adoptedNode {fresh : Fresh} {localName : Option String} {source node : Node}
    (built : adoptedNode fresh localName source = some node) :
    node.id = fresh.id ∧ node.typeName = source.typeStr ∧ node.name = adoptedName localName source ∧
      node.description = source.description ∧ node.summary = source.summary ∧ node.tags = source.tags := by
  rw [adoptedNode] at built
  split at built
  · cases built
    exact ⟨rfl, rfl, rfl, rfl, rfl, rfl⟩
  · cases built

variable {request : AdoptionRequest} {adoption : Adoption} {ρ τ : Storage} {nodes : List Ref} {edge : Ref}

/-- What was added is the adoption. -/
theorem adopts_of_added (prepared : Prepared moment request σ adoption)
    (built : adoptedNode (moment.fresh 0) request.localName adoption.source = some adoption.node)
    (stored : ∀ id, ρ.stored id = σ.stored id) (link : ∀ id, ρ.link id = σ.link id)
    (listed : nodes.map ρ.node = adoption.nodes) (edgeRead : ρ.edge edge = adoption.edge)
    (added : Storage.Added nodes [edge] ρ τ) (unused : Unused ρ nodes [edge])
    (newNodes : Storage.New (nodes.map fun ref => (ρ.node ref).id) ρ.nodes.keys)
    (newEdge : adoption.edge.id ∉ ρ.edges.keys) (linked : τ.edge edge = adoption.edge)
    (target : adoption.edge.target = adoption.source.id) :
    ∃ ref rest, nodes = ref :: rest ∧ (τ.node ref).id = adoption.node.id ∧
      Adopts request adoption.source σ τ (τ.node ref) (τ.edge edge) := by
  cases nodes with
  | nil => cases listed
  | cons ref rest =>
    have first : ρ.node ref = adoption.node := (List.cons.inj listed).1
    have others : rest.map ρ.node = adoption.reference.toList := (List.cons.inj listed).2
    obtain ⟨embedding, read⟩ := added.node ref
    rw [first] at read
    obtain ⟨_, type, name, description, summary, tags⟩ := copied_adoptedNode built
    have ids : ((ref :: rest).map fun ref => (ρ.node ref).id) = adoption.node.id :: adoption.reference.toList.map Node.id := by
      rw [List.map_cons, first, ← others, List.map_map]
      rfl
    rw [ids] at newNodes
    have isNew : σ.stored adoption.node.id = none := by
      rw [← stored, Storage.stored, OrderedDict.get?_eq_none.mpr (newNodes.fresh _ (.head _)), Option.map_none]
    have reference := prepared.reference
    have apart : adoption.node.id ≠ adoption.source.id := fun same => by
      rw [← same, isNew] at reference
      rw [reference] at newNodes
      exact (List.nodup_cons.mp newNodes.distinct).1 (same ▸ .head _)
    refine ⟨ref, rest, rfl, by rw [read], ?_⟩
    rw [read, linked]
    refine ⟨isNew, apart, ⟨type, name, description, summary, tags⟩, prepared.metadata, ?_, ?_, ?_, ⟨?_, target⟩,
      fun none => ?_, fun id other known => ?_, fun id other => ?_⟩
    · have there := added.stored_of_mem (List.mem_cons_self (a := ref) (l := rest))
      rw [first, read] at there
      exact there
    · rw [← link]
      exact Storage.link_eq_none.mpr newEdge
    · have there := added.link_of_mem (List.mem_singleton_self edge)
      rw [edgeRead, linked] at there
      exact there
    · rw [prepared.edge]
      rfl
    · rw [none] at reference
      rw [reference] at others
      cases rest with
      | nil => cases others
      | cons second rest =>
        have second' : ρ.node second = sourceReference (moment.fresh 1) adoption.source := (List.cons.inj others).1
        have there := added.stored_of_mem (List.mem_cons_of_mem ref (List.mem_cons_self (a := second) (l := rest)))
        obtain ⟨_, read'⟩ := added.node second
        rw [second'] at there read'
        exact ⟨_, there, by rw [read']; rfl⟩
    · rw [added.stored_of_notMem unused.nodes, stored]
      rw [ids, List.mem_cons, not_or]
      refine ⟨other, fun member => ?_⟩
      rw [reference] at member
      split at member
      · rename_i none
        have same : id = adoption.source.id := List.mem_singleton.mp member
        have present := known same
        rw [same, Option.isNone_iff_eq_none.mp none] at present
        cases present
      · cases member
    · rw [added.link_of_notMem unused.edges, link]
      rw [List.map_singleton, edgeRead, List.mem_singleton]
      exact other

/-- An adoption that the storage adds is one, and its answer reports it. -/
theorem adopts_of_success (valid : σ.Valid cfg.storage) {federation : Option Federated}
    (prepared : prepareAdoption cfg moment federation request σ = .ok adoption)
    (success : ((ServiceConfig.allocate adoption.nodes [adoption.edge] σ).1.addNodes cfg.storage
      (ServiceConfig.allocate adoption.nodes [adoption.edge] σ).2.1
      (ServiceConfig.allocate adoption.nodes [adoption.edge] σ).2.2 moment.encoded).2.success = true) :
    ∃ node edge, Adopts request adoption.source σ (adoptFederatedNode cfg moment federation request σ).1 node edge ∧
      Reports cfg σ adoption.source node edge (adoptFederatedNode cfg moment federation request σ).2 := by
  obtain ⟨_, built, _⟩ := adoption_of_prepared prepared
  have made := prepared_of_ok prepared
  obtain ⟨listed, edgeRefs, edgeRead⟩ := objects_adoption adoption σ
  have unused := unused_allocate valid adoption.nodes [adoption.edge]
  have stored := stored_allocate valid.toIndexed adoption.nodes [adoption.edge]
  have link := link_allocate valid.toIndexed adoption.nodes [adoption.edge]
  have first : (ServiceConfig.allocate adoption.nodes [adoption.edge] σ).2.1.head? = some σ.nodeObjects.size := rfl
  have keys : (ServiceConfig.allocate adoption.nodes [adoption.edge] σ).1.nodes.keys = σ.nodes.keys := rfl
  have joined := joined_adoption valid made
  rw [adoptFederatedNode, prepared]
  dsimp only
  rw [edgeRefs] at success unused ⊢
  generalize (ServiceConfig.allocate adoption.nodes [adoption.edge] σ).2.1 = refs at *
  generalize (ServiceConfig.allocate adoption.nodes [adoption.edge] σ).1 = ρ at *
  have addable : ρ.Addable cfg.storage refs [σ.edgeObjects.size] :=
    (Storage.addNodes_success_iff cfg.storage refs moment.encoded unused.edgesInside).mp success
  have ids : refs.map (fun ref => (ρ.node ref).id) = adoption.nodes.map Node.id := by
    rw [← listed, List.map_map]
    rfl
  have new : Storage.New (adoption.nodes.map Node.id) σ.nodes.keys := by
    rw [← ids, ← keys]
    exact addable.newNodes
  obtain ⟨_, near, far, atFar, _⟩ := joined new
  obtain ⟨source, target, fromSource, toTarget, linked⟩ :=
    Storage.addNodes_ends unused.edgesInside unused.distinct success (List.mem_singleton_self _)
  rw [edgeRead] at fromSource toTarget linked
  obtain rfl := Option.some.inj ((resolve_of_stored near).symm.trans fromSource)
  obtain rfl := Option.some.inj ((resolve_of_stored atFar).symm.trans toTarget)
  generalize ended : ρ.addNodes cfg.storage refs [σ.edgeObjects.size] moment.encoded = done at success linked ⊢
  obtain ⟨τ, result⟩ := done
  obtain ⟨added, nodeIds, edgeIds⟩ := Storage.addNodes_added unused.edgesInside ended success
  have newEdge : adoption.edge.id ∉ ρ.edges.keys := by
    have fresh := addable.newEdges.fresh _ (List.mem_map_of_mem (List.mem_singleton_self σ.edgeObjects.size))
    rwa [edgeRead] at fresh
  obtain ⟨ref, rest, split, same, adopts⟩ := adopts_of_added made built stored link listed edgeRead added unused
    addable.newNodes newEdge linked (far_adoption valid made).1
  obtain rfl : ref = σ.nodeObjects.size := by
    rw [split] at first
    exact Option.some.inj first
  have success' : result.success = true := success
  dsimp only
  have listedIds : adoption.nodes.map Node.id = addedIds σ adoption.source (τ.node σ.nodeObjects.size) := by
    rw [Adoption.nodes, List.map_cons, made.reference, addedIds, same]
    split <;> rfl
  have sameEdge : (τ.edge σ.edgeObjects.size).id = adoption.edge.id := congrArg Edge.id linked
  rw [if_pos success', nodeIds, edgeIds, ids, listedIds, List.map_singleton, edgeRead, ← sameEdge]
  exact ⟨_, _, adopts, reports_attributed ..⟩

/-- Why a call may fail: the request, its source, or the node that is stored under the id of the source. -/
inductive AdoptionRefusal (cfg : ServiceConfig) (moment : Moment) (federation : Option Federated) (request : AdoptionRequest)
    (held : Option Node) : Except Raised Json → Prop where
  | refused {answer : Json} (refused : adoptable moment federation request = .error answer) :
    AdoptionRefusal cfg moment federation request held (.ok answer)
  | tooLong {source : Node} (allowed : adoptable moment federation request = .ok source)
    (long : adoptedNode (moment.fresh 0) request.localName source = none) :
    AdoptionRefusal cfg moment federation request held (.error (.badValue (.str (adoptedName request.localName source))))
  | annotated {source node : Node} {error : String} (allowed : adoptable moment federation request = .ok source)
    (built : adoptedNode (moment.fresh 0) request.localName source = some node)
    (kind : node.typeStr ∈ ServiceConfig.savedViewNodeTypes) (wrong : cfg.savedViewAnnotationError node.metadata = some error) :
    AdoptionRefusal cfg moment federation request held (.ok (notAdopted ("Error validating input: " ++ error)))
  | unrelated {source : Node} {error : String} {answer : Json} (allowed : adoptable moment federation request = .ok source)
    (wrong : relationshipTypeAllowsNodeTypes cfg.storage
      (if request.relationshipType = "" then relatesTo.1 else request.relationshipType) source.typeStr
      (held.getD source).typeStr = some error) : AdoptionRefusal cfg moment federation request held (.ok answer)

theorem typeStr_eq (node : Node) : node.typeStr = node.typeName :=
  TypeLabel.typeStr_ofName NodeType.all NodeType.value node.typeName

/-- The generated ids are new. -/
structure FreshIds (moment : Moment) (request : AdoptionRequest) (σ : Storage) : Prop where
  node : (moment.fresh 0).id ∉ σ.nodes.keys
  apart : (moment.fresh 0).id ≠ request.federatedNodeId
  edge : (moment.fresh 2).id ∉ σ.edges.keys

theorem new_adoption {federation : Option Federated} (named : adoption.source.id = request.federatedNodeId)
    (prepared : prepareAdoption cfg moment federation request σ = .ok adoption) (fresh : FreshIds moment request σ) :
    Storage.New (adoption.nodes.map Node.id) σ.nodes.keys := by
  obtain ⟨_, built, _⟩ := adoption_of_prepared prepared
  have id : adoption.node.id = (moment.fresh 0).id := (copied_adoptedNode built).1
  have reference := (prepared_of_ok prepared).reference
  rw [Adoption.nodes, List.map_cons, Storage.new_cons, id, reference]
  split
  · rename_i none
    have absent : adoption.source.id ∉ σ.nodes.keys := by
      rw [Option.isNone_iff_eq_none, Storage.stored, Option.map_eq_none_iff] at none
      exact OrderedDict.get?_eq_none.mp none
    refine ⟨fresh.node, fun member => ?_, List.nodup_singleton _, fun other member => ?_⟩
    · exact fresh.apart ((List.mem_singleton.mp member).trans named)
    · rw [List.mem_singleton.mp member]
      exact absent
  · exact ⟨fresh.node, List.not_mem_nil, List.nodup_nil, fun _ none => absurd none List.not_mem_nil⟩

/-- With new ids, an adoption fails only where its edge may not lead to the node under the id of its source. -/
theorem wrong_of_failure (valid : σ.Valid cfg.storage) {federation : Option Federated}
    (named : adoption.source.id = request.federatedNodeId)
    (prepared : prepareAdoption cfg moment federation request σ = .ok adoption) (fresh : FreshIds moment request σ)
    (failed : ((ServiceConfig.allocate adoption.nodes [adoption.edge] σ).1.addNodes cfg.storage
      (ServiceConfig.allocate adoption.nodes [adoption.edge] σ).2.1
      (ServiceConfig.allocate adoption.nodes [adoption.edge] σ).2.2 moment.encoded).2.success ≠ true) :
    ∃ error, relationshipTypeAllowsNodeTypes cfg.storage
      (if request.relationshipType = "" then relatesTo.1 else request.relationshipType) adoption.source.typeStr
      ((σ.stored adoption.source.id).getD adoption.source).typeStr = some error := by
  have made := prepared_of_ok prepared
  have new := new_adoption named prepared fresh
  obtain ⟨_, built, _⟩ := adoption_of_prepared prepared
  obtain ⟨_, edgeRefs, edgeRead⟩ := objects_adoption adoption σ
  have unused := unused_allocate valid adoption.nodes [adoption.edge]
  have keys : (ServiceConfig.allocate adoption.nodes [adoption.edge] σ).1.nodes.keys = σ.nodes.keys := rfl
  have edgeKeys : (ServiceConfig.allocate adoption.nodes [adoption.edge] σ).1.edges.keys = σ.edges.keys := rfl
  obtain ⟨ids, near, far, atFar, held⟩ := joined_adoption valid made new
  rw [edgeRefs] at failed unused
  rw [ne_eq, Storage.addNodes_success_iff cfg.storage _ moment.encoded unused.edgesInside] at failed
  generalize (ServiceConfig.allocate adoption.nodes [adoption.edge] σ).2.1 = refs at *
  generalize (ServiceConfig.allocate adoption.nodes [adoption.edge] σ).1 = ρ at *
  by_contra allowed
  have id : adoption.edge.id = (moment.fresh 2).id := by rw [made.edge]; rfl
  have type : adoption.edge.type.1 =
      if request.relationshipType = "" then relatesTo.1 else request.relationshipType := by
    rw [made.edge, lineageEdge]
    dsimp only
    split <;> rfl
  have nearType : adoption.node.typeStr = adoption.source.typeStr :=
    (typeStr_eq adoption.node).trans (copied_adoptedNode built).2.1
  have farType : far.typeStr = ((σ.stored adoption.source.id).getD adoption.source).typeStr := by
    rcases held with here | ⟨none, rfl⟩
    · rw [here, Option.getD_some]
    · rw [none, Option.getD_none]
      exact typeStr_eq (sourceReference (moment.fresh 1) adoption.source)
  refine failed ⟨?_, ?_, fun ref member => ?_⟩
  · rw [ids, keys]
    exact new
  · rw [List.map_singleton, edgeRead, edgeKeys, id]
    exact ⟨List.nodup_singleton _, fun other member => by rw [List.mem_singleton.mp member]; exact fresh.edge⟩
  · rw [List.mem_singleton.mp member, edgeRead]
    refine ⟨_, _, resolve_of_stored near, resolve_of_stored atFar, (validate_of_stored near atFar).trans ?_⟩
    rw [type, nearType, farType]
    exact Option.eq_none_iff_forall_ne_some.mpr fun error same => allowed ⟨error, same⟩

theorem valid_adoptFederatedNode (valid : σ.Valid cfg.storage) (federation : Option Federated) (request : AdoptionRequest) :
    (adoptFederatedNode cfg moment federation request σ).1.Valid cfg.storage := by
  rw [adoptFederatedNode]
  cases prepareAdoption cfg moment federation request σ with
  | error answer => exact valid
  | ok adoption =>
    have unused := unused_allocate valid adoption.nodes [adoption.edge]
    have done := (valid.kept (kept_allocate cfg.storage adoption.nodes [adoption.edge] σ)).addNodes moment.encoded
      unused.nodesInside unused.edgesInside
    dsimp only
    split <;> exact done

/-- A node that the search finds is returned. -/
theorem adoptFederatedNode_of_found {federation : Option Federated} {source node : Node}
    (allowed : adoptable moment federation request = .ok source) (search : request.createNewCopy = false)
    (found : (σ.nodes.values.map σ.node).find? (endsSearch source.id) = some node)
    (names : namesSource source.id node = true) :
    adoptFederatedNode cfg moment federation request σ = (σ, .ok (adoptedBefore cfg node source)) := by
  have searched : alreadyAdopted source.id (σ.nodes.values.map σ.node) = .ok (some node) := by
    rcases alreadyAdopted_cases source.id (σ.nodes.values.map σ.node) with ⟨none, _⟩ | ⟨other, there, ended⟩
    · rw [none] at found
      cases found
    · obtain rfl := Option.some.inj (there.symm.trans found)
      rcases ended with ⟨_, same⟩ | ⟨unnamed, _⟩
      · exact same
      · rw [unnamed] at names
        cases names
  have prepared : prepareAdoption cfg moment federation request σ = .error (.ok (adoptedBefore cfg node source)) := by
    rw [prepareAdoption, allowed]
    dsimp only
    rw [if_neg (by simp [search]), searched]
  rw [adoptFederatedNode, prepared]

theorem searched_eq {request : AdoptionRequest} {search : Except Raised (Option Node)} {found : Except Raised (Option Node)}
    (some : found ≠ .ok none) (searched : (if request.createNewCopy then .ok none else search) = found) :
    request.createNewCopy = false ∧ search = found := by
  cases copy : request.createNewCopy with
  | true => exact absurd (by rw [← searched, copy]; rfl) some
  | false => exact ⟨rfl, by rw [← searched, copy]; rfl⟩

/-- A call that adds nothing and returns nothing. -/
structure Declined (cfg : ServiceConfig) (moment : Moment) (federation : Option Federated) (request : AdoptionRequest)
    (σ τ : Storage) (answer : Except Raised Json) : Prop where
  declines : Declines answer
  keeps : ∀ id node, σ.stored id = some node → τ.stored id = some node
  refusal : FreshIds moment request σ → (∀ node, request.createNewCopy = false →
    (σ.nodes.values.map σ.node).find? (endsSearch request.federatedNodeId) = some node →
      namesSource request.federatedNodeId node = true) →
        AdoptionRefusal cfg moment federation request (σ.stored request.federatedNodeId) answer

/-- What a call may come to: it adds nothing, it returns a node that was found, or it adopts. -/
theorem adoptFederatedNode_cases (cfg : ServiceConfig) {σ : Storage} (valid : σ.Valid cfg.storage) {federation : Option Federated}
    (named : ∀ source, adoptable moment federation request = .ok source → source.id = request.federatedNodeId) :
    Declined cfg moment federation request σ (adoptFederatedNode cfg moment federation request σ).1
        (adoptFederatedNode cfg moment federation request σ).2 ∨
      (∃ source node, adoptable moment federation request = .ok source ∧ request.createNewCopy = false ∧
        (σ.nodes.values.map σ.node).find? (endsSearch source.id) = some node ∧
          (adoptFederatedNode cfg moment federation request σ).1 = σ ∧
            Recalls cfg node (adoptFederatedNode cfg moment federation request σ).2) ∨
      ∃ source node edge, adoptable moment federation request = .ok source ∧
        Adopts request source σ (adoptFederatedNode cfg moment federation request σ).1 node edge ∧
          Reports cfg σ source node edge (adoptFederatedNode cfg moment federation request σ).2 := by
  cases prepared : prepareAdoption cfg moment federation request σ with
  | error answer =>
    have done : adoptFederatedNode cfg moment federation request σ = (σ, answer) := by rw [adoptFederatedNode, prepared]
    rw [done]
    rw [prepareAdoption] at prepared
    split at prepared
    · rename_i refusal refused
      cases prepared
      exact .inl ⟨declines_adoptable refused, fun _ _ here => here, fun _ _ => .refused refused⟩
    · rename_i source allowed
      split at prepared
      · rename_i raised searched
        cases prepared
        obtain ⟨search, stopped⟩ := searched_eq (by simp) searched
        refine .inl ⟨⟨rfl, rfl⟩, fun _ _ here => here, fun _ genuine => ?_⟩
        rcases alreadyAdopted_cases source.id (σ.nodes.values.map σ.node) with ⟨_, none⟩ | ⟨node, found, ended⟩
        · cases stopped.symm.trans none
        · rw [named source allowed] at found ended
          have names := genuine node search found
          rcases ended with ⟨_, other⟩ | ⟨unnamed, _⟩
          · rw [named source allowed] at stopped
            cases stopped.symm.trans other
          · rw [names] at unnamed
            cases unnamed
      · rename_i node searched
        cases prepared
        obtain ⟨search, ended⟩ := searched_eq (by simp) searched
        refine .inr (.inl ⟨source, node, allowed, search, ?_, rfl, recalls_adoptedBefore cfg node source⟩)
        rcases alreadyAdopted_cases source.id (σ.nodes.values.map σ.node) with ⟨_, none⟩ | ⟨other, found, ⟨_, same⟩ | ⟨_, _, stopped⟩⟩
        · cases ended.symm.trans none
        · cases ended.symm.trans same
          exact found
        · cases ended.symm.trans stopped
      · split at prepared
        · rename_i long
          cases prepared
          exact .inl ⟨⟨rfl, rfl⟩, fun _ _ here => here, fun _ _ => .tooLong allowed long⟩
        · rename_i node built
          split at prepared
          · rename_i error wrong
            cases prepared
            split at wrong
            · rename_i kind
              exact .inl ⟨declines_notAdopted _, fun _ _ here => here, fun _ _ => .annotated allowed built kind wrong⟩
            · cases wrong
          · cases prepared
  | ok adoption =>
    obtain ⟨allowed, _, _⟩ := adoption_of_prepared prepared
    by_cases success : ((ServiceConfig.allocate adoption.nodes [adoption.edge] σ).1.addNodes cfg.storage
      (ServiceConfig.allocate adoption.nodes [adoption.edge] σ).2.1
      (ServiceConfig.allocate adoption.nodes [adoption.edge] σ).2.2 moment.encoded).2.success = true
    · obtain ⟨node, edge, adopts, reports⟩ := adopts_of_success valid prepared success
      exact .inr (.inr ⟨adoption.source, node, edge, allowed, adopts, reports⟩)
    · have unused := unused_allocate valid adoption.nodes [adoption.edge]
      have wrong := wrong_of_failure valid (named _ allowed) prepared
      have keeps : ∀ id node, σ.stored id = some node →
          ((ServiceConfig.allocate adoption.nodes [adoption.edge] σ).1.addNodes cfg.storage
            (ServiceConfig.allocate adoption.nodes [adoption.edge] σ).2.1
            (ServiceConfig.allocate adoption.nodes [adoption.edge] σ).2.2 moment.encoded).1.stored id = some node :=
        fun id node here => Storage.addNodes_keeps moment.encoded unused.edgesInside unused.distinct unused.nodes
          ((stored_allocate valid.toIndexed adoption.nodes [adoption.edge] id).trans here)
      rw [adoptFederatedNode, prepared]
      dsimp only
      rw [if_neg success]
      refine .inl ⟨declines_respond (by simp) rfl rfl, keeps, fun fresh _ => ?_⟩
      obtain ⟨error, wrong⟩ := wrong fresh success
      rw [named _ allowed] at wrong
      exact .unrelated allowed wrong

end Adding

section Runs

variable {cfg : ServiceConfig} {t : Texts} {b : Federation.Builtins} {r : Readers} {allowAdopt : Option (String → Bool)}
variable {s s' : Adoptions} {moment : Moment} {decision : GraphAuthorizationDecision} {request : AdoptionRequest}

/-- What every run keeps: the caches file the nodes under their ids, and the nodes of the ledger are stored and
name their sources. -/
structure Recorded (cfg : ServiceConfig) (s : Adoptions) : Prop where
  valid : s.storage.Valid cfg.storage
  cached : ∀ graphId, Federation.Labelled Node.id (s.manager.cache graphId).nodes
  ledger : ∀ entry ∈ s.ledger, ∃ node, s.storage.stored entry.1 = some node ∧ namesSource entry.2 node = true

theorem cachedNode_of_adoptable {federation : Option Federated} {source : Node}
    (allowed : adoptable moment federation request = .ok source) :
    ∃ enabled, federation = some enabled ∧ enabled.manager.cachedNode request.federatedNodeId = some source := by
  unfold adoptable at allowed
  dsimp only at allowed
  split at allowed
  · cases allowed
  · split at allowed
    · cases allowed
    · rename_i enabled
      split at allowed
      · cases allowed
      · rename_i cached found
        split at allowed
        · cases allowed
        · split at allowed
          · cases allowed
          · cases allowed
            exact ⟨enabled, rfl, found⟩

theorem cachedNode_of_federation {source : Node}
    (allowed : adoptable moment (s.federation allowAdopt) request = .ok source) :
    s.manager.cachedNode request.federatedNodeId = some source := by
  obtain ⟨enabled, federation, found⟩ := cachedNode_of_adoptable allowed
  obtain ⟨_, _, rfl⟩ := Option.map_eq_some_iff.mp federation
  exact found

theorem Recorded.named (recorded : Recorded cfg s) {source : Node}
    (allowed : adoptable moment (s.federation allowAdopt) request = .ok source) :
    source.id = request.federatedNodeId := by
  have found := cachedNode_of_federation allowed
  rw [Federation.FederationManager.cachedNode] at found
  obtain ⟨graph, _, cached⟩ := List.exists_of_findSome?_eq_some found
  exact recorded.cached graph.graphId _ _ cached

/-- A sync files what it caches under its id. -/
theorem labelled_syncGraph {m : Federation.FederationManager}
    (labelled : ∀ graphId, Federation.Labelled Node.id (m.cache graphId).nodes)
    (request : Federation.FederationManager.Request) (graphId : String) :
    Federation.Labelled Node.id ((m.syncGraph b r request).1.cache graphId).nodes := by
  by_cases known : ∃ graph ∈ m.graphs, request.graphId = graph.graphId
  · obtain ⟨graph, configured, asked⟩ := known
    rw [Federation.FederationManager.syncGraph_eq configured asked]
    dsimp only
    by_cases same : graphId = graph.graphId
    · subst same
      rw [Function.update_self]
      rcases Federation.FederatedGraphCache.sync_cases b r graph request.fetched request.moment (m.cache graph.graphId) with
        ⟨_, _, _, built, _, _, made, swap⟩ | ⟨after, _, failed, _, nodes, _⟩
      · rw [swap]
        exact (Federation.labelled_built made).1
      · rw [failed]
        dsimp only
        rw [nodes]
        exact labelled graph.graphId
    · rw [Function.update_of_ne same]
      exact labelled graphId
  · rw [Federation.FederationManager.syncGraph_unknown fun graph configured same => known ⟨graph, configured, same⟩]
    exact labelled graphId

theorem Recorded.step (recorded : Recorded cfg s) {turn : Turn} {output : Option (Except Raised Json)}
    (stepped : s.step cfg t b r allowAdopt turn = some (s', output)) : Recorded cfg s' := by
  cases turn with
  | adopt moment decision request =>
    obtain ⟨rfl, _⟩ := Prod.mk.inj (Option.some.inj stepped)
    have named : ∀ source, adoptable (under t decision moment) (s.federation allowAdopt) request = .ok source →
        source.id = request.federatedNodeId := fun _ => recorded.named
    refine ⟨valid_adoptFederatedNode recorded.valid _ request, recorded.cached, ?_⟩
    dsimp only
    rcases adoptFederatedNode_cases cfg recorded.valid named with
      declined | ⟨_, node, _, _, _, same, recalls⟩ | ⟨source, node, edge, allowed, adopts, reports⟩
    · rw [Adoptions.call, declined.declines.adoptedId]
      intro entry member
      obtain ⟨node, here, names⟩ := recorded.ledger entry member
      exact ⟨node, declined.keeps _ _ here, names⟩
    · rw [Adoptions.call, recalls.added, same]
      exact recorded.ledger
    · rw [Adoptions.call, reports.added]
      intro entry member
      rcases List.mem_cons.mp member with rfl | member
      · refine ⟨node, adopts.stored, ?_⟩
        have names := namesSource_adopted adopts.metadata
        rwa [named source allowed] at names
      · obtain ⟨other, here, names⟩ := recorded.ledger entry member
        have differs : entry.1 ≠ node.id := fun same => by
          rw [same, adopts.new] at here
          cases here
        refine ⟨other, ?_, names⟩
        rw [adopts.nodes _ differs fun _ => by rw [here]; rfl]
        exact here
  | sync request =>
    obtain ⟨rfl, _⟩ := Prod.mk.inj (Option.some.inj stepped)
    exact ⟨recorded.valid, labelled_syncGraph recorded.cached request, recorded.ledger⟩
  | delete nodeIds =>
    obtain ⟨rfl, _⟩ := Prod.mk.inj (Option.some.inj stepped)
    refine ⟨recorded.valid.deleteNodes nodeIds true, recorded.cached, fun entry member => ?_⟩
    obtain ⟨listed, stays⟩ := List.mem_filter.mp member
    obtain ⟨node, here, names⟩ := recorded.ledger entry listed
    obtain ⟨gone, stored⟩ := Storage.deleteNodes_stored cfg.storage recorded.valid nodeIds
    refine ⟨node, ?_, names⟩
    rw [stored]
    split
    · rename_i dropped
      have absent : (s.storage.deleteNodes cfg.storage nodeIds true).1.stored entry.1 = none := by
        rw [stored, if_pos dropped]
      rw [Storage.stored, Option.map_eq_none_iff, OrderedDict.get?_eq_none] at absent
      exact absurd (of_decide_eq_true stays) absent
    · exact here

theorem local_of_stored {σ : Storage} {id : String} {node : Node} (here : σ.stored id = some node) :
    node ∈ σ.nodes.values.map σ.node := by
  obtain ⟨ref, found, rfl⟩ := Storage.stored_eq_some.mp here
  exact List.mem_map_of_mem (List.mem_map_of_mem (OrderedDict.get?_eq_some.mp found))

theorem stored_of_local {σ : Storage} (valid : σ.Valid cfg.storage) {node : Node}
    (listed : node ∈ σ.nodes.values.map σ.node) : σ.stored node.id = some node := by
  obtain ⟨ref, member, rfl⟩ := List.mem_map.mp listed
  obtain ⟨entry, inside, rfl⟩ := List.mem_map.mp member
  have found := OrderedDict.get?_eq_some.mpr inside
  refine Storage.stored_eq_some.mpr ⟨entry.2, ?_, rfl⟩
  rw [(valid.node_held _ _ found).2]
  exact found

/-- The node at which the search for an adoption of the federated node ends, if there is one, was made by such
an adoption, and the decision shows it. -/
def Genuine (t : Texts) (decision : GraphAuthorizationDecision) (s : Adoptions) (federatedNodeId : String) : Prop :=
  ∀ node, (s.storage.nodes.values.map s.storage.node).find? (endsSearch federatedNodeId) = some node →
    namesSource federatedNodeId node = true ∧ (node.id, federatedNodeId) ∈ s.ledger ∧
      isNodeVisible t decision.graphAccess node = true

/-- An answer tells the truth about what was adopted: it returns a node exactly where a stored node was made by
an adoption of the federated node, it adds one adoption where it says so, and fails for no other node. -/
structure Truthful (cfg : ServiceConfig) (t : Texts) (allowAdopt : Option (String → Bool)) (s : Adoptions)
    (moment : Moment) (decision : GraphAuthorizationDecision) (request : AdoptionRequest) : Prop where
  once : request.createNewCopy = false →
    ∀ source, adoptable (under t decision moment) (s.federation allowAdopt) request = .ok source →
      (toldAdopted (s.call cfg t allowAdopt moment decision request).2 = true ↔
        ∃ id, (id, request.federatedNodeId) ∈ s.ledger)
  returned : toldAdopted (s.call cfg t allowAdopt moment decision request).2 = true →
    (s.call cfg t allowAdopt moment decision request).1 = s.storage ∧
      ∃ node result, (node.id, request.federatedNodeId) ∈ s.ledger ∧ s.storage.stored node.id = some node ∧
        isNodeVisible t decision.graphAccess node = true ∧
          (s.call cfg t allowAdopt moment decision request).2 = .ok result ∧
            result.field "adopted_node" = cfg.serializeNode node
  added : succeeded (s.call cfg t allowAdopt moment decision request).2 = true →
    toldAdopted (s.call cfg t allowAdopt moment decision request).2 = false →
      ∃ source node edge, s.manager.cachedNode request.federatedNodeId = some source ∧
        source.id = request.federatedNodeId ∧
          Adopts request source s.storage (s.call cfg t allowAdopt moment decision request).1 node edge ∧
            Reports cfg s.storage source node edge (s.call cfg t allowAdopt moment decision request).2 ∧
              isNodeVisible t decision.graphAccess node = true
  failed : succeeded (s.call cfg t allowAdopt moment decision request).2 = false →
    AdoptionRefusal cfg (under t decision moment) (s.federation allowAdopt) request
      (s.storage.stored request.federatedNodeId) (s.call cfg t allowAdopt moment decision request).2

theorem Recorded.truthful (recorded : Recorded cfg s) (fresh : FreshIds moment request s.storage)
    (genuine : request.createNewCopy = false → Genuine t decision s request.federatedNodeId) :
    Truthful cfg t allowAdopt s moment decision request := by
  have named : ∀ source, adoptable (under t decision moment) (s.federation allowAdopt) request = .ok source →
      source.id = request.federatedNodeId := fun _ => recorded.named
  have fresh' : FreshIds (under t decision moment) request s.storage := ⟨fresh.node, fresh.apart, fresh.edge⟩
  have cases := adoptFederatedNode_cases cfg recorded.valid named
  refine ⟨fun search source allowed => ⟨fun told => ?_, fun adopted => ?_⟩, fun told => ?_, fun effective untold => ?_,
    fun failed => ?_⟩
  · rcases cases with declined | ⟨source, node, allowed, search, found, _⟩ | ⟨source, node, edge, _, _, reports⟩
    · cases told.symm.trans declined.declines.untold
    · rw [named source allowed] at found
      exact ⟨node.id, (genuine search node found).2.1⟩
    · cases told.symm.trans reports.untold
  · obtain ⟨id, listed⟩ := adopted
    obtain ⟨other, here, names⟩ := recorded.ledger _ listed
    have ends : endsSearch request.federatedNodeId other = true := by rw [endsSearch, names, Bool.or_true]
    obtain ⟨node, found⟩ := Option.isSome_iff_exists.mp
      (List.find?_isSome.mpr ⟨other, local_of_stored here, ends⟩)
    have namesNode := (genuine search node found).1
    rw [← named source allowed] at found namesNode
    rw [Adoptions.call, adoptFederatedNode_of_found allowed search found namesNode]
    exact (recalls_adoptedBefore cfg node source).told
  · rcases cases with declined | ⟨source, node, allowed, search, found, same, recalls⟩ | ⟨source, node, edge, _, _, reports⟩
    · cases told.symm.trans declined.declines.untold
    · rw [named source allowed] at found
      obtain ⟨_, listed, seen⟩ := genuine search node found
      obtain ⟨result, answer, shown⟩ := recalls.shown
      exact ⟨same, node, result, listed, stored_of_local recorded.valid (List.mem_of_find?_eq_some found), seen, answer, shown⟩
    · cases told.symm.trans reports.untold
  · rcases cases with declined | ⟨source, node, allowed, search, found, same, recalls⟩ | ⟨source, node, edge, allowed, adopts, reports⟩
    · cases effective.symm.trans declined.declines.failed
    · cases untold.symm.trans recalls.told
    · exact ⟨source, node, edge, cachedNode_of_federation allowed, named source allowed, adopts, reports,
        (isNodeVisible_adopted adopts.metadata).trans (visible_of_adoptable allowed)⟩
  · rcases cases with declined | ⟨source, node, allowed, search, found, same, recalls⟩ | ⟨source, node, edge, allowed, adopts, reports⟩
    · exact declined.refusal fresh' fun node search found => (genuine search node found).1
    · cases failed.symm.trans recalls.succeeded
    · cases failed.symm.trans reports.succeeded

end Runs

/-- In every state that a run reaches, from any stored graph and with any caches that syncs built, a call tells
the truth if the search for an earlier adoption ends at none or at a genuine one. -/
theorem adoption_truthful (cfg : ServiceConfig) (t : Texts) (b : Federation.Builtins) (r : Readers)
    (allowAdopt : Option (String → Bool)) {disk : Option GraphData} (readable : ∀ data, disk = some data → data.Valid cfg.storage)
    {past : List (Action × Reply)} {σ : Storage}
    (reached : Run (Storage.step cfg.storage) (fun _ _ _ => True) { saved := disk } past σ)
    {graphs : List Federation.FederationGraphConfig}
    (distinct : (graphs.map Federation.FederationGraphConfig.graphId).Nodup) {ledger : List (String × String)}
    (made : ∀ entry ∈ ledger, ∃ node, σ.stored entry.1 = some node ∧ namesSource entry.2 node = true)
    {history : List (Turn × Option (Except Raised Json))} {s : Adoptions}
    (run : Run (Adoptions.step cfg t b r allowAdopt) (fun _ _ _ => True)
      { storage := σ, manager := .init graphs distinct, ledger } history s)
    {moment : Moment} {decision : GraphAuthorizationDecision} {request : AdoptionRequest}
    (fresh : FreshIds moment request s.storage)
    (genuine : request.createNewCopy = false → Genuine t decision s request.federatedNodeId) :
    Truthful cfg t allowAdopt s moment decision request := by
  have valid : σ.Valid cfg.storage := reached.invariant (fun _ σ => σ.Valid cfg.storage) (.initial readable)
    fun valid _ stepped => valid.step stepped
  have empty : ∀ graphId, Federation.Labelled Node.id ((Federation.FederationManager.init graphs distinct).cache graphId).nodes :=
    fun graphId id node cached => by
      rw [Federation.FederationManager.init] at cached
      dsimp only at cached
      split at cached <;> cases cached
  have recorded : Recorded cfg s := run.invariant (fun _ s => Recorded cfg s) ⟨valid, empty, made⟩
    fun recorded _ stepped => recorded.step stepped
  exact recorded.truthful fresh genuine

/-- A node whose `adopted_from` is a text. -/
def mislabelledActor : Node :=
  { sampleActor "a" "Office" localOffice_limits with metadata := .of [("adopted_from", .str "elsewhere")] }

def partnerPayload : Json := .obj [("edges", .arr []), ("nodes", .arr [Federation.sampleNode "n1" "Agency"])]

def partnerSync : Federation.FederationManager.Request where
  graphId := "partner"
  fetched := .ok partnerPayload
  moment := Federation.sampleMoment

def adoptFirst : AdoptionRequest := { federatedNodeId := "federated::partner::n1" }

def started (σ : Storage) : Adoptions :=
  { storage := σ, manager := .init [Federation.samplePartner] Federation.one_distinct }

def stepPlain : Adoptions → Turn → Option (Adoptions × Option (Except Raised Json)) :=
  Adoptions.step plainService plainTexts Federation.sampleBuiltins sampleReaders (some fun _ => true)


/-- Metadata of another node makes a call fail. -/
theorem adoption_untruthful : ¬ ∀ (cfg : ServiceConfig) (t : Texts) (b : Federation.Builtins) (r : Readers)
    (allowAdopt : Option (String → Bool)) (disk : Option GraphData), (∀ data, disk = some data → data.Valid cfg.storage) →
      ∀ past σ, Run (Storage.step cfg.storage) (fun _ _ _ => True) { saved := disk } past σ →
        ∀ (graphs : List Federation.FederationGraphConfig)
          (distinct : (graphs.map Federation.FederationGraphConfig.graphId).Nodup) (ledger : List (String × String)),
          (∀ entry ∈ ledger, ∃ node, σ.stored entry.1 = some node ∧ namesSource entry.2 node = true) →
            ∀ history s, Run (Adoptions.step cfg t b r allowAdopt) (fun _ _ _ => True)
              { storage := σ, manager := .init graphs distinct, ledger } history s →
                ∀ moment decision request, FreshIds moment request s.storage →
                  Truthful cfg t allowAdopt s moment decision request := by
  intro promised
  have observed : ((leadsTo (Storage.step sampleConfig) {} [.newNode mislabelledActor, .addNodes [0] [] none]).bind
      fun σ => (leadsTo stepPlain (started σ) [.sync partnerSync]).map fun s => (σ, s)).map (fun reached =>
        let called := reached.2.call plainService plainTexts (some fun _ => true) plainMoment {} adoptFirst
        (called.2.toBool, reached.2.storage.nodes.keys, reached.2.storage.edges.keys,
          ((adoptable (under plainTexts {} plainMoment) (reached.2.federation (some fun _ => true)) adoptFirst).toOption.bind
            fun source => adoptedNode (plainMoment.fresh 0) none source).isSome)) = some (false, ["a"], [], true) := by
    decide +kernel
  obtain ⟨⟨σ, s⟩, reached, seen⟩ := Option.map_eq_some_iff.mp observed
  obtain ⟨other, stored, rest⟩ := Option.bind_eq_some_iff.mp reached
  obtain ⟨_, synced, same⟩ := Option.map_eq_some_iff.mp rest
  cases same
  obtain ⟨past, storing⟩ := Run.of_leadsTo stored
  obtain ⟨history, run⟩ := Run.of_leadsTo synced
  have failing : (s.call plainService plainTexts (some fun _ => true) plainMoment {} adoptFirst).2.toBool = false :=
    congrArg Prod.fst seen
  have nodes : s.storage.nodes.keys = ["a"] := congrArg (fun told => told.2.1) seen
  have edges : s.storage.edges.keys = [] := congrArg (fun told => told.2.2.1) seen
  have short : ((adoptable (under plainTexts {} plainMoment) (s.federation (some fun _ => true)) adoptFirst).toOption.bind
      fun source => adoptedNode (plainMoment.fresh 0) none source).isSome = true := congrArg (fun told => told.2.2.2) seen
  have fresh : FreshIds plainMoment adoptFirst s.storage := by
    refine ⟨?_, by decide, ?_⟩
    · rw [nodes]
      decide
    · rw [edges]
      exact List.not_mem_nil
  have truthful := promised plainService plainTexts Federation.sampleBuiltins sampleReaders (some fun _ => true) none
    (fun _ no => (by cases no)) past σ storing _ _ [] (fun _ none => absurd none List.not_mem_nil) history s run
    plainMoment {} adoptFirst fresh
  have failed := truthful.failed
  generalize (s.call plainService plainTexts (some fun _ => true) plainMoment {} adoptFirst).2 = answer at failing failed
  cases answer with
  | ok => cases failing
  | error raised =>
    have refusal := failed rfl
    cases refusal with
    | tooLong allowed long =>
      rw [allowed] at short
      have built : (adoptedNode (plainMoment.fresh 0) none _).isSome = true := short
      rw [show adoptedNode (plainMoment.fresh 0) none _ = none from long] at built
      cases built

/-- The moment of a second call. -/
def laterMoment : Moment := { plainMoment with fresh := fun _ => ⟨"later", epoch⟩ }

/-- The second of two calls returns what the first one added. -/
theorem adoption_truthful_sample : ∃ history s,
    Run stepPlain (fun _ _ _ => True) (started {}) history s ∧
      toldAdopted (s.call plainService plainTexts (some fun _ => true) laterMoment {} adoptFirst).2 = true ∧
        Truthful plainService plainTexts (some fun _ => true) s laterMoment {} adoptFirst := by
  have observed : (leadsTo stepPlain (started {}) [.sync partnerSync, .adopt plainMoment {} adoptFirst]).map (fun s =>
      (toldAdopted (s.call plainService plainTexts (some fun _ => true) laterMoment {} adoptFirst).2,
        decide ("later" ∉ s.storage.nodes.keys ∧ "later" ∉ s.storage.edges.keys),
        (s.storage.nodes.values.map s.storage.node).all fun node => !endsSearch adoptFirst.federatedNodeId node ||
          (node.id = "fresh0" && namesSource adoptFirst.federatedNodeId node && isNodeVisible plainTexts {} node), s.ledger)) =
      some (true, true, true, [("fresh0", "federated::partner::n1")]) := by
    decide +kernel
  obtain ⟨s, taken, seen⟩ := Option.map_eq_some_iff.mp observed
  obtain ⟨history, run⟩ := Run.of_leadsTo taken
  have told := congrArg Prod.fst seen
  have fresh : "later" ∉ s.storage.nodes.keys ∧ "later" ∉ s.storage.edges.keys :=
    of_decide_eq_true (congrArg (fun told => told.2.1) seen)
  have found := congrArg (fun told => told.2.2.1) seen
  have ledger : s.ledger = [("fresh0", "federated::partner::n1")] := congrArg (fun told => told.2.2.2) seen
  have readable : ∀ data, (none : Option GraphData) = some data → data.Valid plainService.storage := fun _ no => by
    cases no
  have nothing : ∀ entry ∈ ([] : List (String × String)), ∃ node, Storage.stored {} entry.1 = some node ∧
      namesSource entry.2 node = true := fun _ none => absurd none List.not_mem_nil
  refine ⟨history, s, run, told, adoption_truthful plainService plainTexts Federation.sampleBuiltins sampleReaders
    (some fun _ => true) readable .start Federation.one_distinct nothing run ⟨fresh.1, by decide, fresh.2⟩
    fun _ node ends => ?_⟩
  have here := List.all_eq_true.mp found node (List.mem_of_find?_eq_some ends)
  rw [List.find?_some ends, Bool.not_true, Bool.false_or, Bool.and_eq_true, Bool.and_eq_true, decide_eq_true_eq] at here
  obtain ⟨⟨named, names⟩, visible⟩ := here
  rw [named, ledger]
  exact ⟨names, .head _, visible⟩

end MetadataGraph.Service
