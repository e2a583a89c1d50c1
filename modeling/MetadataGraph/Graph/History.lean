import MetadataGraph.Lib.Journal
import MetadataGraph.Graph.Outcomes

namespace MetadataGraph.Graph

open ObjectHeap Runs

inductive EventType where
  | nodeCreate | nodeUpdate | nodeDelete | edgeCreate | edgeUpdate | edgeDelete
  deriving DecidableEq

inductive EntityKind where
  | node | edge
  deriving DecidableEq

/-- A mutation event as the history keeps it. Its id, time and origin are left out. -/
structure HistoryRecord where
  eventType : EventType
  entityKind : EntityKind
  entityId : String
  entityType : String
  before : Option (Dict Json) := none
  after : Option (Dict Json) := none
  patch : Option (Dict Json) := none

/-- The fields that an update changed. -/
def patchData (before after : Dict Json) : Dict Json := after.filter fun key value => before[key]? ≠ some value

/-- `emit_event`. Only updates of nodes carry a patch. -/
def emitEvent (eventType : EventType) (entityKind : EntityKind) (entityId entityType : String)
    (before after : Option (Dict Json)) : HistoryRecord :=
  let patch := match eventType, before, after with
    | .nodeUpdate, some before, some after =>
      if before.isEmpty || after.isEmpty then none else some (patchData before after)
    | _, _, _ => none
  { eventType, entityKind, entityId, entityType, before, after, patch }

def nodeCreated (id : String) (node : Node) : HistoryRecord :=
  emitEvent .nodeCreate .node id node.typeStr none (some node.toDict)

def nodeUpdated (id : String) (before after : Node) : HistoryRecord :=
  emitEvent .nodeUpdate .node id after.typeStr (some before.toDict) (some after.toDict)

def nodeDeleted (id : String) (node : Node) : HistoryRecord :=
  emitEvent .nodeDelete .node id node.typeStr (some node.toDict) none

def edgeCreated (id : String) (edge : Edge) : HistoryRecord :=
  emitEvent .edgeCreate .edge id edge.type.1 none (some edge.toDict)

def edgeUpdated (id : String) (before after : Edge) : HistoryRecord :=
  emitEvent .edgeUpdate .edge id after.type.1 (some before.toDict) (some after.toDict)

def edgeDeleted (id : String) (edge : Edge) : HistoryRecord :=
  emitEvent .edgeDelete .edge id edge.type.1 (some edge.toDict) none

namespace Storage

/-- A record for each of the nodes under some ids that the storage has. -/
def eachNode (record : String → Node → HistoryRecord) (ids : List String) (σ : Storage) : List HistoryRecord :=
  ids.filterMap fun id => (σ.nodes.get? id).map fun ref => record id (σ.node ref)

/-- A record for each of the edges under some ids that the storage has. -/
def eachEdge (record : String → Edge → HistoryRecord) (ids : List String) (σ : Storage) : List HistoryRecord :=
  ids.filterMap fun id => (σ.edges.get? id).map fun ref => record id (σ.edge ref)

/-- What the loop of `set_nodes_archived` emits. -/
def archivedNodes (archived : Bool) : List (String × Datetime) → Storage → List HistoryRecord
  | [], _ => []
  | (id, now) :: rest, σ => match σ.nodes.get? id with
    | none => archivedNodes archived rest σ
    | some ref =>
      if (σ.node ref).archived = archived then archivedNodes archived rest σ
      else
        let before := σ.node ref
        let σ := σ.setNode ref { before with archived, updatedAt := now }
        match σ.graph.setData id ref with
        | none => []
        | some graph => nodeUpdated id before (σ.node ref) :: archivedNodes archived rest { σ with graph }

/-- What the loop of `set_edges_archived` emits. -/
def archivedEdges (archived : Bool) : List String → Storage → List HistoryRecord
  | [], _ => []
  | id :: rest, σ => match σ.edges.get? id with
    | none => archivedEdges archived rest σ
    | some ref =>
      if (σ.edge ref).archived = archived then archivedEdges archived rest σ
      else
        let before := σ.edge ref
        let σ := σ.setEdge ref { before with archived }
        edgeUpdated id before (σ.edge ref) :: archivedEdges archived rest σ

/-- The records of a call, by the storage before and after it and by what it returned. What a
deletion captures of an entity before the entity goes is as it was before the call. -/
def emitted (σ τ : Storage) : Action → Reply → List HistoryRecord
  | .addNodes _ _ _, .added result =>
    τ.eachNode nodeCreated result.addedNodeIds ++ τ.eachEdge edgeCreated result.addedEdgeIds
  | .updateNode id _, .updated (.ok (some ref)) => [nodeUpdated id (σ.node ref) (τ.node ref)]
  | .setNodesArchived nodes archived, .archived _ => σ.archivedNodes archived nodes
  | .deleteNodes _ _, .nodesDeleted result =>
    σ.eachEdge edgeDeleted result.affectedEdgeIds ++ σ.eachNode nodeDeleted result.deletedNodeIds
  | .updateEdge id _, .updated (.ok (some ref)) => [edgeUpdated id (σ.edge ref) (τ.edge ref)]
  | .setEdgesArchived ids archived, .archived _ => σ.archivedEdges archived ids
  | .deleteEdge id, .edgeDeleted true => σ.eachEdge edgeDeleted [id]
  | .deleteEdges _, .edgesDeleted result => σ.eachEdge edgeDeleted result.deletedEdgeIds
  | .addEdge ref, .edgeAdded (.ok (some id)) => [edgeCreated id (τ.edge ref)]
  | _, _ => []

/-- A step of the storage with the records that it emits. -/
def stepRecorded (cfg : StorageConfig) (σ : Storage) (action : Action) :
    Option (Storage × Reply × List HistoryRecord) :=
  (σ.step cfg action).map fun done => (done.1, done.2, σ.emitted done.1 action done.2)

end Storage

/-- A mutation of the graph, as against the making of an object, a write of the worker, or a load. -/
def Action.isMutation : Action → Bool
  | .newNode _ | .newEdge _ | .saveDone _ | .load _ _ => false
  | _ => true

/-- The call reports a failure or raises. -/
def Reply.Failed : Reply → Prop
  | .added result => result.success = false
  | .updated (.ok (some _)) => False
  | .updated _ => True
  | .archived (.error _) => True
  | .nodesDeleted result => result.success = false
  | .edgeDeleted deleted => deleted = false
  | .edgesDeleted result => result.success = false
  | .edgeAdded (.ok (some _)) => False
  | .edgeAdded _ => True
  | _ => False

end MetadataGraph.Graph
