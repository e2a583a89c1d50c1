import MetadataGraph.Graph.History

namespace MetadataGraph.Events

open MetadataGraph.Graph

/-- The value that stands for an event type in texts. -/
def eventTypeValue : EventType → String
  | .nodeCreate => "node.create"
  | .nodeUpdate => "node.update"
  | .nodeDelete => "node.delete"
  | .edgeCreate => "edge.create"
  | .edgeUpdate => "edge.update"
  | .edgeDelete => "edge.delete"

def entityKindValue : EntityKind → String
  | .node => "node"
  | .edge => "edge"

def Json.ofText : Option String → Json
  | none => .null
  | some text => .str text

/-- Where a mutation comes from; the attribution is the dict that it becomes. -/
structure EventContext where
  eventOrigin : Option String := none
  eventSessionId : Option String := none
  eventCorrelationId : Option String := none
  attribution : Option Json := none

def EventContext.toDict (origin : EventContext) : Json := .obj [
  ("event_origin", Json.ofText origin.eventOrigin), ("event_session_id", Json.ofText origin.eventSessionId),
  ("event_correlation_id", Json.ofText origin.eventCorrelationId), ("attribution", origin.attribution.getD .null)]

/-- The state of an entity that an event carries. An event has the dict of the node or the edge. -/
inductive EntityState where
  | node (state : Node)
  | edge (state : Edge)

def EntityState.toDict : EntityState → Dict Json
  | .node state => state.toDict
  | .edge state => state.toDict

def EntityState.metadata : EntityState → Dict Json
  | .node state => state.metadata
  | .edge state => state.metadata

structure EntityData where
  kind : EntityKind
  id : String
  type : String
  before : Option EntityState := none
  after : Option EntityState := none
  patch : Option (Dict Json) := none

structure SubscriptionInfo where
  id : String
  name : String
  deriving DecidableEq

/-- A mutation event; `occurredAt` is its time as `isoformat` writes it. -/
structure Event where
  eventId : String
  schemaVersion : String := "1.0"
  eventType : EventType
  occurredAt : String
  origin : EventContext := {}
  entity : EntityData
  subscription : Option SubscriptionInfo := none

def Json.ofState : Option (Dict Json) → Json
  | none => .null
  | some state => .obj state.toList

def Event.toWebhookPayload (event : Event) : Json := .obj [
  ("event_id", .str event.eventId), ("schema_version", .str event.schemaVersion),
  ("event_type", .str (eventTypeValue event.eventType)),
  ("occurred_at", .str (event.occurredAt.replace "+00:00" "Z")), ("origin", event.origin.toDict),
  ("entity", .obj [("kind", .str (entityKindValue event.entity.kind)), ("id", .str event.entity.id),
    ("type", .str event.entity.type), ("data", .obj [
      ("before", Json.ofState (event.entity.before.map EntityState.toDict)),
      ("after", Json.ofState (event.entity.after.map EntityState.toDict)), ("patch", Json.ofState event.entity.patch)])]),
  ("subscription", match event.subscription with
    | none => .null
    | some subscription => .obj [("id", .str subscription.id), ("name", .str subscription.name)])]

end MetadataGraph.Events
