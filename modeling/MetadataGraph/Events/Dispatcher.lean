import MetadataGraph.Lib.Runs
import MetadataGraph.Events.Models
import Mathlib.Data.List.Infix

namespace MetadataGraph.Events

open MetadataGraph.Graph Runs

structure TargetFilters where
  entityKind : EntityKind := .node
  nodeTypes : List String := []
  relationshipTypes : List String := []

structure FederationFilters where
  scope : String := "local_only"
  includeGraphIds : List String := []
  maxDistance : Option Int := none

structure SubscriptionFilters where
  target : TargetFilters := {}
  operations : List String := ["create", "update", "delete"]
  keywords : List String := []
  federation : FederationFilters := {}

structure SubscriptionDelivery where
  webhookUrl : String
  ignoreOrigins : List String := []
  ignoreSessionIds : List String := []

structure Subscription where
  id : String
  name : String
  filters : SubscriptionFilters
  delivery : SubscriptionDelivery

/-- What the dispatcher uses of `str`, `int` and `pydantic`: the lower case of a text, `int`, which may
raise, and how an integer field is coerced. -/
structure Conversions where
  lower : String → String
  toInt : Json → Option Int
  coerceInt : Json → Option Int

/-- `value.get(key, default)`, which raises where the value is no dict. -/
def Json.getOr (value : Json) (key : String) (default : Json) : Option Json :=
  match value with
  | .obj entries => some (((entries.find? (·.1 = key)).map Prod.snd).getD default)
  | _ => none

/-- `EntityKind(value)`. -/
def parseEntityKind : Json → Option EntityKind
  | .str "node" => some .node
  | .str "edge" => some .edge
  | _ => none

/-- A field of strings. -/
def Json.stringsOr (value : Json) (key : String) (default : List String) : Option (List String) := do
  (← Json.getOr value key (.ofStrings default)).strings?

def parseMaxDistance (conversions : Conversions) : Json → Option (Option Int)
  | .null => some none
  | value => (conversions.coerceInt value).map some

/-- `_parse_filters`, with no filters where it raises. -/
def parseFilters (conversions : Conversions) (data : Json) : Option SubscriptionFilters := do
  let target ← Json.getOr data "target" (.obj [])
  let entityKind ← parseEntityKind (← Json.getOr target "entity_kind" (.str "node"))
  let nodeTypes ← Json.stringsOr target "node_types" []
  let relationshipTypes ← Json.stringsOr target "relationship_types" []
  let keywords ← Json.stringsOr (← Json.getOr data "keywords" (.obj [])) "any" []
  let federation ← Json.getOr data "federation" (.obj [])
  let scope ← (← Json.getOr federation "scope" (.str "local_only")).string?
  let includeGraphIds ← Json.stringsOr federation "include_graph_ids" []
  let maxDistance ← parseMaxDistance conversions (← Json.getOr federation "max_distance" .null)
  let operations ← Json.stringsOr data "operations" ["create", "update", "delete"]
  return { target := { entityKind, nodeTypes, relationshipTypes }, operations, keywords
           federation := { scope, includeGraphIds, maxDistance } }

/-- `_parse_delivery`, with no delivery where it raises. -/
def parseDelivery (data : Json) : Option SubscriptionDelivery := do
  let webhookUrl ← (← Json.getOr data "webhook_url" .null).string?
  let ignoreOrigins ← Json.stringsOr data "ignore_origins" []
  let ignoreSessionIds ← Json.stringsOr data "ignore_session_ids" []
  return { webhookUrl, ignoreOrigins, ignoreSessionIds }

/-- What the loop of `_load_subscriptions` makes of a node. -/
inductive Parsed where
  | raises
  | skipped
  | subscription (subscription : Subscription)

def parseSubscription (conversions : Conversions) (node : Node) : Parsed :=
  if node.typeStr = "EventSubscription" then
    match parseFilters conversions (node.metadata["filters"]?.getD (.obj [])) with
    | none => .raises
    | some filters =>
      let data := node.metadata["delivery"]?.getD (.obj [])
      match Json.getOr data "webhook_url" .null with
      | none => .raises
      | some url =>
        if url.truthy then match parseDelivery data with
          | none => .raises
          | some delivery => .subscription { id := node.id, name := node.name, filters, delivery }
        else .skipped
  else .skipped

/-- The loop of `_load_subscriptions`, with no subscriptions where it raises. -/
def loadSubscriptions (conversions : Conversions) : List Node → Option (List Subscription)
  | [] => some []
  | node :: nodes => match parseSubscription conversions node with
    | .raises => none
    | .skipped => loadSubscriptions conversions nodes
    | .subscription subscription => (loadSubscriptions conversions nodes).map (subscription :: ·)

/-- The part of an event type after the dot. -/
def operation : EventType → String
  | .nodeCreate | .edgeCreate => "create"
  | .nodeUpdate | .edgeUpdate => "update"
  | .nodeDelete | .edgeDelete => "delete"

/-- The state that the filters look at. -/
def EntityData.state (entity : EntityData) : Option EntityState := entity.after.or entity.before

/-- The texts that keywords are looked for in. An edge has none of these fields. -/
def EntityState.searchableParts : EntityState → List String
  | .node state => [state.name, state.description, state.summary].filter (· ≠ "") ++ state.tags
  | .edge _ => []

/-- `_matches_keywords`. -/
def matchesKeywords (conversions : Conversions) (event : Event) (keywords : List String) : Bool :=
  match event.entity.state with
  | none => false
  | some state =>
    let searchableText := conversions.lower (" ".intercalate state.searchableParts)
    keywords.any fun keyword => (conversions.lower keyword).toList <:+: searchableText.toList

/-- `_matches_federation`. -/
def matchesFederation (conversions : Conversions) (event : Event) (federation : FederationFilters) : Bool :=
  let metadata := (event.entity.state.map EntityState.metadata).getD {}
  let originGraphId := metadata.get "origin_graph_id"
  let federationDistance := metadata.get "federation_distance"
  let isFederated : Bool := originGraphId ≠ .null && federationDistance ≠ .null
  if federation.scope = "local_only" then !isFederated
  else if federation.scope = "local_and_federated" then
    if federation.includeGraphIds ≠ [] && isFederated && !originGraphId.isIdIn federation.includeGraphIds then false
    else match federation.maxDistance with
      | none => true
      | some maxDistance =>
        if isFederated then match conversions.toInt federationDistance with
          | none => false
          | some distance => distance ≤ maxDistance
        else true
  else false

/-- `_matches`. -/
def eventMatches (conversions : Conversions) (event : Event) (filters : SubscriptionFilters) : Bool :=
  event.entity.kind = filters.target.entityKind &&
    operation event.eventType ∈ filters.operations &&
    (event.entity.kind ≠ .node || filters.target.nodeTypes = [] || event.entity.type ∈ filters.target.nodeTypes) &&
    (event.entity.kind ≠ .edge || filters.target.relationshipTypes = [] ||
      event.entity.type ∈ filters.target.relationshipTypes) &&
    (filters.keywords = [] || matchesKeywords conversions event filters.keywords) &&
    matchesFederation conversions event filters.federation

/-- `_should_block`. -/
def shouldBlock (event : Event) (delivery : SubscriptionDelivery) : Bool :=
  let ignores (value : Option String) (ignored : List String) : Bool :=
    match value with
    | none => false
    | some text => text ≠ "" && text ∈ ignored
  ignores event.origin.eventOrigin delivery.ignoreOrigins ||
    ignores event.origin.eventSessionId delivery.ignoreSessionIds

/-- The callbacks that events are handed to: the agent's says whether it handled the event, or raises, and
the webhook's returns or raises. -/
structure Callbacks where
  onAgentDeliver : Option (Event → String → Option Bool) := none
  onDeliver : Event → String → Bool

/-- Where an event went for a subscription. An internal URL is an agent's, and never a webhook. -/
inductive Route where
  | agent
  | webhook (url : String) (accepted : Bool)
  | unhandled

structure Offer where
  event : Event
  subscriptionId : String
  route : Route

/-- The copy of an event for a subscription. -/
def Event.copyFor (event : Event) (subscription : Subscription) : Event :=
  { event with subscription := some { id := subscription.id, name := subscription.name } }

def Callbacks.offer (callbacks : Callbacks) (event : Event) (subscription : Subscription) : Offer :=
  let copy := event.copyFor subscription
  let handledByAgent := match callbacks.onAgentDeliver with
    | none => false
    | some deliver => (deliver copy subscription.id).getD false
  let url := subscription.delivery.webhookUrl
  { event := copy
    subscriptionId := subscription.id
    route :=
      if handledByAgent then .agent
      else if url.startsWith "internal://" then .unhandled
      else .webhook url (callbacks.onDeliver copy url) }

/-- The loop of `dispatch`. -/
def dispatchTo (conversions : Conversions) (callbacks : Callbacks) (event : Event) : List Subscription → List Offer
  | [] => []
  | subscription :: rest =>
    if eventMatches conversions event subscription.filters then
      if shouldBlock event subscription.delivery then dispatchTo conversions callbacks event rest
      else callbacks.offer event subscription :: dispatchTo conversions callbacks event rest
    else dispatchTo conversions callbacks event rest

/-- The cache of subscriptions. The code does not keep the nodes that it was read from. -/
structure Cache where
  subscriptions : List Subscription
  time : ℚ
  loaded : List Node

def cacheTtlSeconds : ℚ := 30

/-- The storage's nodes in their order, the clock, and the dispatcher's cache. -/
structure EventSystem where
  nodes : List Node
  now : ℚ
  cache : Option Cache := none

/-- The nodes change, the clock is read anew, the cache is invalidated, or an event is emitted. -/
inductive SystemEvent where
  | change (nodes : List Node)
  | tick (now : ℚ)
  | invalidateCache
  | emit (event : Event) (callbacks : Callbacks)

namespace EventSystem

/-- The cache while it counts. -/
def live (s : EventSystem) : Option Cache := s.cache.filter fun cache => s.now - cache.time < cacheTtlSeconds

/-- `_load_subscriptions`. -/
def subscriptions (conversions : Conversions) (s : EventSystem) : Option (EventSystem × List Subscription) :=
  match s.live with
  | some cache => some (s, cache.subscriptions)
  | none => (loadSubscriptions conversions s.nodes).map fun subscriptions =>
    ({ s with cache := some { subscriptions, time := s.now, loaded := s.nodes } }, subscriptions)

/-- `dispatch`, with no offers where it raises. -/
def dispatch (conversions : Conversions) (callbacks : Callbacks) (event : Event) (s : EventSystem) :
    Option (EventSystem × List Offer) :=
  (s.subscriptions conversions).map fun read => (read.1, dispatchTo conversions callbacks event read.2)

/-- A step, with the offers made. What `dispatch` raises is caught where the event is emitted. -/
def step (conversions : Conversions) (s : EventSystem) : SystemEvent → Option (EventSystem × List Offer)
  | .change nodes => some ({ s with nodes }, [])
  | .tick now => some ({ s with now }, [])
  | .invalidateCache => some ({ s with cache := none }, [])
  | .emit event callbacks => some ((s.dispatch conversions callbacks event).getD (s, []))

/-- The nodes that the subscriptions for the next event are read from: those of the storage, unless the
cache counts. -/
def content (s : EventSystem) : List Node := (s.live.map Cache.loaded).getD s.nodes

end EventSystem

def Parsed.subscription? : Parsed → Option Subscription
  | .subscription found => some found
  | _ => none

/-- The subscription wants the event: its filters match and the loop prevention lets the event pass. -/
def Subscription.wants (conversions : Conversions) (event : Event) (subscription : Subscription) : Bool :=
  eventMatches conversions event subscription.filters && !shouldBlock event subscription.delivery

/-- The subscriptions among some nodes that parse and want an event. -/
def wanted (conversions : Conversions) (event : Event) (nodes : List Node) : List Subscription :=
  (nodes.filterMap fun node => (parseSubscription conversions node).subscription?).filter
    (·.wants conversions event)

/-- No node among these makes the parsing raise. -/
def Parses (conversions : Conversions) (nodes : List Node) : Prop :=
  ∀ node ∈ nodes, parseSubscription conversions node ≠ .raises

/-- The event that is emitted next is offered to each subscription that parses and wants it, once and in
order, and to no other one. -/
def EventSystem.Isolated (conversions : Conversions) (s : EventSystem) (event : Event) (callbacks : Callbacks) : Prop :=
  (s.step conversions (.emit event callbacks)).map Prod.snd =
    some ((wanted conversions event s.content).map (callbacks.offer event))

section

variable {conversions : Conversions} {nodes : List Node} {event : Event} {callbacks : Callbacks}

theorem loadSubscriptions_eq_some {subscriptions : List Subscription} :
    loadSubscriptions conversions nodes = some subscriptions ↔ Parses conversions nodes ∧
      subscriptions = nodes.filterMap fun node => (parseSubscription conversions node).subscription? := by
  induction nodes generalizing subscriptions with
  | nil =>
    constructor
    · intro loaded
      cases loaded
      exact ⟨fun _ no => (nomatch no), rfl⟩
    · rintro ⟨_, rfl⟩
      rfl
  | cons node nodes ih =>
    rw [loadSubscriptions, List.filterMap_cons, Parses, List.forall_mem_cons]
    cases parsed : parseSubscription conversions node with
    | raises =>
      constructor
      · intro loaded
        cases loaded
      · intro parses
        exact absurd rfl parses.1.1
    | skipped =>
      have fine : Parsed.skipped ≠ .raises := fun same => nomatch same
      rw [and_iff_right fine]
      exact ih
    | subscription subscription =>
      have fine : Parsed.subscription subscription ≠ .raises := fun same => nomatch same
      rw [and_iff_right fine, Option.map_eq_some_iff]
      simp only [ih]
      constructor
      · rintro ⟨_, ⟨parses, rfl⟩, rfl⟩
        exact ⟨parses, rfl⟩
      · rintro ⟨parses, rfl⟩
        exact ⟨_, ⟨parses, rfl⟩, rfl⟩

theorem loadSubscriptions_eq_none : loadSubscriptions conversions nodes = none ↔ ¬ Parses conversions nodes := by
  constructor
  · intro raised parses
    rw [loadSubscriptions_eq_some.mpr ⟨parses, rfl⟩] at raised
    cases raised
  · intro malformed
    rw [Option.eq_none_iff_forall_ne_some]
    exact fun _ loaded => malformed (loadSubscriptions_eq_some.mp loaded).1

theorem dispatchTo_eq (subscriptions : List Subscription) : dispatchTo conversions callbacks event subscriptions =
    (subscriptions.filter (·.wants conversions event)).map (callbacks.offer event) := by
  induction subscriptions with
  | nil => rfl
  | cons subscription rest ih =>
    rw [dispatchTo, List.filter_cons, Subscription.wants]
    cases eventMatches conversions event subscription.filters with
    | false => exact ih
    | true => cases shouldBlock event subscription.delivery with
      | true => exact ih
      | false => exact congrArg (callbacks.offer event subscription :: ·) ih

/-- What the cache holds is what its nodes gave. -/
def EventSystem.Coherent (conversions : Conversions) (s : EventSystem) : Prop :=
  ∀ cache, s.cache = some cache → loadSubscriptions conversions cache.loaded = some cache.subscriptions

/-- One read of the subscriptions gives those of the content, and it raises where one of its nodes does. -/
theorem EventSystem.Coherent.subscriptions {s : EventSystem} (coherent : s.Coherent conversions) :
    (s.subscriptions conversions).map Prod.snd = loadSubscriptions conversions s.content := by
  rw [EventSystem.subscriptions, EventSystem.content]
  cases live : s.live with
  | none =>
    rw [Option.map_map]
    exact Option.map_id'
  | some cache => exact (coherent cache (Option.filter_eq_some_iff.mp live).1).symm

theorem EventSystem.Coherent.read {s s' : EventSystem} {subscriptions : List Subscription}
    (coherent : s.Coherent conversions) (read : s.subscriptions conversions = some (s', subscriptions)) :
    s'.Coherent conversions := by
  rw [EventSystem.subscriptions] at read
  split at read
  · cases read
    exact coherent
  · obtain ⟨subscriptions, loaded, same⟩ := Option.map_eq_some_iff.mp read
    cases same
    intro cache cached
    cases cached
    exact loaded

theorem EventSystem.Coherent.step {s s' : EventSystem} {label : SystemEvent} {offers : List Offer}
    (coherent : s.Coherent conversions) (stepped : s.step conversions label = some (s', offers)) :
    s'.Coherent conversions := by
  cases label with
  | change nodes =>
    cases stepped
    exact coherent
  | tick now =>
    cases stepped
    exact coherent
  | invalidateCache =>
    cases stepped
    exact fun _ none => nomatch none
  | emit event callbacks =>
    rw [EventSystem.step, EventSystem.dispatch] at stepped
    cases read : s.subscriptions conversions with
    | none =>
      rw [read] at stepped
      cases stepped
      exact coherent
    | some done =>
      rw [read] at stepped
      cases stepped
      exact coherent.read read

/-- The offers of an emitted event are those of the subscriptions that the content gives, if it gives any. -/
theorem EventSystem.Coherent.offers {s : EventSystem} (coherent : s.Coherent conversions) :
    (s.step conversions (.emit event callbacks)).map Prod.snd =
      some (((loadSubscriptions conversions s.content).map (dispatchTo conversions callbacks event)).getD []) := by
  rw [← coherent.subscriptions, EventSystem.step, EventSystem.dispatch]
  cases s.subscriptions conversions with
  | none => rfl
  | some read => rfl

end

section

private def asciiConversions : Conversions where
  lower text := .ofList (text.toList.map Char.toLower)
  toInt := Json.integer?
  coerceInt := Json.integer?

private def hook : Json := .obj [("webhook_url", .str "https://hooks.example/in")]

/-- A subscription node with these filters. -/
private def subscriptionNode (id : String) (filters : Json) : Node where
  id
  typeName := "EventSubscription"
  name := "subscription"
  metadata := .of [("delivery", hook), ("filters", filters)]
  createdAt := epoch
  updatedAt := epoch

private def wellFormed : Node := subscriptionNode "s1" (.obj [])

private def filtersAsText : Node := subscriptionNode "s2" (.str "all")

private def nodeCreatedEvent : Event where
  eventId := "e1"
  eventType := .nodeCreate
  occurredAt := "2026-01-01T00:00:00+00:00"
  entity := { kind := .node, id := "n1", type := "Dataset" }

private def accepting : Callbacks where
  onDeliver := fun _ _ => true

private theorem wellFormed_parses : Parses asciiConversions [wellFormed] := by
  have parsed : (match parseSubscription asciiConversions wellFormed with
    | .raises => false
    | _ => true) = true := by decide +kernel
  intro node only raised
  cases List.mem_singleton.mp only
  rw [raised] at parsed
  cases parsed

end

end MetadataGraph.Events
