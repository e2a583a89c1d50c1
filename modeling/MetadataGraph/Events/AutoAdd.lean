import MetadataGraph.Events.Dispatcher
import MetadataGraph.Lib.OrderedDict
import Mathlib.Tactic.Linarith

namespace MetadataGraph.Events

open MetadataGraph.Graph Runs

def maxRulesPerSession : ℕ := 20
def maxSessionsWithRules : ℕ := 5000
def maxPatternEntries : ℕ := 50
def maxEntryLength : ℕ := 200

structure AutoAddRule where
  agentId : String
  sessionId : String
  nodeTypes : List String := []
  keywords : List String := []
  deriving DecidableEq

/-- `_normalize_pattern` over a list of texts. -/
def normalizePattern (strip : String → String) (values : List String) : List String :=
  ((values.map fun raw => String.ofList ((strip raw).toList.take maxEntryLength)).filter (· ≠ "")).eraseDups.take
    maxPatternEntries

/-- `_searchable_text` of the state that an event carries, or of no state. -/
def searchableText (lower : String → String) (nodeData : Option EntityState) : String :=
  lower (" ".intercalate ((nodeData.map EntityState.searchableParts).getD []))

/-- `node_matches`. -/
def nodeMatches (lower : String → String) (nodeType : String) (nodeData : Option EntityState)
    (nodeTypes keywords : List String) : Bool :=
  (nodeTypes = [] || nodeType ∈ nodeTypes) &&
    (keywords = [] || keywords.any fun keyword => (lower keyword).toList <:+: (searchableText lower nodeData).toList)

def AutoAddRule.matches (lower : String → String) (rule : AutoAddRule) (nodeType : String)
    (nodeData : Option EntityState) : Bool :=
  nodeMatches lower nodeType nodeData rule.nodeTypes rule.keywords

/-- The filters of a subscription to the creation of the same nodes, wherever they come from. -/
def AutoAddRule.filters (rule : AutoAddRule) : SubscriptionFilters where
  target := { entityKind := .node, nodeTypes := rule.nodeTypes }
  operations := ["create"]
  keywords := rule.keywords
  federation := { scope := "local_and_federated" }

/-- The rules of each session, under the ids of their agents. -/
abbrev SessionAutoAddRegistry := OrderedDict String (OrderedDict String AutoAddRule)

namespace SessionAutoAddRegistry

variable (registry : SessionAutoAddRegistry)

def rule? (sessionId agentId : String) : Option AutoAddRule := (registry.get? sessionId).bind (·.get? agentId)

/-- The session, or a new one, takes no further rule. -/
def atCapacity (sessionId : String) : Bool :=
  match registry.get? sessionId with
  | none => maxSessionsWithRules ≤ registry.entries.length
  | some rules => maxRulesPerSession ≤ rules.entries.length

/-- `add_rule`, with the code of the error that it raises. The id of the agent is drawn at random. -/
def addRule (strip : String → String) (sessionId : String) (nodeTypes keywords : List String) (agentId : String) :
    Except String SessionAutoAddRegistry :=
  let cleanTypes := normalizePattern strip nodeTypes
  let cleanKeywords := normalizePattern strip keywords
  if cleanTypes = [] ∧ cleanKeywords = [] then .error "empty_pattern"
  else if registry.atCapacity sessionId then .error "capacity_reached"
  else
    let rule : AutoAddRule := { agentId, sessionId, nodeTypes := cleanTypes, keywords := cleanKeywords }
    .ok (registry.set sessionId (((registry.get? sessionId).getD {}).set agentId rule))

/-- `remove_rule`, and whether the agent existed. -/
def removeRule (sessionId agentId : String) : SessionAutoAddRegistry × Bool :=
  match registry.get? sessionId with
  | none => (registry, false)
  | some rules =>
    if agentId ∈ rules.keys then
      let rest := rules.erase agentId
      (if rest.entries = [] then registry.erase sessionId else registry.set sessionId rest, true)
    else (registry, false)

/-- `matching_sessions`. -/
def matchingSessions (lower : String → String) (nodeType : String) (nodeData : Option EntityState) : List String :=
  (registry.entries.filter fun entry => entry.2.values.any fun rule => rule.matches lower nodeType nodeData).map Prod.fst

/-- `prune_to_sessions`. -/
def pruneToSessions (live : List String) : SessionAutoAddRegistry := registry.filterKeys (· ∈ live)

end SessionAutoAddRegistry

/-- A browser's open connection to the older stream of a session: since when it waits for a command, and
whether its wait has ended before. -/
structure LegacyStream where
  session : String
  since : ℚ
  woken : Bool := false
  deriving DecidableEq

def sessionTtl : ℚ := 3600
def streamTimeout : ℚ := 25

/-- The rules, the session registry with the time at which each session was last seen, the browsers'
connections to the older and to the newer stream, and the clock. -/
structure AutoAdd where
  rules : SessionAutoAddRegistry := {}
  sessions : OrderedDict String ℚ := {}
  streams : List LegacyStream := []
  shared : List String := []
  now : ℚ := 0

/-- What happens to the registries. A stream wakes with a command or at its time-out. -/
inductive AutoAddLabel where
  | advance (now : ℚ)
  | addRule (sessionId : String) (nodeTypes keywords : List String) (agentId : String)
  | removeRule (sessionId agentId : String)
  | connect (sessionId : String)
  | wake (index : ℕ)
  | disconnect (index : ℕ)
  | join (sessionId : String)
  | leave (sessionId : String)
  | pushCommand (sessionId : String)
  | mintTriggerToken (sessionId : String)
  | cleanup
  | emit (event : Event)

namespace AutoAdd

variable (strip lower : String → String) (s : AutoAdd)

/-- `get_or_create`. -/
def getOrCreate (sessionId : String) : AutoAdd :=
  if sessionId ∈ s.sessions.keys then s else { s with sessions := s.sessions.set sessionId s.now }

/-- `_touch`, and the last act of `push_command_sync`. -/
def touch (sessionId : String) : AutoAdd :=
  if sessionId ∈ s.sessions.keys then { s with sessions := s.sessions.set sessionId s.now } else s

/-- The stream takes its next turn: it touches the session, or creates it again. -/
def wake (index : ℕ) (stream : LegacyStream) : AutoAdd :=
  { (s.touch stream.session).getOrCreate stream.session with
    streams := s.streams.set index { stream with since := s.now, woken := true } }

/-- `cleanup_stale`. -/
def cleanupStale : AutoAdd :=
  { s with sessions := { entries := s.sessions.entries.filter fun entry => ¬ entry.2 < s.now - sessionTtl
                         distinct := (List.filter_sublist.map Prod.fst).nodup s.sessions.distinct } }

/-- One turn of `_periodic_cleanup`. -/
def cleanup : AutoAdd :=
  let s := s.cleanupStale
  { s with rules := s.rules.pruneToSessions s.sessions.keys }

/-- The payload of a push: the node without its embedding. -/
def payload (nodeData : Option EntityState) : Dict Json := ((nodeData.map EntityState.toDict).getD {}).erase "embedding"

/-- The listener of `build_node_create_listener`: the pushes that an event makes, each of which touches
its session. -/
def emit (event : Event) : AutoAdd × List (String × Dict Json) :=
  match event.eventType, event.entity.kind with
  | .nodeCreate, .node =>
    let sessions := s.rules.matchingSessions lower event.entity.type event.entity.after
    (sessions.foldl touch s, sessions.map fun sessionId => (sessionId, payload event.entity.after))
  | _, _ => (s, [])

def step (label : AutoAddLabel) : Option (AutoAdd × List (String × Dict Json)) :=
  match label with
  | .advance now => some ({ s with now }, [])
  | .addRule sessionId nodeTypes keywords agentId =>
    match s.rules.addRule strip sessionId nodeTypes keywords agentId with
    | .error _ => some (s, [])
    | .ok rules => some ({ s with rules }.getOrCreate sessionId, [])
  | .removeRule sessionId agentId => some ({ s with rules := (s.rules.removeRule sessionId agentId).1 }, [])
  | .connect sessionId =>
    let s := s.getOrCreate sessionId
    some ({ s with streams := s.streams ++ [{ session := sessionId, since := s.now }] }, [])
  | .wake index => s.streams[index]?.map fun stream => (s.wake index stream, [])
  | .disconnect index => some ({ s with streams := s.streams.eraseIdx index }, [])
  | .join sessionId => some ({ s with shared := sessionId :: s.shared }, [])
  | .leave sessionId => some ({ s with shared := s.shared.erase sessionId }, [])
  | .pushCommand sessionId => some (s.touch sessionId, [])
  | .mintTriggerToken sessionId => some ((s.getOrCreate sessionId).touch sessionId, [])
  | .cleanup => some (s.cleanup, [])
  | .emit event => some (s.emit lower event)

/-- A browser is connected to the session, on either stream. -/
def Connected (sessionId : String) : Prop := (∃ stream ∈ s.streams, stream.session = sessionId) ∨ sessionId ∈ s.shared

/-- Every session that has a rule and a browser has a stream that has woken, or was seen within the time
to live. -/
def Covered : Prop :=
  ∀ sessionId agentId rule, s.rules.rule? sessionId agentId = some rule → s.Connected sessionId →
    (∃ stream ∈ s.streams, stream.session = sessionId ∧ stream.woken = true) ∨
      ∃ seen, s.sessions.get? sessionId = some seen ∧ s.now - sessionTtl ≤ seen

/-- The clock does not go back, no stream sleeps past its time-out, and no agent gets the id of another
of its session. -/
def Timely : AutoAddLabel → Prop
  | .advance now => s.now ≤ now ∧ ∀ stream ∈ s.streams, now ≤ stream.since + streamTimeout
  | .addRule sessionId _ _ agentId => s.rules.rule? sessionId agentId = none
  | _ => True

instance (label : AutoAddLabel) : Decidable (s.Timely label) :=
  match label with
  | .advance now => inferInstanceAs (Decidable (s.now ≤ now ∧ ∀ stream ∈ s.streams, now ≤ stream.since + streamTimeout))
  | .addRule sessionId _ _ agentId => inferInstanceAs (Decidable (s.rules.rule? sessionId agentId = none))
  | .removeRule .. | .connect _ | .wake _ | .disconnect _ | .join _ | .leave _ | .pushCommand _ | .mintTriggerToken _
    | .cleanup | .emit _ => .isTrue trivial

/-- A step does what the rules promise: an event is pushed once to every session with a rule that a
subscription to the creation of the same nodes would match, and to no other, nothing else is pushed, and
a rule goes only when it is removed or when no browser is there. -/
structure Faithful (coerce toInt : Json → Option ℤ) (label : AutoAddLabel) (t : AutoAdd)
    (pushes : List (String × Dict Json)) : Prop where
  pushed : ∀ event, label = .emit event → event.eventType = .nodeCreate → event.entity.kind = .node →
    event.entity.after.isSome →
      (pushes.map Prod.fst).Nodup ∧ (∀ push ∈ pushes, push.2 = payload event.entity.after) ∧
      ∀ sessionId, sessionId ∈ pushes.map Prod.fst ↔ ∃ agentId rule, s.rules.rule? sessionId agentId = some rule ∧
        eventMatches ⟨lower, toInt, coerce⟩ event rule.filters = true
  silent : (∀ event, label = .emit event → event.eventType ≠ .nodeCreate) → pushes = []
  kept : ∀ sessionId agentId rule, s.rules.rule? sessionId agentId = some rule →
    t.rules.rule? sessionId agentId = some rule ∨ label = .removeRule sessionId agentId ∨ ¬ s.Connected sessionId

end AutoAdd

theorem matches_eq_eventMatches {lower : String → String} {coerce toInt : Json → Option ℤ} (rule : AutoAddRule) {event : Event}
    (created : event.eventType = .nodeCreate) (isNode : event.entity.kind = .node) (carried : event.entity.after.isSome) :
    rule.matches lower event.entity.type event.entity.after = eventMatches ⟨lower, toInt, coerce⟩ event rule.filters := by
  obtain ⟨state, after⟩ := Option.isSome_iff_exists.mp carried
  have operation : operation event.eventType = "create" := by rw [created]; rfl
  have current : event.entity.state = some state := by rw [EntityData.state, after]; rfl
  have federated : matchesFederation ⟨lower, toInt, coerce⟩ event rule.filters.federation = true := by
    simp [matchesFederation, AutoAddRule.filters]
  rw [Bool.eq_iff_iff]
  simp only [AutoAddRule.matches, nodeMatches, searchableText, eventMatches, federated, matchesKeywords, isNode, operation,
    current, after, Bool.and_eq_true, Bool.or_eq_true, decide_eq_true_eq, List.any_eq_true, Option.map_some, Option.getD_some]
  simp [AutoAddRule.filters]

namespace SessionAutoAddRegistry

variable {registry : SessionAutoAddRegistry} {strip lower : String → String} {sessionId agentId : String} {rule : AutoAddRule}

theorem rule?_eq_some : registry.rule? sessionId agentId = some rule ↔
    ∃ rules, registry.get? sessionId = some rules ∧ rules.get? agentId = some rule :=
  Option.bind_eq_some_iff

theorem nodup_matchingSessions (nodeType : String) (nodeData : Option EntityState) :
    (registry.matchingSessions lower nodeType nodeData).Nodup :=
  (List.filter_sublist.map Prod.fst).nodup registry.distinct

theorem mem_matchingSessions {nodeType : String} {nodeData : Option EntityState} :
    sessionId ∈ registry.matchingSessions lower nodeType nodeData ↔
      ∃ agentId rule, registry.rule? sessionId agentId = some rule ∧ rule.matches lower nodeType nodeData = true := by
  simp only [matchingSessions, List.mem_map, List.mem_filter, List.any_eq_true, rule?_eq_some]
  constructor
  · rintro ⟨⟨_, rules⟩, ⟨listed, rule, valued, holds⟩, rfl⟩
    obtain ⟨⟨agentId, _⟩, held, rfl⟩ := List.mem_map.mp valued
    exact ⟨agentId, _, ⟨rules, OrderedDict.get?_eq_some.mpr listed, OrderedDict.get?_eq_some.mpr held⟩, holds⟩
  · rintro ⟨agentId, rule, ⟨rules, listed, held⟩, holds⟩
    exact ⟨(sessionId, rules), ⟨OrderedDict.get?_eq_some.mp listed, rule,
      List.mem_map.mpr ⟨(agentId, rule), OrderedDict.get?_eq_some.mp held, rfl⟩, holds⟩, rfl⟩

theorem rule?_addRule {nodeTypes keywords : List String} {newId : String} {registry' : SessionAutoAddRegistry}
    {session : String} (added : registry.addRule strip session nodeTypes keywords newId = .ok registry')
    (fresh : registry.rule? session newId = none) (held : registry.rule? sessionId agentId = some rule) :
    registry'.rule? sessionId agentId = some rule := by
  unfold addRule at added
  dsimp only at added
  split at added
  · cases added
  split at added
  · cases added
  cases added
  obtain ⟨rules, listed, here⟩ := rule?_eq_some.mp held
  rw [rule?_eq_some, OrderedDict.get?_set]
  split
  · rename_i same
    subst same
    refine ⟨_, rfl, ?_⟩
    rw [listed, Option.getD_some, OrderedDict.get?_set]
    split
    · rename_i again
      subst again
      rw [fresh] at held
      cases held
    · exact here
  · exact ⟨rules, listed, here⟩

theorem rule?_removeRule {session agent : String} (held : registry.rule? sessionId agentId = some rule)
    (other : ¬ (sessionId = session ∧ agentId = agent)) :
    (registry.removeRule session agent).1.rule? sessionId agentId = some rule := by
  unfold removeRule
  split
  · exact held
  · rename_i rules listed
    split
    · obtain ⟨rules', listed', here⟩ := rule?_eq_some.mp held
      dsimp only
      by_cases same : sessionId = session
      · subst same
        obtain rfl : rules = rules' := Option.some.inj (listed.symm.trans listed')
        have stays : (rules.erase agent).get? agentId = some rule := by
          rw [OrderedDict.get?_erase, if_neg fun again => other ⟨rfl, again⟩]
          exact here
        rw [if_neg, rule?_eq_some]
        · exact ⟨_, by rw [OrderedDict.get?_set, if_pos rfl], stays⟩
        · intro empty
          rw [OrderedDict.get?, empty] at stays
          cases stays
      · rw [rule?_eq_some]
        refine ⟨rules', ?_, here⟩
        split
        · rw [OrderedDict.get?_erase, if_neg same]
          exact listed'
        · rw [OrderedDict.get?_set, if_neg same]
          exact listed'
    · exact held

theorem rule?_pruneToSessions (live : List String) :
    (registry.pruneToSessions live).rule? sessionId agentId =
      if sessionId ∈ live then registry.rule? sessionId agentId else none := by
  rw [rule?, rule?, pruneToSessions, OrderedDict.get?_filterKeys]
  split
  · rename_i kept
    rw [if_pos (by simpa using kept)]
  · rename_i gone
    rw [if_neg (by simpa using gone)]
    rfl

end SessionAutoAddRegistry

namespace AutoAdd

variable {strip lower : String → String} {s t : AutoAdd}

section Touch

variable (s : AutoAdd) (sessionId : String)

@[simp] theorem rules_touch : (s.touch sessionId).rules = s.rules := by rw [touch]; split <;> rfl
@[simp] theorem rules_getOrCreate : (s.getOrCreate sessionId).rules = s.rules := by rw [getOrCreate]; split <;> rfl
@[simp] theorem streams_touch : (s.touch sessionId).streams = s.streams := by rw [touch]; split <;> rfl
@[simp] theorem streams_getOrCreate : (s.getOrCreate sessionId).streams = s.streams := by rw [getOrCreate]; split <;> rfl
@[simp] theorem now_touch : (s.touch sessionId).now = s.now := by rw [touch]; split <;> rfl
@[simp] theorem now_getOrCreate : (s.getOrCreate sessionId).now = s.now := by rw [getOrCreate]; split <;> rfl

end Touch

/-- The streams and the clock stay, and no session was seen later than before, but for now. -/
structure Renews (s t : AutoAdd) : Prop where
  streams : t.streams = s.streams
  now : t.now = s.now
  seen : ∀ sessionId seen, s.sessions.get? sessionId = some seen →
    ∃ seen', t.sessions.get? sessionId = some seen' ∧ (seen' = seen ∨ seen' = s.now)

theorem Renews.refl (s : AutoAdd) : Renews s s := ⟨rfl, rfl, fun _ seen held => ⟨seen, held, .inl rfl⟩⟩

theorem Renews.trans {u : AutoAdd} (first : Renews s t) (second : Renews t u) : Renews s u where
  streams := second.streams.trans first.streams
  now := second.now.trans first.now
  seen sessionId seen held := by
    obtain ⟨seen', held', same⟩ := first.seen sessionId seen held
    obtain ⟨seen'', held'', again⟩ := second.seen sessionId seen' held'
    refine ⟨seen'', held'', ?_⟩
    rcases again with rfl | rfl
    · exact same
    · exact .inr first.now

theorem renews_touch (s : AutoAdd) (sessionId : String) : Renews s (s.touch sessionId) := by
  refine ⟨streams_touch s sessionId, now_touch s sessionId, fun other seen held => ?_⟩
  rw [touch]
  split
  · dsimp only
    rw [OrderedDict.get?_set]
    split
    · exact ⟨s.now, rfl, .inr rfl⟩
    · exact ⟨seen, held, .inl rfl⟩
  · exact ⟨seen, held, .inl rfl⟩

theorem renews_getOrCreate (s : AutoAdd) (sessionId : String) : Renews s (s.getOrCreate sessionId) := by
  refine ⟨streams_getOrCreate s sessionId, now_getOrCreate s sessionId, fun other seen held => ?_⟩
  rw [getOrCreate]
  split
  · exact ⟨seen, held, .inl rfl⟩
  · dsimp only
    rw [OrderedDict.get?_set]
    split
    · exact ⟨s.now, rfl, .inr rfl⟩
    · exact ⟨seen, held, .inl rfl⟩

theorem renews_foldl_touch (sessions : List String) (s : AutoAdd) :
    Renews s (sessions.foldl touch s) ∧ (sessions.foldl touch s).rules = s.rules := by
  induction sessions generalizing s with
  | nil => exact ⟨.refl s, rfl⟩
  | cons sessionId rest ih =>
    obtain ⟨renews, rules⟩ := ih (s.touch sessionId)
    exact ⟨(renews_touch s sessionId).trans renews, rules.trans (rules_touch s sessionId)⟩

/-- The session of a stream that has woken was seen since the stream waits, and no stream waits past its
time-out. -/
structure Awake (s : AutoAdd) : Prop where
  started : ∀ stream ∈ s.streams, stream.since ≤ s.now
  punctual : ∀ stream ∈ s.streams, s.now ≤ stream.since + streamTimeout
  seen : ∀ stream ∈ s.streams, stream.woken = true →
    ∃ seen, s.sessions.get? stream.session = some seen ∧ stream.since ≤ seen

theorem Awake.renews (awake : s.Awake) (renews : Renews s t) : t.Awake where
  started := by
    rw [renews.streams, renews.now]
    exact awake.started
  punctual := by
    rw [renews.streams, renews.now]
    exact awake.punctual
  seen := by
    rw [renews.streams]
    intro stream member woken
    obtain ⟨seen, held, since⟩ := awake.seen stream member woken
    obtain ⟨seen', held', same⟩ := renews.seen _ _ held
    refine ⟨seen', held', ?_⟩
    rcases same with rfl | rfl
    · exact since
    · exact awake.started stream member

/-- A session that was seen in time outlives the cleanup. -/
theorem get?_cleanupStale {sessionId : String} {seen : ℚ} (held : s.sessions.get? sessionId = some seen)
    (recent : s.now - sessionTtl ≤ seen) : s.cleanupStale.sessions.get? sessionId = some seen := by
  rw [cleanupStale, OrderedDict.get?_eq_some]
  exact List.mem_filter.mpr ⟨OrderedDict.get?_eq_some.mp held, by simpa using recent⟩

theorem recent_of_get?_cleanupStale {sessionId : String} {seen : ℚ}
    (held : s.cleanupStale.sessions.get? sessionId = some seen) :
    s.sessions.get? sessionId = some seen ∧ s.now - sessionTtl ≤ seen := by
  rw [cleanupStale, OrderedDict.get?_eq_some] at held
  obtain ⟨listed, recent⟩ := List.mem_filter.mp held
  exact ⟨OrderedDict.get?_eq_some.mpr listed, by simpa using recent⟩

/-- The session of a stream that has woken was seen within the time to live. -/
theorem Awake.recent (awake : s.Awake) {stream : LegacyStream} (member : stream ∈ s.streams) (woken : stream.woken = true) :
    ∃ seen, s.sessions.get? stream.session = some seen ∧ stream.since ≤ seen ∧ s.now - sessionTtl ≤ seen := by
  obtain ⟨seen, held, since⟩ := awake.seen stream member woken
  refine ⟨seen, held, since, ?_⟩
  have late := awake.punctual stream member
  rw [streamTimeout] at late
  rw [sessionTtl]
  linarith

theorem Awake.cleanup (awake : s.Awake) : s.cleanup.Awake where
  started := awake.started
  punctual := awake.punctual
  seen stream member woken := by
    obtain ⟨seen, held, since, recent⟩ := awake.recent member woken
    exact ⟨seen, get?_cleanupStale held recent, since⟩

theorem Awake.wake (awake : s.Awake) {index : ℕ} {stream : LegacyStream} : (s.wake index stream).Awake := by
  set renewed := (s.touch stream.session).getOrCreate stream.session with named
  have renews : Renews s renewed := (renews_touch s _).trans (renews_getOrCreate _ _)
  have here : renewed.sessions.get? stream.session = some s.now := by
    rw [named, getOrCreate]
    by_cases known : stream.session ∈ s.sessions.keys
    · have touched : (s.touch stream.session).sessions = s.sessions.set stream.session s.now := by rw [touch, if_pos known]
      rw [if_pos, touched, OrderedDict.get?_set, if_pos rfl]
      rw [touched, OrderedDict.mem_keys_set]
      exact .inl rfl
    · have touched : s.touch stream.session = s := by rw [touch, if_neg known]
      rw [touched, if_neg known]
      dsimp only
      rw [OrderedDict.get?_set, if_pos rfl]
  have after := awake.renews renews
  have each : ∀ other ∈ s.streams.set index { stream with since := s.now, woken := true },
      other ∈ s.streams ∨ other = { stream with since := s.now, woken := true } := fun other member => List.mem_or_eq_of_mem_set member
  have now : renewed.now = s.now := renews.now
  refine ⟨fun other member => ?_, fun other member => ?_, fun other member woken => ?_⟩
  · change other.since ≤ renewed.now
    rw [now]
    rcases each other member with old | rfl
    · exact awake.started other old
    · exact le_rfl
  · change renewed.now ≤ _
    rw [now]
    rcases each other member with old | rfl
    · exact awake.punctual other old
    · rw [streamTimeout]
      linarith
  · change ∃ seen, renewed.sessions.get? other.session = some seen ∧ _
    rcases each other member with old | rfl
    · exact after.seen other (renews.streams ▸ old) woken
    · exact ⟨s.now, here, le_rfl⟩

theorem Awake.step (awake : s.Awake) {label : AutoAddLabel} {pushes : List (String × Dict Json)} (timely : s.Timely label)
    (stepped : s.step strip lower label = some (t, pushes)) : t.Awake := by
  cases label with
  | advance now =>
    cases stepped
    exact ⟨fun stream member => (awake.started stream member).trans timely.1, timely.2, awake.seen⟩
  | addRule sessionId nodeTypes keywords agentId =>
    simp only [AutoAdd.step] at stepped
    split at stepped
    · cases stepped
      exact awake
    · rename_i rules added
      cases stepped
      have changed : ({ s with rules } : AutoAdd).Awake := ⟨awake.started, awake.punctual, awake.seen⟩
      exact changed.renews (renews_getOrCreate _ _)
  | removeRule sessionId agentId =>
    cases stepped
    exact ⟨awake.started, awake.punctual, awake.seen⟩
  | connect sessionId =>
    cases stepped
    have created := awake.renews (renews_getOrCreate s sessionId)
    have each : ∀ stream ∈ (s.getOrCreate sessionId).streams ++ [{ session := sessionId, since := (s.getOrCreate sessionId).now }],
        stream ∈ (s.getOrCreate sessionId).streams ∨ stream = { session := sessionId, since := (s.getOrCreate sessionId).now } := by
      intro stream member
      rcases List.mem_append.mp member with old | new
      · exact .inl old
      · exact .inr (List.mem_singleton.mp new)
    refine ⟨fun stream member => ?_, fun stream member => ?_, fun stream member woken => ?_⟩
    · rcases each stream member with old | rfl
      · exact created.started stream old
      · exact le_rfl
    · rcases each stream member with old | rfl
      · exact created.punctual stream old
      · rw [streamTimeout]
        dsimp only
        linarith
    · rcases each stream member with old | rfl
      · exact created.seen stream old woken
      · cases woken
  | wake index =>
    obtain ⟨stream, -, same⟩ := Option.map_eq_some_iff.mp stepped
    cases same
    exact awake.wake
  | disconnect index =>
    cases stepped
    have kept : ∀ stream ∈ s.streams.eraseIdx index, stream ∈ s.streams := fun stream => List.mem_of_mem_eraseIdx
    exact ⟨fun stream member => awake.started stream (kept stream member),
      fun stream member => awake.punctual stream (kept stream member),
      fun stream member => awake.seen stream (kept stream member)⟩
  | join sessionId | leave sessionId =>
    cases stepped
    exact ⟨awake.started, awake.punctual, awake.seen⟩
  | pushCommand sessionId =>
    cases stepped
    exact awake.renews (renews_touch s sessionId)
  | mintTriggerToken sessionId =>
    cases stepped
    exact awake.renews ((renews_getOrCreate s sessionId).trans (renews_touch _ sessionId))
  | cleanup =>
    cases stepped
    exact awake.cleanup
  | emit event =>
    simp only [AutoAdd.step, emit, Option.some.injEq] at stepped
    split at stepped
    · cases stepped
      exact awake.renews (renews_foldl_touch _ s).1
    · cases stepped
      exact awake

/-- In every timely run every stream wakes in time. -/
theorem awake_of_run {history : List (AutoAddLabel × List (String × Dict Json))}
    (run : Run (AutoAdd.step strip lower) (fun _ s label => s.Timely label) {} history s) : s.Awake :=
  run.invariant (fun _ s => s.Awake)
    ⟨fun _ member => absurd member List.not_mem_nil, fun _ member => absurd member List.not_mem_nil,
      fun _ member => absurd member List.not_mem_nil⟩
    fun awake timely stepped => awake.step timely stepped

theorem rules_emit (event : Event) : (s.emit lower event).1.rules = s.rules := by
  rw [emit]
  split
  · exact (renews_foldl_touch _ s).2
  · rfl

/-- A session whose browsers are covered is live after the cleanup. -/
theorem Covered.live {sessionId agentId : String} {rule : AutoAddRule} (covered : s.Covered) (awake : s.Awake)
    (held : s.rules.rule? sessionId agentId = some rule) (connected : s.Connected sessionId) :
    sessionId ∈ s.cleanupStale.sessions.keys := by
  have live : ∃ seen, s.sessions.get? sessionId = some seen ∧ s.now - sessionTtl ≤ seen := by
    rcases covered sessionId agentId rule held connected with ⟨stream, member, rfl, woken⟩ | recent
    · obtain ⟨seen, known, -, recent⟩ := awake.recent member woken
      exact ⟨seen, known, recent⟩
    · exact recent
  obtain ⟨seen, known, recent⟩ := live
  exact OrderedDict.mem_keys.mpr ⟨seen, get?_cleanupStale known recent⟩

/-- A step keeps a rule of a session with a browser, but for its removal and for a cleanup where the
session is not covered. -/
theorem rule?_step {label : AutoAddLabel} {pushes : List (String × Dict Json)} {sessionId agentId : String} {rule : AutoAddRule}
    (awake : s.Awake) (timely : s.Timely label) (stepped : s.step strip lower label = some (t, pushes))
    (covered : label = .cleanup → s.Covered) (held : s.rules.rule? sessionId agentId = some rule) :
    t.rules.rule? sessionId agentId = some rule ∨ label = .removeRule sessionId agentId ∨ ¬ s.Connected sessionId := by
  cases label with
  | addRule session nodeTypes keywords newId =>
    left
    simp only [step] at stepped
    split at stepped
    · cases stepped
      exact held
    · rename_i rules added
      cases stepped
      rw [rules_getOrCreate]
      exact SessionAutoAddRegistry.rule?_addRule added timely held
  | removeRule session agent =>
    cases stepped
    by_cases same : sessionId = session ∧ agentId = agent
    · obtain ⟨rfl, rfl⟩ := same
      exact .inr (.inl rfl)
    · exact .inl (SessionAutoAddRegistry.rule?_removeRule held same)
  | cleanup =>
    cases stepped
    by_cases connected : s.Connected sessionId
    · left
      rw [cleanup, SessionAutoAddRegistry.rule?_pruneToSessions, if_pos ((covered rfl).live awake held connected)]
      exact held
    · exact .inr (.inr connected)
  | emit event =>
    left
    obtain ⟨same, -⟩ := Prod.ext_iff.mp (Option.some.inj stepped)
    dsimp only at same
    rw [← same, rules_emit]
    exact held
  | wake index =>
    left
    obtain ⟨stream, -, same⟩ := Option.map_eq_some_iff.mp stepped
    cases same
    simpa [AutoAdd.wake] using held
  | advance now | disconnect index | join session | leave session =>
    cases stepped
    exact .inl held
  | connect session | pushCommand session | mintTriggerToken session =>
    cases stepped
    left
    simpa using held

/-- A step does what the rules promise, unless it is a cleanup and a session with a rule and a browser
is not covered. -/
theorem faithful_iff_covered {coerce toInt : Json → Option ℤ} {history : List (AutoAddLabel × List (String × Dict Json))}
    {label : AutoAddLabel} {pushes : List (String × Dict Json)}
    (run : Run (AutoAdd.step strip lower) (fun _ s label => s.Timely label) {} history s) (timely : s.Timely label)
    (stepped : s.step strip lower label = some (t, pushes)) :
    s.Faithful lower coerce toInt label t pushes ↔ (label = .cleanup → s.Covered) := by
  have awake := awake_of_run run
  constructor
  · rintro faithful rfl sessionId agentId rule held connected
    cases stepped
    rcases faithful.kept sessionId agentId rule held with kept | removed | gone
    · right
      rw [cleanup, SessionAutoAddRegistry.rule?_pruneToSessions] at kept
      split at kept
      · rename_i live
        obtain ⟨seen, known⟩ := OrderedDict.mem_keys.mp live
        exact ⟨seen, recent_of_get?_cleanupStale known⟩
      · cases kept
    · cases removed
    · exact absurd connected gone
  · intro covered
    refine ⟨?_, ?_, fun sessionId agentId rule held => rule?_step awake timely stepped covered held⟩
    · rintro event rfl created isNode carried
      simp only [step, emit, created, isNode, Option.some.injEq, Prod.mk.injEq] at stepped
      obtain ⟨-, rfl⟩ := stepped
      have sessions : ((s.rules.matchingSessions lower event.entity.type event.entity.after).map fun sessionId =>
          (sessionId, payload event.entity.after)).map Prod.fst = s.rules.matchingSessions lower event.entity.type event.entity.after := by
        rw [List.map_map]
        exact List.map_id _
      rw [sessions]
      refine ⟨SessionAutoAddRegistry.nodup_matchingSessions _ _, fun push member => ?_, fun sessionId => ?_⟩
      · obtain ⟨_, -, rfl⟩ := List.mem_map.mp member
        rfl
      · have same := fun rule => @matches_eq_eventMatches lower coerce toInt rule event created isNode carried
        simp only [SessionAutoAddRegistry.mem_matchingSessions, same]
    · intro other
      cases label with
      | emit event =>
        simp only [step, emit, Option.some.injEq] at stepped
        split at stepped
        · rename_i created _
          exact absurd created (other event rfl)
        · cases stepped
          rfl
      | addRule sessionId nodeTypes keywords agentId =>
        simp only [step] at stepped
        split at stepped <;> cases stepped <;> rfl
      | wake index =>
        obtain ⟨_, -, same⟩ := Option.map_eq_some_iff.mp stepped
        cases same
        rfl
      | advance now | removeRule sessionId agentId | connect sessionId | disconnect index | join sessionId | leave sessionId
        | pushCommand sessionId | mintTriggerToken sessionId | cleanup =>
        cases stepped
        rfl

/-- A browser opens the older stream of a session, adds a rule and waits; the cleanup keeps the rule. -/
theorem faithful_iff_covered_sample :
    ∃ (history : List (AutoAddLabel × List (String × Dict Json))) (s t : AutoAdd) (rule : AutoAddRule),
      Run (AutoAdd.step id id) (fun _ s label => s.Timely label) {} history s ∧ s.step id id .cleanup = some (t, []) ∧
      s.Faithful id (fun _ => none) (fun _ => none) .cleanup t [] ∧ s.rules.rule? "a" "r" = some rule ∧
      t.rules.rule? "a" "r" = some rule := by
  have taken : ((trace (AutoAdd.step id id) (fun s label => s.Timely label) [] {}
      [.connect "a", .addRule "a" ["Actor"] [] "r", .advance 20, .wake 0, .advance 40]).map fun ended =>
      (ended.2.rules.rule? "a" "r", ended.2.cleanup.rules.rule? "a" "r", ended.2.streams,
        ended.2.rules.keys)) =
      some (some { agentId := "r", sessionId := "a", nodeTypes := ["Actor"] },
        some { agentId := "r", sessionId := "a", nodeTypes := ["Actor"] },
        [{ session := "a", since := 20, woken := true }], ["a"]) := by decide +kernel
  obtain ⟨⟨history, s⟩, traced, facts⟩ := Option.map_eq_some_iff.mp taken
  simp only [Prod.mk.injEq] at facts
  obtain ⟨before, after, streams, keys⟩ := facts
  have run : Run (AutoAdd.step id id) (fun _ s label => s.Timely label) {} history s :=
    (Run.trace .start traced).mono of_decide_eq_true
  have covered : s.Covered := by
    intro sessionId agentId rule held _
    obtain ⟨rules, listed, -⟩ := SessionAutoAddRegistry.rule?_eq_some.mp held
    have known := OrderedDict.mem_keys.mpr ⟨rules, listed⟩
    rw [keys, List.mem_singleton] at known
    subst known
    exact .inl ⟨{ session := "a", since := 20, woken := true }, by rw [streams]; exact List.mem_singleton_self _, rfl, rfl⟩
  exact ⟨history, s, _, _, run, rfl, (faithful_iff_covered run (show s.Timely .cleanup from trivial) rfl).mpr fun _ => covered, before, after⟩

/-- A browser on the newer stream adds a rule and stays; an hour later the cleanup drops the rule. -/
theorem shared_browser_pruned :
    ∃ (history : List (AutoAddLabel × List (String × Dict Json))) (s t : AutoAdd) (rule : AutoAddRule),
      Run (AutoAdd.step id id) (fun _ s label => s.Timely label) {} history s ∧ s.Timely .cleanup ∧
      s.step id id .cleanup = some (t, []) ∧ s.Connected "a" ∧ s.rules.rule? "a" "r" = some rule ∧ t.rules.rule? "a" "r" = none := by
  have taken : ((trace (AutoAdd.step id id) (fun s label => s.Timely label) [] {}
      [.join "a", .addRule "a" ["Actor"] [] "r", .advance 4000]).map fun ended =>
      (ended.2.rules.rule? "a" "r", ended.2.cleanup.rules.rule? "a" "r", ended.2.shared)) =
      some (some { agentId := "r", sessionId := "a", nodeTypes := ["Actor"] }, none, ["a"]) := by decide +kernel
  obtain ⟨⟨history, s⟩, traced, facts⟩ := Option.map_eq_some_iff.mp taken
  simp only [Prod.mk.injEq] at facts
  obtain ⟨before, after, shared⟩ := facts
  exact ⟨history, s, _, _, (Run.trace .start traced).mono of_decide_eq_true, trivial, rfl,
    .inr (by rw [shared]; exact List.mem_singleton_self _), before, after⟩

end AutoAdd

end MetadataGraph.Events
