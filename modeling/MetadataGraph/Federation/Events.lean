import MetadataGraph.Federation.Integrity
import MetadataGraph.Lib.Journal

namespace MetadataGraph.Federation

open Runs Journal MetadataGraph.Graph

section Emitting

variable {α β : Type} {key : α → String}

/-- What an event says of the object under its id. -/
def Event.entry (key : α → String) : Event α → String × Option α
  | create after => (key after, some after)
  | update _ after => (key after, some after)
  | delete before => (key before, none)

def journal (key : α → String) (events : List (Event α)) : List (String × Option α) := events.map (Event.entry key)

/-- Each object of a cache is filed under its own id. -/
def Labelled (key : α → String) (cache : OrderedDict String α) : Prop := ∀ id a, cache.get? id = some a → key a = id

/-- A comparison is faithful to a view of the objects when it is silent only about equal views,
and what it says of an id leaves the new object there. -/
structure Faithful (key : α → String) (view : α → β) (compare : α → α → List (Event α)) : Prop where
  silent : ∀ {old new}, compare old new = [] ↔ view old = view new
  own : ∀ {old new}, key old = key new → ∀ entry ∈ journal key (compare old new), entry.1 = key new
  replaces : ∀ {old new}, view old ≠ view new → ∀ state, replay (journal key (compare old new)) state (key new) = some new

/-- A state follows a cache when every id shows the same view in both. -/
def Follows (view : α → β) (state : String → Option α) (cache : OrderedDict String α) : Prop :=
  ∀ id, (state id).map view = (cache.get? id).map view

variable {view : α → β} {compare : α → α → List (Event α)} {previous current : OrderedDict String α}

def createdEvents (current : OrderedDict String α) (id : String) : List (Event α) :=
  ((current.get? id).map .create).toList

def deletedEvents (previous : OrderedDict String α) (id : String) : List (Event α) :=
  ((previous.get? id).map .delete).toList

def comparedEvents (compare : α → α → List (Event α)) (previous current : OrderedDict String α) (id : String) :
    List (Event α) :=
  ((previous.get? id).bind fun old => (current.get? id).map (compare old)).getD []

theorem journal_emitEvents (o : SetOrder) : journal key (emitEvents o compare previous current) =
    (o.order (current.keys.filter (· ∉ previous.keys))).flatMap (fun id => journal key (createdEvents current id)) ++
      (o.order (previous.keys.filter (· ∉ current.keys))).flatMap (fun id => journal key (deletedEvents previous id)) ++
      (o.order (previous.keys.filter (· ∈ current.keys))).flatMap fun id =>
        journal key (comparedEvents compare previous current id) := by
  rw [emitEvents, journal, List.map_append, List.map_append, List.filterMap_eq_flatMap_toList,
    List.filterMap_eq_flatMap_toList, List.map_flatMap, List.map_flatMap, List.map_flatMap]
  rfl

theorem SetOrder.nodup (o : SetOrder) {ids : List String} (distinct : ids.Nodup) : (o.order ids).Nodup :=
  (o.perm ids).nodup_iff.mpr distinct

theorem SetOrder.mem (o : SetOrder) {ids : List String} {id : String} : id ∈ o.order ids ↔ id ∈ ids := (o.perm ids).mem_iff

theorem Labelled.created (labelled : Labelled key current) (id : String) :
    ∀ entry ∈ journal key (createdEvents current id), entry.1 = id := by
  rw [createdEvents]
  cases found : current.get? id with
  | none => exact fun _ member => absurd member List.not_mem_nil
  | some after =>
    intro entry member
    obtain rfl := List.mem_singleton.mp member
    exact labelled id after found

theorem Labelled.deleted (labelled : Labelled key previous) (id : String) :
    ∀ entry ∈ journal key (deletedEvents previous id), entry.1 = id := by
  rw [deletedEvents]
  cases found : previous.get? id with
  | none => exact fun _ member => absurd member List.not_mem_nil
  | some before =>
    intro entry member
    obtain rfl := List.mem_singleton.mp member
    exact labelled id before found

theorem Faithful.compared (faithful : Faithful key view compare) (before : Labelled key previous)
    (after : Labelled key current) (id : String) :
    ∀ entry ∈ journal key (comparedEvents compare previous current id), entry.1 = id := by
  rw [comparedEvents]
  cases was : previous.get? id with
  | none => exact fun _ member => absurd member List.not_mem_nil
  | some old =>
    cases is : current.get? id with
    | none => exact fun _ member => absurd member List.not_mem_nil
    | some new =>
      have same : key old = key new := (before id old was).trans (after id new is).symm
      intro entry member
      exact (faithful.own same entry member).trans (after id new is)

/-- The events between two caches take what follows the one to what follows the other. -/
theorem Follows.emit (faithful : Faithful key view compare) (o : SetOrder) (before : Labelled key previous)
    (after : Labelled key current) {state : String → Option α} (follows : Follows view state previous) :
    Follows view (replay (journal key (emitEvents o compare previous current)) state) current := by
  intro id
  have ofPrevious : previous.keys.Nodup := previous.distinct
  have ofCurrent : current.keys.Nodup := current.distinct
  have created := replay_flatMap after.created (o.nodup (ofCurrent.filter (· ∉ previous.keys))) state id
  have deleted := fun state => replay_flatMap before.deleted (o.nodup (ofPrevious.filter (· ∉ current.keys))) state id
  have compared := fun state =>
    replay_flatMap (faithful.compared before after) (o.nodup (ofPrevious.filter (· ∈ current.keys))) state id
  simp only [o.mem, List.mem_filter, decide_eq_true_eq] at created deleted compared
  rw [journal_emitEvents, replay_append, replay_append, compared, deleted]
  cases was : previous.get? id with
  | none =>
    have absent := OrderedDict.get?_eq_none.mp was
    simp only [absent, false_and, if_false]
    rw [created]
    cases is : current.get? id with
    | none =>
      rw [if_neg fun key => OrderedDict.get?_eq_none.mp is key.1, follows id, was]
    | some new =>
      rw [if_pos ⟨OrderedDict.mem_keys.mpr ⟨new, is⟩, absent⟩, createdEvents, is]
      rw [← after id new is]
      exact congrArg (Option.map view) (replay_singleton (key new) (some new) state)
  | some old =>
    have present := OrderedDict.mem_keys.mpr ⟨old, was⟩
    cases is : current.get? id with
    | none =>
      have gone := OrderedDict.get?_eq_none.mp is
      rw [if_neg fun both => gone both.2, if_pos ⟨present, gone⟩, deletedEvents, was]
      rw [← before id old was]
      exact congrArg (Option.map view) (replay_singleton (key old) none _)
    | some new =>
      have kept := OrderedDict.mem_keys.mpr ⟨new, is⟩
      have still : replay ((o.order (current.keys.filter (· ∉ previous.keys))).flatMap fun id =>
          journal key (createdEvents current id)) state id = state id :=
        created.trans (if_neg fun both => both.2 present)
      rw [if_pos ⟨present, kept⟩, comparedEvents, was, is, Option.bind_some, Option.map_some, Option.getD_some]
      by_cases same : view old = view new
      · rw [faithful.silent.mpr same]
        rw [show journal key ([] : List (Event α)) = [] from rfl, replay_nil, deleted, if_neg fun both => both.2 kept, still, follows id, was, Option.map_some, Option.map_some, same]
      · rw [← after id new is, faithful.replaces same]

/-- Two caches that show the same views are not told apart by any event. -/
theorem Faithful.emits_nothing (faithful : Faithful key view compare) (o : SetOrder)
    (same : ∀ id, (previous.get? id).map view = (current.get? id).map view) :
    emitEvents o compare previous current = [] := by
  have keys : ∀ id, id ∈ previous.keys ↔ id ∈ current.keys := by
    intro id
    rw [← not_iff_not, ← OrderedDict.get?_eq_none, ← OrderedDict.get?_eq_none, ← Option.map_eq_none_iff, same,
      Option.map_eq_none_iff]
  have nothing : ∀ {ids : List String}, (∀ id, id ∉ ids) → o.order ids = [] := fun empty =>
    List.eq_nil_iff_forall_not_mem.mpr fun id member => empty id (o.mem.mp member)
  rw [emitEvents, nothing fun id member => ?added, nothing fun id member => ?removed]
  case added =>
    obtain ⟨there, absent⟩ := List.mem_filter.mp member
    exact of_decide_eq_true absent ((keys id).mpr there)
  case removed =>
    obtain ⟨there, absent⟩ := List.mem_filter.mp member
    exact of_decide_eq_true absent ((keys id).mp there)
  rw [List.filterMap_nil, List.filterMap_nil, List.nil_append, List.nil_append, List.flatMap_eq_nil_iff]
  intro id _
  have here := same id
  cases was : previous.get? id with
  | none => rfl
  | some old =>
    cases is : current.get? id with
    | none => rfl
    | some new =>
      rw [was, is, Option.map_some, Option.map_some, Option.some.injEq] at here
      rw [Option.bind_some, Option.map_some, Option.getD_some, faithful.silent.mpr here]

theorem faithful_compareNodes : Faithful Node.id nodeEventFingerprint compareNodes where
  silent := by
    intro old new
    rw [compareNodes]
    split
    · rename_i same
      exact iff_of_true rfl same
    · rename_i differ
      exact iff_of_false (List.cons_ne_nil _ _) differ
  own := by
    intro old new _ entry member
    rw [compareNodes] at member
    split at member
    · cases member
    · obtain rfl := List.mem_singleton.mp member
      rfl
  replaces := by
    intro old new differ state
    rw [compareNodes, if_neg differ]
    exact replay_singleton new.id (some new) state

theorem faithful_compareEdges : Faithful Edge.id Edge.toDict compareEdges where
  silent := by
    intro old new
    rw [compareEdges]
    split
    · rename_i same
      exact iff_of_true rfl same
    · rename_i differ
      exact iff_of_false (List.cons_ne_nil _ _) differ
  own := by
    intro old new labelled entry member
    rw [compareEdges] at member
    split at member
    · cases member
    · rcases List.mem_cons.mp member with rfl | member
      · exact labelled
      · obtain rfl := List.mem_singleton.mp member
        rfl
  replaces := by
    intro old new differ state
    rw [compareEdges, if_neg differ]
    exact replay_singleton new.id (some new) _

end Emitting

section Rebuilding

theorem node_entries_timed (node : Node) (created updated : Datetime) :
    Node.entries { node with createdAt := created, updatedAt := updated } =
      node.entries.take 11 ++ [("created_at", .str created.isoformat), ("updated_at", .str updated.isoformat)] := rfl

theorem nodeEventFingerprint_getElem? (node : Node) (key : String) :
    (nodeEventFingerprint node)[key]? =
      if key = "created_at" ∨ key = "updated_at" then none else (Dict.of (node.entries.take 11))[key]? := by
  have keys : ((node.entries.take 11 ++ [("created_at", Json.str node.createdAt.isoformat),
      ("updated_at", Json.str node.updatedAt.isoformat)]).map Prod.fst).Nodup := by
    rw [← node_entries_timed]
    simp [Node.entries]
  rw [nodeEventFingerprint, Std.ExtTreeMap.getElem?_erase, Std.ExtTreeMap.getElem?_erase]
  simp only [Std.LawfulEqCmp.compare_eq_iff_eq]
  by_cases updated : key = "updated_at"
  · rw [if_pos updated.symm, if_pos (.inr updated)]
  · by_cases created : key = "created_at"
    · rw [if_neg (Ne.symm updated), if_pos created.symm, if_pos (.inl created)]
    · rw [if_neg (Ne.symm updated), if_neg (Ne.symm created), if_neg (by tauto)]
      refine Eq.trans ?_ (Dict.getElem?_of_append keys (by simp [created, updated]))
      rw [← node_entries_timed]
      rfl

theorem nodeEventFingerprint_timed (node : Node) (created updated : Datetime) :
    nodeEventFingerprint { node with createdAt := created, updatedAt := updated } = nodeEventFingerprint node := by
  apply Std.ExtTreeMap.ext_getElem?
  intro key
  rw [nodeEventFingerprint_getElem?, nodeEventFingerprint_getElem?]
  rfl

variable {b : Builtins} {r : Readers} {graph : FederationGraphConfig} {fresh : Fresh} {data : Dict Json} {id : String}

theorem fieldOr_absent {α : Type} {key : String} (absent : data[key]? = none) (default : α) (read : Json → Option α) :
    fieldOr data key default read = some default := by
  rw [fieldOr, absent]

/-- A node read from a dict without datetimes differs from a later reading in nothing else. -/
theorem node_reread (later : Fresh) {node : Node} (created : data["created_at"]? = none) (updated : data["updated_at"]? = none)
    (identified : data["id"]? = some (.str id)) (read : Node.fromDict r fresh data = some node) :
    node.id = id ∧
      Node.fromDict r later data = some { node with createdAt := later.now, updatedAt := later.now } := by
  rw [Node.fromDict, fieldOr_absent created, fieldOr_absent updated, fieldOr_of_getElem? identified] at read
  obtain ⟨_, ⟨⟩, read⟩ := Option.bind_eq_some_iff.mp read
  obtain ⟨_, ⟨⟩, read⟩ := Option.bind_eq_some_iff.mp read
  obtain ⟨archived, atArchived, read⟩ := Option.bind_eq_some_iff.mp read
  obtain ⟨_, ⟨⟩, read⟩ := Option.bind_eq_some_iff.mp read
  obtain ⟨typeName, atType, read⟩ := Option.bind_eq_some_iff.mp read
  obtain ⟨name, atName, read⟩ := Option.bind_eq_some_iff.mp read
  obtain ⟨description, atDescription, read⟩ := Option.bind_eq_some_iff.mp read
  obtain ⟨summary, atSummary, read⟩ := Option.bind_eq_some_iff.mp read
  obtain ⟨tags, atTags, read⟩ := Option.bind_eq_some_iff.mp read
  obtain ⟨subtypes, atSubtypes, read⟩ := Option.bind_eq_some_iff.mp read
  obtain ⟨aliases, atAliases, read⟩ := Option.bind_eq_some_iff.mp read
  obtain ⟨metadata, atMetadata, read⟩ := Option.bind_eq_some_iff.mp read
  obtain ⟨embedding, atEmbedding, read⟩ := Option.bind_eq_some_iff.mp read
  split at read
  · rename_i limits
    cases read
    refine ⟨rfl, ?_⟩
    rw [Node.fromDict, fieldOr_absent created, fieldOr_absent updated, fieldOr_of_getElem? identified, atArchived,
      atType, atName, atDescription, atSummary, atTags, atSubtypes, atAliases, atMetadata, atEmbedding]
    exact dif_pos limits
  · cases read

theorem edge_reread (later : Fresh) {edge : Edge} (created : data["created_at"]? = none) (identified : data["id"]? = some (.str id))
    (read : Edge.fromDict r fresh data = some edge) :
    edge.id = id ∧ Edge.fromDict r later data = some { edge with createdAt := later.now } := by
  rw [Edge.fromDict, fieldOr_absent created, fieldOr_of_getElem? identified] at read
  obtain ⟨_, ⟨⟩, read⟩ := Option.bind_eq_some_iff.mp read
  obtain ⟨label, atLabel, read⟩ := Option.bind_eq_some_iff.mp read
  obtain ⟨archived, atArchived, read⟩ := Option.bind_eq_some_iff.mp read
  obtain ⟨_, ⟨⟩, read⟩ := Option.bind_eq_some_iff.mp read
  obtain ⟨source, atSource, read⟩ := Option.bind_eq_some_iff.mp read
  obtain ⟨target, atTarget, read⟩ := Option.bind_eq_some_iff.mp read
  obtain ⟨type, atType, read⟩ := Option.bind_eq_some_iff.mp read
  obtain ⟨metadata, atMetadata, read⟩ := Option.bind_eq_some_iff.mp read
  cases read
  refine ⟨rfl, ?_⟩
  rw [Edge.fromDict, fieldOr_absent created, fieldOr_of_getElem? identified, atLabel, atArchived, atSource, atTarget,
    atType, atMetadata]
  rfl

variable (graph) in
theorem nodePayload_keys (federatedNodeId : String) (sourceNode metadata : Dict Json) :
    (nodePayload graph federatedNodeId sourceNode metadata)["created_at"]? = none ∧
      (nodePayload graph federatedNodeId sourceNode metadata)["updated_at"]? = none ∧
      (nodePayload graph federatedNodeId sourceNode metadata)["id"]? = some (.str federatedNodeId) :=
  ⟨Dict.getElem?_of_eq_none (by simp), Dict.getElem?_of_eq_none (by simp), Dict.getElem?_of (by simp) List.mem_cons_self⟩

variable (graph) in
theorem edgePayload_keys (edgeId source target : String) (sourceEdge metadata : Dict Json) :
    (edgePayload graph edgeId source target sourceEdge metadata)["created_at"]? = none ∧
      (edgePayload graph edgeId source target sourceEdge metadata)["id"]? = some (.str edgeId) :=
  ⟨Dict.getElem?_of_eq_none (by simp), Dict.getElem?_of (by simp) List.mem_cons_self⟩

/-- A node built again from its item is the same node, its datetimes aside. -/
theorem wellFormedNode_again (later : Fresh) {item : Json} {node : String × Node}
    (formed : wellFormedNode b r graph (item, fresh) = some node) :
    node.2.id = federatedId graph node.1 ∧ wellFormedNode b r graph (item, later) =
      some (node.1, { node.2 with createdAt := later.now, updatedAt := later.now }) := by
  cases object : readObject item with
  | none =>
    simp only [wellFormedNode, loadNode, object] at formed
    cases formed
  | some sourceNode =>
    cases unpacked : b.metadata (sourceNode.get "metadata") with
    | none =>
      simp only [wellFormedNode, loadNode, object, unpacked] at formed
      cases formed
    | some metadata =>
      cases metadata with
      | none =>
        simp only [wellFormedNode, loadNode, object, unpacked, Option.bind_none] at formed
        cases formed
      | some metadata =>
        simp only [wellFormedNode, loadNode, object, unpacked, Option.bind_some] at formed ⊢
        obtain ⟨created, updated, identified⟩ := nodePayload_keys graph
          (federatedId graph (b.str (sourceNode.get "id"))) sourceNode metadata
        cases built : Node.fromDict r fresh (nodePayload graph (federatedId graph (b.str (sourceNode.get "id")))
            sourceNode metadata) with
        | none =>
          rw [built] at formed
          cases formed
        | some made =>
          rw [built] at formed
          cases formed
          obtain ⟨named, again⟩ := node_reread later created updated identified built
          rw [again]
          exact ⟨named, rfl⟩

theorem wellFormedEdge_again (later : Fresh) {item : Json} {edge : String × Edge}
    (formed : wellFormedEdge b r graph (item, fresh) = some edge) :
    edge.2.id = edge.1 ∧ wellFormedEdge b r graph (item, later) =
      some (edge.1, { edge.2 with createdAt := later.now }) := by
  rw [wellFormedEdge] at formed
  obtain ⟨sourceEdge, object, formed⟩ := Option.bind_eq_some_iff.mp formed
  obtain ⟨made, built, rfl⟩ := Option.bind_eq_some_iff.mp formed
  rw [buildEdge] at built
  obtain ⟨metadata, unpacked, built⟩ := Option.map_eq_some_iff.mp built
  obtain ⟨edge, read, rfl⟩ := Option.map_eq_some_iff.mp built
  obtain ⟨created, identified⟩ := edgePayload_keys graph _ _ _ sourceEdge metadata
  obtain ⟨named, again⟩ := edge_reread later created identified read
  refine ⟨named, ?_⟩
  rw [wellFormedEdge, object]
  simp only [Option.bind_eq_bind, Option.bind_some, buildEdge, unpacked, Option.map_some, again]

/-- What is made of each item, seen without its time, is the same at any time. -/
theorem map_filterMap_stamp {α β : Type} (make : Item → Option α) (view : α → β)
    (again : ∀ {item fresh made}, make (item, fresh) = some made → ∀ later, ∃ remade, make (item, later) = some remade ∧
      view remade = view made) (first : ℕ) (items : List Json) (fresh later : ℕ → Fresh) :
    ((stamp fresh first items).filterMap make).map view = ((stamp later first items).filterMap make).map view := by
  rw [stamp, stamp, List.map_filterMap, List.map_filterMap, List.filterMap_map, List.filterMap_map]
  refine List.filterMap_congr fun item _ => ?_
  dsimp only [Function.comp_apply]
  cases made : make (item.1, fresh item.2) with
  | some a =>
    obtain ⟨remade, same, views⟩ := again made (later item.2)
    rw [same, Option.map_some, Option.map_some, views]
  | none =>
    cases remade : make (item.1, later item.2) with
    | none => rfl
    | some a =>
      obtain ⟨_, same, -⟩ := again remade (fresh item.2)
      rw [made] at same
      cases same

theorem origins_stamp (first : ℕ) (items : List Json) (fresh later : ℕ → Fresh) :
    origins b (stamp fresh first items) = origins b (stamp later first items) := by
  have same := map_filterMap_stamp (originOf b) id (fun made _ => ⟨_, made, rfl⟩) first items fresh later
  rwa [List.map_id, List.map_id] at same

def untimed (edge : Edge) : Edge := { edge with createdAt := epoch }

theorem listedEdges_eq (nodes edges : List Item) : listedEdges b r graph nodes edges =
    edges.filterMap fun item => (wellFormedEdge b r graph item).filter (Linked (listedIds b graph nodes)) := by
  rw [listedEdges, List.filter_filterMap]

variable {times moreTimes : ℕ → Fresh} {nodes edges : List Json}
variable {built rebuilt : OrderedDict String Node × OrderedDict String Edge}

theorem labelled_built (made : buildCache b r graph times nodes edges = .ok built) :
    Labelled Node.id built.1 ∧ Labelled Edge.id built.2 := by
  rw [((buildCache_eq_ok rfl rfl).mp made).2.2]
  constructor
  · intro id node found
    obtain ⟨entry, formed, same⟩ := List.mem_map.mp (OrderedDict.mem_of_get?_ofList found)
    obtain ⟨item, -, formed⟩ := List.mem_filterMap.mp formed
    cases same
    exact (wellFormedNode_again item.2 formed).1
  · intro id edge found
    obtain ⟨item, -, formed⟩ := List.mem_filterMap.mp (List.mem_of_mem_filter (OrderedDict.mem_of_get?_ofList found))
    exact (wellFormedEdge_again item.2 formed).1

/-- Two caches built from the same lists differ in nothing but the times. -/
theorem built_again (made : buildCache b r graph times nodes edges = .ok built)
    (remade : buildCache b r graph moreTimes nodes edges = .ok rebuilt) :
    (∀ id, (built.1.get? id).map nodeEventFingerprint = (rebuilt.1.get? id).map nodeEventFingerprint) ∧
      ∀ id, (built.2.get? id).map untimed = (rebuilt.2.get? id).map untimed := by
  rw [((buildCache_eq_ok rfl rfl).mp made).2.2, ((buildCache_eq_ok rfl rfl).mp remade).2.2]
  constructor
  · intro id
    rw [OrderedDict.map_get?_ofList, OrderedDict.map_get?_ofList, List.map_map, List.map_map]
    have same := map_filterMap_stamp (wellFormedNode b r graph)
      (fun node => (federatedId graph node.1, nodeEventFingerprint node.2))
      (fun formed later => ⟨_, (wellFormedNode_again later formed).2, by rw [nodeEventFingerprint_timed]⟩)
      0 nodes times moreTimes
    exact congrArg (fun pairs => (OrderedDict.ofList pairs).get? id) same
  · intro id
    rw [OrderedDict.map_get?_ofList, OrderedDict.map_get?_ofList, listedEdges_eq, listedEdges_eq, listedIds, listedIds,
      origins_stamp 0 nodes moreTimes times]
    have same := map_filterMap_stamp
      (fun item => (wellFormedEdge b r graph item).filter
        (Linked ((origins b (stamp times 0 nodes)).map (federatedId graph))))
      (fun edge => (edge.1, untimed edge.2)) ?_ nodes.length edges times moreTimes
    · exact congrArg (fun pairs => (OrderedDict.ofList pairs).get? id) same
    · intro item fresh edge kept later
      obtain ⟨formed, linked⟩ := Option.filter_eq_some_iff.mp kept
      refine ⟨(edge.1, { edge.2 with createdAt := later.now }), ?_, rfl⟩
      rw [(wellFormedEdge_again later formed).2, Option.filter_some]
      exact if_pos linked

end Rebuilding

namespace FederationManager

variable {b : Builtins} {r : Readers} {graphs : List FederationGraphConfig}
variable {distinct : (graphs.map FederationGraphConfig.graphId).Nodup} {graph : FederationGraphConfig}
variable {m : FederationManager}

abbrev SyncHistory := List (Request × SyncResult × Emitted)

def syncsOf (graphId : String) (history : SyncHistory) : SyncHistory := history.filter fun taken => taken.1.graphId = graphId

/-- The request of the last sync that gave a graph its cache. -/
def lastSynced (graphId : String) (history : SyncHistory) : Option Request :=
  ((syncsOf graphId history).filter fun taken => taken.2.1.success).getLast?.map Prod.fst

def nodeEventsOf (graphId : String) (history : SyncHistory) : List (Event Node) :=
  (syncsOf graphId history).flatMap fun taken => taken.2.2.nodes

def edgeEventsOf (graphId : String) (history : SyncHistory) : List (Event Edge) :=
  (syncsOf graphId history).flatMap fun taken => taken.2.2.edges

/-- The events of one graph, folded over the empty graph, give its cache, node timestamps aside. -/
structure Replays (graphId : String) (history : SyncHistory) (m : FederationManager) : Prop where
  nodes : Follows nodeEventFingerprint
    (replay (journal Node.id (nodeEventsOf graphId history)) fun _ => none)
    (m.cache graphId).nodes
  edges : Follows Edge.toDict
    (replay (journal Edge.id (edgeEventsOf graphId history)) fun _ => none)
    (m.cache graphId).edges

/-- The payload fetched is the one that the cache was built from. -/
def Repeats (graphId : String) (history : SyncHistory) (request : Request) : Prop :=
  ∃ last payload, lastSynced graphId history = some last ∧ last.fetched = .ok payload ∧ request.fetched = .ok payload

/-- A payload that is fetched again gives no cached edge another creation time. -/
def Punctual (b : Builtins) (r : Readers) (graph : FederationGraphConfig) (history : SyncHistory) (m : FederationManager)
    (request : Request) : Prop :=
  Repeats graph.graphId history request → ∀ nodes edges, request.fetched.bind readPayload = .ok (nodes, edges) →
    ∀ id edge, (m.cache graph.graphId).edges.get? id = some edge →
      ∀ again, (id, again) ∈ (OrderedDict.ofList (listedEdges b r graph (stamp request.moment.fresh 0 nodes)
        (stamp request.moment.fresh nodes.length edges))).entries → again.createdAt = edge.createdAt

/-- A failed sync changes no node or edge and emits nothing, and neither does a repeated payload emit. -/
structure Quiet (b : Builtins) (r : Readers) (graphId : String) (history : SyncHistory) (m : FederationManager)
    (request : Request) : Prop where
  failed : (m.syncGraph b r request).2.1.success = false → (m.syncGraph b r request).2.2 = {} ∧
    ((m.syncGraph b r request).1.cache graphId).nodes = (m.cache graphId).nodes ∧
    ((m.syncGraph b r request).1.cache graphId).edges = (m.cache graphId).edges
  repeated : Repeats graphId history request → (m.syncGraph b r request).2.2 = {}

/-- The cache is the one built by the last sync that succeeded, and the events replay to it. -/
structure Tracked (b : Builtins) (r : Readers) (graph : FederationGraphConfig) (history : SyncHistory)
    (m : FederationManager) : Prop where
  replays : Replays graph.graphId history m
  nodes : Labelled Node.id (m.cache graph.graphId).nodes
  edges : Labelled Edge.id (m.cache graph.graphId).edges
  last : ∀ request payload, lastSynced graph.graphId history = some request → request.fetched = .ok payload →
    ∃ nodes edges, readPayload payload = .ok (nodes, edges) ∧
      buildCache b r graph request.moment.fresh nodes edges =
        .ok ((m.cache graph.graphId).nodes, (m.cache graph.graphId).edges)

variable {history : SyncHistory} {request : Request} {result : SyncResult} {events : Emitted}

theorem syncsOf_concat (graphId : String) : syncsOf graphId (history ++ [(request, result, events)]) =
    if request.graphId = graphId then syncsOf graphId history ++ [(request, result, events)] else syncsOf graphId history := by
  rw [syncsOf, List.filter_append]
  split
  · rename_i same
    rw [List.filter_cons_of_pos (by simp [same])]
    rfl
  · rename_i other
    rw [List.filter_cons_of_neg (by simp [other]), List.filter_nil, List.append_nil]
    rfl

theorem eventsOf_concat (graphId : String) (history : SyncHistory) (request : Request) (result : SyncResult)
    (events : Emitted) :
    nodeEventsOf graphId (history ++ [(request, result, events)]) =
        nodeEventsOf graphId history ++ (if request.graphId = graphId then events.nodes else []) ∧
      edgeEventsOf graphId (history ++ [(request, result, events)]) =
        edgeEventsOf graphId history ++ (if request.graphId = graphId then events.edges else []) := by
  rw [nodeEventsOf, edgeEventsOf, syncsOf_concat]
  split
  · rw [List.flatMap_append, List.flatMap_append, List.flatMap_singleton, List.flatMap_singleton]
    exact ⟨rfl, rfl⟩
  · rw [List.append_nil, List.append_nil]
    exact ⟨rfl, rfl⟩

theorem lastSynced_concat (graphId : String) : lastSynced graphId (history ++ [(request, result, events)]) =
    if request.graphId = graphId ∧ result.success = true then some request else lastSynced graphId history := by
  rw [lastSynced, syncsOf_concat]
  by_cases same : request.graphId = graphId
  · rw [if_pos same, List.filter_append]
    by_cases success : result.success = true
    · rw [if_pos ⟨same, success⟩, List.filter_cons_of_pos (by exact success), List.getLast?_append]
      rfl
    · rw [if_neg fun both => success both.2, List.filter_cons_of_neg (by exact success), List.filter_nil,
        List.append_nil]
      rfl
  · rw [if_neg same, if_neg fun both => same both.1]
    rfl

theorem Tracked.init : Tracked b r graph [] (FederationManager.init graphs distinct) := by
  have empty : ((FederationManager.init graphs distinct).cache graph.graphId).nodes = {} ∧
      ((FederationManager.init graphs distinct).cache graph.graphId).edges = {} := by
    rw [FederationManager.init]
    dsimp only
    split <;> exact ⟨rfl, rfl⟩
  refine ⟨⟨?_, ?_⟩, ?_, ?_, ?_⟩
  · rw [empty.1]
    exact fun _ => rfl
  · rw [empty.2]
    exact fun _ => rfl
  · rw [empty.1]
    intro id node none
    cases none
  · rw [empty.2]
    intro id edge none
    cases none
  · intro request payload none
    cases none

theorem cache_syncGraph_of_ne (other : request.graphId ≠ graph.graphId) :
    (m.syncGraph b r request).1.cache graph.graphId = m.cache graph.graphId := by
  by_cases known : ∃ synced ∈ m.graphs, request.graphId = synced.graphId
  · obtain ⟨synced, configured, asked⟩ := known
    rw [syncGraph_eq configured asked]
    exact Function.update_of_ne (fun same => other (asked.trans same.symm)) _ _
  · rw [syncGraph_unknown fun synced configured asked => known ⟨synced, configured, asked⟩]

/-- A sync that emits nothing about a graph, and leaves its nodes and edges, is not seen. -/
theorem Tracked.skip (tracked : Tracked b r graph history m) {n : FederationManager}
    (nodes : (n.cache graph.graphId).nodes = (m.cache graph.graphId).nodes)
    (edges : (n.cache graph.graphId).edges = (m.cache graph.graphId).edges)
    (silent : request.graphId = graph.graphId → result.success = false ∧ events = {}) :
    Tracked b r graph (history ++ [(request, result, events)]) n := by
  obtain ⟨ofNodes, ofEdges⟩ := eventsOf_concat graph.graphId history request result events
  have nothing : (if request.graphId = graph.graphId then events.nodes else []) = [] ∧
      (if request.graphId = graph.graphId then events.edges else []) = [] := by
    split
    · rename_i same
      rw [(silent same).2]
      exact ⟨rfl, rfl⟩
    · exact ⟨rfl, rfl⟩
  rw [nothing.1, List.append_nil] at ofNodes
  rw [nothing.2, List.append_nil] at ofEdges
  obtain ⟨replays, labelledNodes, labelledEdges, last⟩ := tracked
  refine ⟨⟨?_, ?_⟩, ?_, ?_, ?_⟩
  · rw [ofNodes, nodes]
    exact replays.nodes
  · rw [ofEdges, edges]
    exact replays.edges
  · rw [nodes]
    exact labelledNodes
  · rw [edges]
    exact labelledEdges
  · have unseen : ¬ (request.graphId = graph.graphId ∧ result.success = true) := by
      rintro ⟨same, success⟩
      rw [(silent same).1] at success
      cases success
    rw [lastSynced_concat, if_neg unseen, nodes, edges]
    exact last

theorem Tracked.swap (tracked : Tracked b r graph history m) {n : FederationManager} {moment : Moment} {payload : Json}
    {nodes edges : List Json} {built : OrderedDict String Node × OrderedDict String Edge}
    (asked : request.graphId = graph.graphId) (fetched : request.fetched = .ok payload)
    (lists : readPayload payload = .ok (nodes, edges))
    (made : buildCache b r graph request.moment.fresh nodes edges = .ok built) (success : result.success = true)
    (swapped : n.cache graph.graphId = .swapped moment built) :
    Tracked b r graph (history ++ [(request, result, emitted moment (m.cache graph.graphId) built)]) n := by
  obtain ⟨ofNodes, ofEdges⟩ := eventsOf_concat graph.graphId history request result (emitted moment (m.cache graph.graphId) built)
  rw [if_pos asked] at ofNodes ofEdges
  obtain ⟨labelledNodes, labelledEdges⟩ := labelled_built made
  refine ⟨⟨?_, ?_⟩, ?_, ?_, ?_⟩
  · rw [ofNodes, journal, List.map_append, replay_append, swapped]
    exact tracked.replays.nodes.emit faithful_compareNodes moment.nodeOrder tracked.nodes labelledNodes
  · rw [ofEdges, journal, List.map_append, replay_append, swapped]
    exact tracked.replays.edges.emit faithful_compareEdges moment.edgeOrder tracked.edges labelledEdges
  · rw [swapped]
    exact labelledNodes
  · rw [swapped]
    exact labelledEdges
  · rw [lastSynced_concat, if_pos ⟨asked, success⟩, swapped]
    intro last payload' same fetched'
    cases same
    rw [fetched] at fetched'
    cases fetched'
    exact ⟨nodes, edges, lists, made⟩

theorem Tracked.step (tracked : Tracked b r graph history m) (configured : graph ∈ m.graphs) (request : Request) :
    Tracked b r graph (history ++ [(request, (m.syncGraph b r request).2)]) (m.syncGraph b r request).1 := by
  by_cases asked : request.graphId = graph.graphId
  · rw [syncGraph_eq configured asked]
    rcases FederatedGraphCache.sync_cases b r graph request.fetched request.moment (m.cache graph.graphId) with
      ⟨payload, nodes, edges, built, fetched, lists, made, swap⟩ | ⟨after, result, failed, unsuccessful, nodes, edges⟩
    · rw [swap]
      exact tracked.swap asked fetched lists made rfl (Function.update_self _ _ _)
    · rw [failed]
      refine tracked.skip ?_ ?_ fun _ => ⟨unsuccessful, rfl⟩
      · dsimp only
        rw [Function.update_self, nodes]
      · dsimp only
        rw [Function.update_self, edges]
  · refine tracked.skip ?_ ?_ fun same => absurd same asked
    · rw [cache_syncGraph_of_ne asked]
    · rw [cache_syncGraph_of_ne asked]

theorem untimed_inj {edge other : Edge} (same : untimed edge = untimed other) (times : edge.createdAt = other.createdAt) :
    edge = other := by
  obtain ⟨_, _, _, _, _, _, _, _⟩ := edge
  obtain ⟨_, _, _, _, _, _, _, _⟩ := other
  cases times
  cases same
  rfl

theorem Tracked.quiet (tracked : Tracked b r graph history m) (configured : graph ∈ m.graphs)
    (asked : request.graphId = graph.graphId) (punctual : Punctual b r graph history m request) :
    Quiet b r graph.graphId history m request := by
  have synced := syncGraph_eq (b := b) (r := r) configured asked
  rcases FederatedGraphCache.sync_cases b r graph request.fetched request.moment (m.cache graph.graphId) with
    ⟨payload, nodes, edges, built, fetched, lists, made, swap⟩ | ⟨after, result, failed, unsuccessful, nodes, edges⟩
  · rw [swap] at synced
    constructor
    · rw [synced]
      intro no
      cases no
    · intro repeats
      rw [synced]
      have times := punctual repeats nodes edges (by rw [fetched]; exact lists)
      obtain ⟨last, again, synced', fetchedThen, fetchedNow⟩ := repeats
      obtain rfl : payload = again := by
        rw [fetched] at fetchedNow
        cases fetchedNow
        rfl
      obtain ⟨nodes', edges', listsThen, madeThen⟩ := tracked.last last payload synced' fetchedThen
      rw [lists] at listsThen
      cases listsThen
      obtain ⟨sameNodes, sameEdges⟩ := built_again madeThen made
      have equalEdges : ∀ id, ((m.cache graph.graphId).edges.get? id).map Edge.toDict = (built.2.get? id).map Edge.toDict := by
        intro id
        have here := sameEdges id
        cases was : (m.cache graph.graphId).edges.get? id with
        | none =>
          rw [was, Option.map_none] at here
          rw [Option.map_eq_none_iff.mp here.symm, Option.map_none]
        | some edge =>
          rw [was, Option.map_some] at here
          obtain ⟨next, found, same⟩ := Option.map_eq_some_iff.mp here.symm
          have time := times id edge was next (by
            rw [((buildCache_eq_ok rfl rfl).mp made).2.2] at found
            exact OrderedDict.get?_eq_some.mp found)
          rw [found, untimed_inj same time]
      dsimp only
      rw [emitted, emitNodeEvents, emitEdgeEvents, faithful_compareNodes.emits_nothing _ sameNodes,
        faithful_compareEdges.emits_nothing _ equalEdges]
  · rw [failed] at synced
    constructor
    · intro _
      rw [synced]
      dsimp only
      rw [Function.update_self]
      exact ⟨rfl, nodes, edges⟩
    · intro _
      rw [synced]

/-- The same payload fetched at different times. -/
private def requestAt (now : Datetime) (edges : List Json) : Request where
  graphId := "partner"
  fetched := .ok (.obj [("edges", .arr edges), ("nodes", .arr twoNodes)])
  moment := { sampleMoment with fresh := fun _ => { id := "fresh", now := now } }

private def later : Datetime := { isoformat := "1970-01-01T00:00:01+00:00" }

private def started : FederationManager := .init [samplePartner] one_distinct

private def syncedOnce (edges : List Json) : FederationManager × SyncResult × Emitted :=
  started.syncGraph sampleBuiltins sampleReaders (requestAt epoch edges)

end FederationManager

end MetadataGraph.Federation
