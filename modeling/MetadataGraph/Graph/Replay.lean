import MetadataGraph.Graph.Atomicity

namespace MetadataGraph.Graph

open ObjectHeap Runs Journal

/-- What a record says when the history is folded: a create or an update sets the entity to its
after-state, a delete removes it. -/
def HistoryRecord.entry (r : HistoryRecord) : Option (String × Option (Dict Json)) :=
  match r.eventType with
  | .nodeDelete | .edgeDelete => some (r.entityId, none)
  | .nodeCreate | .nodeUpdate | .edgeCreate | .edgeUpdate => r.after.map fun state => (r.entityId, some state)

/-- The part of a history about the entities of one kind. -/
def entriesOf (kind : EntityKind) (records : List HistoryRecord) : List (String × Option (Dict Json)) :=
  records.filterMap fun r => if r.entityKind = kind then r.entry else none

theorem entriesOf_append (kind : EntityKind) (first second : List HistoryRecord) :
    entriesOf kind (first ++ second) = entriesOf kind first ++ entriesOf kind second := List.filterMap_append

namespace Storage

variable {cfg : StorageConfig} {σ τ : Storage}

/-- The nodes by id, as they are saved. -/
def nodeStates (σ : Storage) (id : String) : Option (Dict Json) := (σ.nodes.get? id).map fun ref => (σ.node ref).toDict

/-- The edges by id, as they are saved. -/
def edgeStates (σ : Storage) (id : String) : Option (Dict Json) := (σ.edges.get? id).map fun ref => (σ.edge ref).toDict

/-- Records that tell of what changed between two storages. -/
structure Accounts (records : List HistoryRecord) (σ τ : Storage) : Prop where
  nodes : replay (entriesOf .node records) σ.nodeStates = τ.nodeStates
  edges : replay (entriesOf .edge records) σ.edgeStates = τ.edgeStates

theorem Accounts.trans {υ : Storage} {first second : List HistoryRecord} (before : Accounts first σ τ)
    (after : Accounts second τ υ) : Accounts (first ++ second) σ υ where
  nodes := by rw [entriesOf_append, replay_append, before.nodes, after.nodes]
  edges := by rw [entriesOf_append, replay_append, before.edges, after.edges]

theorem nodeStates_congr (nodes : τ.nodes = σ.nodes)
    (node : ∀ id ref, σ.nodes.get? id = some ref → τ.node ref = σ.node ref) : τ.nodeStates = σ.nodeStates := by
  funext id
  rw [nodeStates, nodeStates, nodes]
  cases found : σ.nodes.get? id with
  | none => rw [Option.map_none, Option.map_none]
  | some ref => rw [Option.map_some, Option.map_some, node id ref found]

theorem edgeStates_congr (edges : τ.edges = σ.edges)
    (edge : ∀ id ref, σ.edges.get? id = some ref → τ.edge ref = σ.edge ref) : τ.edgeStates = σ.edgeStates := by
  funext id
  rw [edgeStates, edgeStates, edges]
  cases found : σ.edges.get? id with
  | none => rw [Option.map_none, Option.map_none]
  | some ref => rw [Option.map_some, Option.map_some, edge id ref found]

/-- Nothing was emitted, and nothing of the graph changed. -/
theorem Accounts.silent (nodes : τ.nodes = σ.nodes) (edges : τ.edges = σ.edges)
    (node : ∀ id ref, σ.nodes.get? id = some ref → τ.node ref = σ.node ref)
    (edge : ∀ id ref, σ.edges.get? id = some ref → τ.edge ref = σ.edge ref) : Accounts [] σ τ :=
  ⟨(nodeStates_congr nodes node).symm, (edgeStates_congr edges edge).symm⟩

theorem Untouched.accounts (untouched : Untouched σ τ) : Accounts [] σ τ :=
  .silent untouched.nodes untouched.edges untouched.node untouched.edge

/-- Two nodes of the map are different objects. -/
theorem Indexed.node_ref (indexed : σ.Indexed cfg) {id other : String} {ref : Ref} (found : σ.nodes.get? id = some ref)
    (found' : σ.nodes.get? other = some ref) : id = other :=
  (indexed.node_held id ref found).2.symm.trans (indexed.node_held other ref found').2

theorem Indexed.edge_ref (indexed : σ.Indexed cfg) {id other : String} {ref : Ref} (found : σ.edges.get? id = some ref)
    (found' : σ.edges.get? other = some ref) : id = other :=
  (indexed.edge_held id ref found).2.1.symm.trans (indexed.edge_held other ref found').2.1

theorem OneNode.accounts {ref : Ref} (one : OneNode ref σ τ) (indexed : σ.Indexed cfg) {id : String}
    (found : σ.nodes.get? id = some ref) : Accounts [nodeUpdated id (σ.node ref) (τ.node ref)] σ τ := by
  refine ⟨?_, (edgeStates_congr one.edges fun _ other _ => ?_).symm⟩
  · show Function.update σ.nodeStates id (some (τ.node ref).toDict) = τ.nodeStates
    funext other
    by_cases same : other = id
    · rw [same, Function.update_self, nodeStates, one.nodes, found, Option.map_some]
    · rw [Function.update_of_ne same, nodeStates, nodeStates, one.nodes]
      cases held : σ.nodes.get? other with
      | none => rw [Option.map_none, Option.map_none]
      | some ref' =>
        have apart : ref' ≠ ref := fun shared => same (indexed.node_ref (by rw [← shared]; exact held) found)
        rw [Option.map_some, Option.map_some, one.others ref' apart]
  · rw [Storage.edge, one.edgeObjects]
    rfl

theorem OneEdge.accounts {ref : Ref} (one : OneEdge ref σ τ) (indexed : σ.Indexed cfg) {id : String}
    (found : σ.edges.get? id = some ref) : Accounts [edgeUpdated id (σ.edge ref) (τ.edge ref)] σ τ := by
  refine ⟨(nodeStates_congr one.nodes fun _ other _ => ?_).symm, ?_⟩
  · rw [Storage.node, one.nodeObjects]
    rfl
  · show Function.update σ.edgeStates id (some (τ.edge ref).toDict) = τ.edgeStates
    funext other
    by_cases same : other = id
    · rw [same, Function.update_self, edgeStates, one.edges, found, Option.map_some]
    · rw [Function.update_of_ne same, edgeStates, edgeStates, one.edges]
      cases held : σ.edges.get? other with
      | none => rw [Option.map_none, Option.map_none]
      | some ref' =>
        have apart : ref' ≠ ref := fun shared => same (indexed.edge_ref (by rw [← shared]; exact held) found)
        rw [Option.map_some, Option.map_some, one.others ref' apart]

/-- What the records about some nodes say of nodes. -/
theorem entriesOf_eachNode {record : String → Node → HistoryRecord} (state : Node → Option (Dict Json))
    (kind : ∀ id node, (record id node).entityKind = .node)
    (entry : ∀ id node, (record id node).entry = some (id, state node)) (ids : List String) (σ : Storage) :
    entriesOf .node (σ.eachNode record ids) =
      ids.filterMap fun id => ((σ.nodes.get? id).map fun ref => state (σ.node ref)).map fun said => (id, said) := by
  rw [entriesOf, eachNode, List.filterMap_filterMap]
  refine List.filterMap_congr fun id _ => ?_
  cases σ.nodes.get? id with
  | none => rfl
  | some ref => simp only [Option.map_some, Option.bind_some, kind, if_true, entry]

theorem entriesOf_eachNode_edge {record : String → Node → HistoryRecord}
    (kind : ∀ id node, (record id node).entityKind = .node) (ids : List String) (σ : Storage) :
    entriesOf .edge (σ.eachNode record ids) = [] := by
  rw [entriesOf, eachNode, List.filterMap_filterMap, List.filterMap_eq_nil_iff]
  intro id _
  cases σ.nodes.get? id with
  | none => rfl
  | some ref => simp only [Option.map_some, Option.bind_some, kind, reduceCtorEq, if_false]

/-- What the records about some edges say of edges. -/
theorem entriesOf_eachEdge {record : String → Edge → HistoryRecord} (state : Edge → Option (Dict Json))
    (kind : ∀ id edge, (record id edge).entityKind = .edge)
    (entry : ∀ id edge, (record id edge).entry = some (id, state edge)) (ids : List String) (σ : Storage) :
    entriesOf .edge (σ.eachEdge record ids) =
      ids.filterMap fun id => ((σ.edges.get? id).map fun ref => state (σ.edge ref)).map fun said => (id, said) := by
  rw [entriesOf, eachEdge, List.filterMap_filterMap]
  refine List.filterMap_congr fun id _ => ?_
  cases σ.edges.get? id with
  | none => rfl
  | some ref => simp only [Option.map_some, Option.bind_some, kind, if_true, entry]

theorem entriesOf_eachEdge_node {record : String → Edge → HistoryRecord}
    (kind : ∀ id edge, (record id edge).entityKind = .edge) (ids : List String) (σ : Storage) :
    entriesOf .node (σ.eachEdge record ids) = [] := by
  rw [entriesOf, eachEdge, List.filterMap_filterMap, List.filterMap_eq_nil_iff]
  intro id _
  cases σ.edges.get? id with
  | none => rfl
  | some ref => simp only [Option.map_some, Option.bind_some, kind, reduceCtorEq, if_false]

/-- The deletions that are recorded are those that took place. -/
theorem Dropped.accounts {ids edgeIds : List String} (dropped : Dropped ids edgeIds σ τ) :
    Accounts (σ.eachEdge edgeDeleted edgeIds ++ σ.eachNode nodeDeleted ids) σ τ := by
  constructor
  · rw [entriesOf_append, entriesOf_eachEdge_node (fun _ _ => rfl), List.nil_append,
      entriesOf_eachNode (fun _ => none) (fun _ _ => rfl) (fun _ _ => rfl)]
    funext id
    rw [replay_each fun id => (σ.nodes.get? id).map fun _ => none, nodeStates, nodeStates, dropped.nodes]
    simp only [Storage.node, dropped.nodeObjects]
    by_cases member : id ∈ ids
    · rw [if_pos member, if_pos member]
      cases σ.nodes.get? id <;> rfl
    · rw [if_neg member, if_neg member]
  · rw [entriesOf_append, entriesOf_eachNode_edge (fun _ _ => rfl), List.append_nil,
      entriesOf_eachEdge (fun _ => none) (fun _ _ => rfl) (fun _ _ => rfl)]
    funext id
    rw [replay_each fun id => (σ.edges.get? id).map fun _ => none, edgeStates, edgeStates, dropped.edges]
    simp only [Storage.edge, dropped.edgeObjects]
    by_cases member : id ∈ edgeIds
    · rw [if_pos member, if_pos member]
      cases σ.edges.get? id <;> rfl
    · rw [if_neg member, if_neg member]

/-- In a map to which new entries came, those that were not listed are as they were and those that were
listed are there. -/
theorem get?_of_listed {before after : OrderedDict String Ref} {refs : List Ref} {name : Ref → String}
    (appended : after.entries = before.entries ++ refs.map fun ref => (name ref, ref)) (id : String) :
    (id ∉ refs.map name → after.get? id = before.get? id) ∧ (id ∈ refs.map name → ∃ ref, after.get? id = some ref) := by
  constructor
  · intro apart
    have unlisted : (refs.map fun ref => (name ref, ref)).lookup id = none := by
      rw [List.lookup_eq_none_iff]
      intro entry member
      obtain ⟨ref, listed, rfl⟩ := List.mem_map.mp member
      rw [bne_iff_ne]
      exact fun same => apart (by rw [same]; exact List.mem_map_of_mem listed)
    rw [OrderedDict.get?_of_append appended, unlisted, Option.or_none]
  · intro member
    refine OrderedDict.mem_keys.mp ?_
    rw [OrderedDict.keys, appended, List.map_append, List.mem_append, List.map_map]
    exact .inr member

/-- What was added is recorded as it is now. -/
theorem Added.accounts {nodes edges : List Ref} (added : Added nodes edges σ τ) (indexed : σ.Indexed cfg) :
    Accounts (τ.eachNode nodeCreated (nodes.map fun ref => (σ.node ref).id) ++
      τ.eachEdge edgeCreated (edges.map fun ref => (σ.edge ref).id)) σ τ := by
  constructor
  · rw [entriesOf_append, entriesOf_eachEdge_node (fun _ _ => rfl), List.append_nil,
      entriesOf_eachNode (fun node => some node.toDict) (fun _ _ => rfl) (fun _ _ => rfl)]
    funext id
    rw [replay_each fun id => (τ.nodes.get? id).map fun ref => some (τ.node ref).toDict, nodeStates, nodeStates]
    obtain ⟨unlisted, listed⟩ := get?_of_listed added.nodeEntries id
    split
    · rename_i member
      obtain ⟨ref, found⟩ := listed member
      rw [found]
      rfl
    · rename_i apart
      rw [unlisted apart]
      cases found : σ.nodes.get? id with
      | none => rw [Option.map_none, Option.map_none]
      | some ref =>
        have other : ref ∉ nodes := fun member => apart <| by
          rw [← (indexed.node_held id ref found).2]
          exact List.mem_map_of_mem member
        rw [Option.map_some, Option.map_some, added.keptNode ref other]
  · rw [entriesOf_append, entriesOf_eachNode_edge (fun _ _ => rfl), List.nil_append,
      entriesOf_eachEdge (fun edge => some edge.toDict) (fun _ _ => rfl) (fun _ _ => rfl)]
    funext id
    rw [replay_each fun id => (τ.edges.get? id).map fun ref => some (τ.edge ref).toDict, edgeStates, edgeStates]
    obtain ⟨unlisted, listed⟩ := get?_of_listed added.edgeEntries id
    split
    · rename_i member
      obtain ⟨ref, found⟩ := listed member
      rw [found]
      rfl
    · rename_i apart
      rw [unlisted apart]
      cases found : σ.edges.get? id with
      | none => rw [Option.map_none, Option.map_none]
      | some ref =>
        have other : ref ∉ edges := fun member => apart <| by
          rw [← (indexed.edge_held id ref found).2.1]
          exact List.mem_map_of_mem member
        rw [Option.map_some, Option.map_some, added.keptEdge ref other]

theorem Accounts.save {records : List HistoryRecord} (accounts : Accounts records σ τ) : Accounts records σ τ.save :=
  ⟨accounts.nodes, accounts.edges⟩

theorem archiveNodes_accounts (archived : Bool) (nodes : List (String × Datetime)) {σ : Storage} (valid : σ.Valid cfg) :
    Accounts (σ.archivedNodes archived nodes) σ (σ.archiveNodes archived nodes).1 := by
  induction nodes generalizing σ with
  | nil => exact ⟨rfl, rfl⟩
  | cons pair nodes ih =>
    obtain ⟨id, now⟩ := pair
    rw [archivedNodes, archiveNodes]
    cases found : σ.nodes.get? id with
    | none => exact ih valid
    | some ref =>
      dsimp only
      by_cases same : (σ.node ref).archived = archived
      · rw [if_pos same, if_pos same]
        exact ih valid
      · rw [if_neg same, if_neg same]
        have kept : Kept cfg σ (σ.setNode ref { σ.node ref with archived, updatedAt := now }) := .setNode rfl rfl
        have changed := valid.kept kept
        obtain ⟨graph, set, marked⟩ := changed.setData found
        rw [set]
        have one : OneNode ref σ { σ.setNode ref { σ.node ref with archived, updatedAt := now } with graph } :=
          ⟨rfl, rfl, rfl, fun other apart => Heap.read_write_of_ne (Ne.symm apart) _⟩
        exact (one.accounts valid.toIndexed found).trans (ih marked)

theorem archiveEdges_accounts (archived : Bool) (ids : List String) {σ : Storage} (valid : σ.Valid cfg) :
    Accounts (σ.archivedEdges archived ids) σ (σ.archiveEdges archived ids).1 := by
  induction ids generalizing σ with
  | nil => exact ⟨rfl, rfl⟩
  | cons id ids ih =>
    rw [archivedEdges, archiveEdges]
    cases found : σ.edges.get? id with
    | none => exact ih valid
    | some ref =>
      dsimp only
      by_cases same : (σ.edge ref).archived = archived
      · rw [if_pos same, if_pos same]
        exact ih valid
      · rw [if_neg same, if_neg same]
        have changed : (σ.setEdge ref { σ.edge ref with archived }).Valid cfg :=
          valid.kept (.setEdge fun _ _ => ⟨rfl, rfl, rfl⟩)
        exact ((OneEdge.setEdge ref { σ.edge ref with archived } σ).accounts valid.toIndexed found).trans (ih changed)

theorem setNodesArchived_accounts (valid : σ.Valid cfg) (nodes : List (String × Datetime)) (archived : Bool) :
    Accounts (σ.archivedNodes archived nodes) σ (σ.setNodesArchived nodes archived).1 := by
  have accounts := archiveNodes_accounts archived nodes valid
  rw [setNodesArchived]
  generalize σ.archiveNodes archived nodes = done at accounts
  obtain ⟨υ, outcome⟩ := done
  cases outcome with
  | error error => exact accounts
  | ok found =>
    dsimp only
    split
    · exact accounts.save
    · exact accounts

theorem setEdgesArchived_accounts (valid : σ.Valid cfg) (ids : List String) (archived : Bool) :
    Accounts (σ.archivedEdges archived ids) σ (σ.setEdgesArchived ids archived).1 := by
  have accounts := archiveEdges_accounts archived ids valid
  rw [setEdgesArchived]
  dsimp only
  split
  · exact accounts.save
  · exact accounts

theorem dropped_dropEdge (id : String) (ref : Ref) (σ : Storage) : Dropped [] [id] σ (σ.dropEdge id ref) := by
  refine ⟨fun _ => rfl, fun other => ?_, rfl, rfl⟩
  simp only [dropEdge, OrderedDict.get?_erase, List.mem_singleton]

theorem dropped_deleteEachEdge (ids : List String) (σ : Storage) :
    Dropped [] (σ.deleteEachEdge ids).2 σ (σ.deleteEachEdge ids).1 := by
  induction ids generalizing σ with
  | nil => exact .refl σ
  | cons id ids ih =>
    rw [deleteEachEdge]
    split
    · exact ih σ
    · rename_i ref _
      exact (dropped_dropEdge id ref σ).trans (ih (σ.dropEdge id ref))

theorem Linked.added {refs : List Ref} (linked : Linked refs σ τ) : Added [] refs σ τ where
  nodeEntries := by rw [linked.nodes, List.map_nil, List.append_nil]
  edgeEntries := linked.edges
  keptNode ref _ := by rw [Storage.node, linked.nodeObjects]; rfl
  keptEdge := linked.others
  node ref := ⟨(σ.node ref).embedding, by rw [Storage.node, linked.nodeObjects]; rfl⟩
  edge := linked.ends

theorem Linked.accounts {ref : Ref} (linked : Linked [ref] σ τ) (indexed : σ.Indexed cfg) :
    Accounts [edgeCreated (σ.edge ref).id (τ.edge ref)] σ τ := by
  have found : τ.edges.get? (σ.edge ref).id = some ref := by
    rw [OrderedDict.get?_eq_some, linked.edges]
    exact List.mem_append_right _ (List.mem_singleton_self _)
  have accounts := linked.added.accounts indexed
  simp only [eachNode, eachEdge, List.map_nil, List.map_cons, List.filterMap_nil, List.filterMap_cons, found,
    Option.map_some, List.nil_append] at accounts
  exact accounts

/-- An `add_nodes` that fails before it puts in anything. -/
def StopsAtFirst (cfg : StorageConfig) (σ : Storage) : List Ref → List Ref → Prop
  | first :: _, _ => (σ.node first).id ∈ σ.nodes.keys
  | [], first :: _ => (σ.edge first).id ∈ σ.edges.keys ∨ ¬ Linkable cfg σ.nameToId σ (σ.edge first)
  | [], [] => False

/-- The call fails after it has changed nodes or edges, which it does not record. -/
def Loses (cfg : StorageConfig) (σ : Storage) : Action → Prop
  | .addNodes nodes edges _ => ¬ σ.Addable cfg nodes edges ∧ ¬ σ.StopsAtFirst cfg nodes edges
  | .deleteNodes ids confirmed => ids.length ≤ 10 ∧ confirmed = true ∧ ¬ Stackable (σ.known ids) σ.vectorStore
  | _ => False

/-- An edge that cannot be linked, or is there already, changes no edge of the graph. -/
theorem linkEach_stops {names : OrderedDict String String} {first : Ref} (rest : List Ref) (indexed : σ.Indexed cfg)
    (present : ∀ name id, names.get? name = some id → id ∈ σ.nodes.keys) (inside : first < σ.edgeObjects.size)
    (stops : (σ.edge first).id ∈ σ.edges.keys ∨ ¬ Linkable cfg names σ (σ.edge first)) :
    ∃ message, (σ.linkEach cfg names (first :: rest)).2 = some message ∧
      Untouched σ (σ.linkEach cfg names (first :: rest)).1 := by
  rw [linkEach]
  dsimp only
  cases atSource : σ.resolve names (σ.edge first).source with
  | none => exact ⟨_, rfl, .refl σ⟩
  | some source =>
    cases atTarget : σ.resolve names (σ.edge first).target with
    | none => exact ⟨_, rfl, .refl σ⟩
    | some target =>
      have relinked : Untouched σ (σ.setEdge first { σ.edge first with source, target }) :=
        .relink indexed (resolve_spec present atSource).2 (resolve_spec present atTarget).2
      dsimp only
      split
      · exact ⟨_, rfl, relinked⟩
      · rename_i new
        split
        · exact ⟨_, rfl, relinked⟩
        · rename_i valid
          rw [edge_setEdge inside] at valid
          exact absurd ⟨source, target, atSource, atTarget, valid⟩ (stops.resolve_left new)

theorem addNodes_stopsAtFirst (valid : σ.Valid cfg) {nodes edges : List Ref} (encoded : Option (List (List ℚ)))
    (inside : ∀ ref ∈ edges, ref < σ.edgeObjects.size) (stops : σ.StopsAtFirst cfg nodes edges) :
    Accounts [] σ (σ.addNodes cfg nodes edges encoded).1 ∧
      (σ.addNodes cfg nodes edges encoded).2.addedNodeIds = [] ∧
        (σ.addNodes cfg nodes edges encoded).2.addedEdgeIds = [] := by
  cases nodes with
  | cons first nodes =>
    have head : (first :: nodes).head? = some first := rfl
    obtain ⟨message, stopped⟩ := addNodes_stops cfg edges encoded head stops
    rw [stopped]
    exact ⟨⟨rfl, rfl⟩, rfl, rfl⟩
  | nil =>
    cases edges with
    | nil => exact stops.elim
    | cons first edges =>
      have unembedded : σ.withNodes cfg [] encoded = σ.save := by
        cases encoded with
        | none => rfl
        | some vectors =>
          rw [withNodes, updateNodesEmbeddings, if_pos rfl]
          rfl
      obtain ⟨message, failed, untouched⟩ := linkEach_stops edges valid.save.toIndexed (fun _ _ => nameToId_present)
        (inside first List.mem_cons_self) stops
      have accounts : Accounts [] σ (σ.save.linkEach cfg σ.nameToId (first :: edges)).1 :=
        ⟨untouched.accounts.nodes, untouched.accounts.edges⟩
      have none : New (([] : List Ref).map fun ref => (σ.node ref).id) σ.nodes.keys :=
        ⟨List.nodup_nil, fun _ no => (by cases no)⟩
      have names : (σ.putNodes cfg []).nameToId = σ.nameToId := rfl
      have failed' : (σ.save.linkEach cfg σ.nameToId (first :: edges)).2 = some message := failed
      rw [addNodes_of_new none, unembedded, names]
      generalize σ.save.linkEach cfg σ.nameToId (first :: edges) = done at *
      obtain ⟨υ, outcome⟩ := done
      obtain rfl : outcome = some message := failed'
      exact ⟨accounts, rfl, rfl⟩

end Storage

/-- The call replaces the graph by the file. -/
def Action.isLoad : Action → Bool
  | .load _ _ => true
  | _ => false

namespace Storage

/-- The records of a step that loses nothing tell of what it changed. -/
theorem Valid.accounts (valid : σ.Valid cfg) {action : Action} {reply : Reply} (mutates : action.isLoad = false)
    (keeps : ¬ Loses cfg σ action) (stepped : σ.step cfg action = some (τ, reply)) :
    Accounts (σ.emitted τ action reply) σ τ := by
  cases action with
  | load readable fresh => cases mutates
  | newNode node =>
    obtain rfl := congrArg Prod.fst (Option.some.inj stepped)
    exact .silent rfl rfl (fun id ref found => Heap.read_allocAll_of_lt (valid.node_held id ref found).1 [node])
      fun _ _ _ => rfl
  | newEdge edge =>
    obtain rfl := congrArg Prod.fst (Option.some.inj stepped)
    exact .silent rfl rfl (fun _ _ _ => rfl)
      fun id ref found => Heap.read_allocAll_of_lt (valid.edge_held id ref found).1 [edge]
  | saveDone landed =>
    obtain ⟨after, done, same⟩ := Option.map_eq_some_iff.mp stepped
    cases same
    rw [Storage.saveDone] at done
    split at done
    · cases done
    · cases done
      exact ⟨rfl, rfl⟩
  | addNodes nodes edges encoded =>
    rw [Storage.step] at stepped
    split at stepped
    · rename_i inside
      obtain rfl := congrArg Prod.fst (Option.some.inj stepped)
      obtain rfl := congrArg Prod.snd (Option.some.inj stepped)
      by_cases addable : σ.Addable cfg nodes edges
      · obtain ⟨added, ids, edgeIds⟩ :=
          addNodes_added inside.2 rfl ((addNodes_success_iff cfg nodes encoded inside.2).mpr addable)
        have accounts := added.accounts valid.toIndexed
        rw [← ids, ← edgeIds] at accounts
        exact accounts
      · have stops : σ.StopsAtFirst cfg nodes edges := not_not.mp fun goesOn => keeps ⟨addable, goesOn⟩
        obtain ⟨accounts, noNodes, noEdges⟩ := addNodes_stopsAtFirst valid encoded inside.2 stops
        simp only [Prod.map_snd, Prod.map_fst, emitted, noNodes, noEdges, eachNode, eachEdge, List.filterMap_nil,
          List.append_nil]
        exact accounts
    · cases stepped
  | updateNode id request =>
    obtain rfl := congrArg Prod.fst (Option.some.inj stepped)
    obtain rfl := congrArg Prod.snd (Option.some.inj stepped)
    rcases updateNode_cases valid id request with ⟨same, failed⟩ | ⟨ref, found, updated, one⟩
    · rw [Prod.map_snd, emitted_updateNode failed, Prod.map_fst, same]
      exact ⟨rfl, rfl⟩
    · rw [Prod.map_snd, updated]
      exact one.accounts valid.toIndexed found
  | setNodesArchived nodes archived =>
    obtain rfl := congrArg Prod.fst (Option.some.inj stepped)
    obtain rfl := congrArg Prod.snd (Option.some.inj stepped)
    exact setNodesArchived_accounts valid nodes archived
  | deleteNodes ids confirmed =>
    obtain rfl := congrArg Prod.fst (Option.some.inj stepped)
    obtain rfl := congrArg Prod.snd (Option.some.inj stepped)
    by_cases accepted : ids.length ≤ 10 ∧ confirmed = true
    · obtain ⟨short, rfl⟩ := accepted
      obtain ⟨deleted, dropped, _, told⟩ := deleteNodes_confirmed valid short
      obtain ⟨deletedIds, affected⟩ := told (not_not.mp fun uneven => keeps ⟨short, rfl, uneven⟩)
      have accounts := dropped.accounts
      rw [← deletedIds, ← affected] at accounts
      exact accounts
    · have failed : (σ.deleteNodes cfg ids confirmed).2.success = false := by
        rw [← Bool.not_eq_true, deleteNodes_success_iff]
        exact fun success => accepted ⟨success.1, success.2.1⟩
      obtain ⟨noNodes, noEdges, unchanged⟩ := deleteNodes_failed failed
      simp only [Prod.map_snd, Prod.map_fst, emitted, noNodes, noEdges, eachNode, eachEdge, List.filterMap_nil,
        List.append_nil, unchanged accepted]
      exact ⟨rfl, rfl⟩
  | updateEdge id updates =>
    obtain rfl := congrArg Prod.fst (Option.some.inj stepped)
    obtain rfl := congrArg Prod.snd (Option.some.inj stepped)
    rcases updateEdge_cases cfg id updates σ with ⟨same, failed⟩ | ⟨ref, found, updated, one⟩
    · rw [Prod.map_snd, emitted_updateEdge failed, Prod.map_fst, same]
      exact ⟨rfl, rfl⟩
    · rw [Prod.map_snd, updated]
      exact one.accounts valid.toIndexed found
  | setEdgesArchived ids archived =>
    obtain rfl := congrArg Prod.fst (Option.some.inj stepped)
    obtain rfl := congrArg Prod.snd (Option.some.inj stepped)
    exact setEdgesArchived_accounts valid ids archived
  | deleteEdge id =>
    obtain rfl := congrArg Prod.fst (Option.some.inj stepped)
    obtain rfl := congrArg Prod.snd (Option.some.inj stepped)
    cases found : σ.edges.get? id with
    | none =>
      have same : σ.deleteEdge id = (σ, false) := by rw [Storage.deleteEdge, found]
      rw [same]
      exact ⟨rfl, rfl⟩
    | some ref =>
      have same : σ.deleteEdge id = ((σ.dropEdge id ref).save, true) := by rw [Storage.deleteEdge, found]
      have accounts := (dropped_dropEdge id ref σ).accounts.save
      rw [eachNode, List.filterMap_nil, List.append_nil] at accounts
      rw [same]
      exact accounts
  | deleteEdges ids =>
    obtain rfl := congrArg Prod.fst (Option.some.inj stepped)
    obtain rfl := congrArg Prod.snd (Option.some.inj stepped)
    have accounts := (dropped_deleteEachEdge ids σ).accounts.save
    rw [eachNode, List.filterMap_nil, List.append_nil] at accounts
    exact accounts
  | addEdge edge =>
    rw [Storage.step] at stepped
    split at stepped
    · rename_i inside
      obtain rfl := congrArg Prod.fst (Option.some.inj stepped)
      obtain rfl := congrArg Prod.snd (Option.some.inj stepped)
      rcases addEdge_cases valid inside with ⟨untouched, failed⟩ | ⟨υ, same, linked⟩
      · rw [Prod.map_snd, emitted_addEdge failed]
        exact untouched.accounts
      · rw [same]
        exact (linked.accounts valid.toIndexed).save
    · cases stepped

/-- The history of a run. -/
def recorded (history : List (Action × Reply × List HistoryRecord)) : List HistoryRecord :=
  history.flatMap fun taken => taken.2.2

/-- The history, folded from nothing, gives the nodes and the edges. -/
structure Replayed (records : List HistoryRecord) (σ : Storage) : Prop where
  nodes : ∀ id, replay (entriesOf .node records) (fun _ => none) id = σ.nodeStates id
  edges : ∀ id, replay (entriesOf .edge records) (fun _ => none) id = σ.edgeStates id

theorem Replayed.of_accounts {records : List HistoryRecord} (accounts : Accounts records {} σ) : Replayed records σ where
  nodes id := congrFun accounts.nodes id
  edges id := congrFun accounts.edges id

/-- No load, and every call that may lose something reports a success. -/
def succeeds (cfg : StorageConfig) (σ : Storage) : Action → Bool
  | .load _ _ => false
  | .addNodes nodes edges encoded =>
    edges.all (· < σ.edgeObjects.size) && (σ.addNodes cfg nodes edges encoded).2.success
  | .deleteNodes ids confirmed => (σ.deleteNodes cfg ids confirmed).2.success
  | _ => true

theorem keeps_of_succeeds {action : Action} (success : succeeds cfg σ action = true) :
    action.isLoad = false ∧ ¬ Loses cfg σ action := by
  cases action with
  | load readable fresh => cases success
  | addNodes nodes edges encoded =>
    rw [succeeds, Bool.and_eq_true, List.all_eq_true] at success
    refine ⟨rfl, fun loses => loses.1 ?_⟩
    exact (addNodes_success_iff cfg nodes encoded fun ref member => of_decide_eq_true (success.1 ref member)).mp success.2
  | deleteNodes ids confirmed =>
    exact ⟨rfl, fun loses => loses.2.2 ((deleteNodes_success_iff cfg ids confirmed σ).mp success).2.2.2⟩
  | _ => exact ⟨rfl, not_false⟩

end Storage

end MetadataGraph.Graph
