import MetadataGraph.Federation.Models
import MetadataGraph.Graph.Representation

namespace MetadataGraph.Federation

open Runs MetadataGraph.Graph

section Payload

variable (b : Builtins) (r : Readers) (graph : FederationGraphConfig)

/-- The node that an item stands for, with its origin id; a malformed item stands for none. -/
def wellFormedNode (item : Item) : Option (String × Node) :=
  match loadNode b r graph item with
  | .ok (originId, some node) => some (originId, node)
  | _ => none

/-- The edge that an item stands for, its endpoints read as origin ids of the same graph. -/
def wellFormedEdge (item : Item) : Option (String × Edge) := do
  let sourceEdge ← readObject item.1
  let edge ← buildEdge b r graph item.2 sourceEdge (federatedId graph (b.str (sourceEdge.get "source")))
    (federatedId graph (b.str (sourceEdge.get "target")))
  edge

def originOf (item : Item) : Option String :=
  (readObject item.1).map fun sourceNode => b.str (sourceNode.get "id")

/-- The origin ids that the items of a nodes list give, well formed or not. -/
def origins (items : List Item) : List String := items.filterMap (originOf b)

def Linked (ids : List String) (edge : String × Edge) : Bool := edge.2.source ∈ ids ∧ edge.2.target ∈ ids

def NodeReadable (item : Item) : Prop :=
  ∃ sourceNode metadata, readObject item.1 = some sourceNode ∧ b.metadata (sourceNode.get "metadata") = some metadata

/-- The metadata of an edge is unpacked only if both endpoints are listed. -/
def EdgeReadable (listed : List String) (item : Item) : Prop :=
  ∃ sourceEdge, readObject item.1 = some sourceEdge ∧
    (b.str (sourceEdge.get "source") ∈ listed → b.str (sourceEdge.get "target") ∈ listed →
      ∃ metadata, unpack (sourceEdge.get "metadata") = some metadata)

def wellFormedIds (nodes : List Item) : List String :=
  (nodes.filterMap (wellFormedNode b r graph)).map fun node => federatedId graph node.1

def listedIds (nodes : List Item) : List String := (origins b nodes).map (federatedId graph)

/-- The well-formed edges between listed endpoints: those that the loop keeps. -/
def listedEdges (nodes edges : List Item) : List (String × Edge) :=
  (edges.filterMap (wellFormedEdge b r graph)).filter (Linked (listedIds b graph nodes))

/-- One graph's name goes on where the other's ends, in step with the two origin ids. -/
def Overlap (g a h b : String) : Prop := ∃ rest, h = g ++ rest ∧ "::" ++ a = rest ++ "::" ++ b

/-- The sync has cached the well-formed nodes and the well-formed edges between cached nodes,
each of them and nothing else, and none of the nodes under an id of another graph. -/
structure CachesExactly (nodes edges : List Item) (m : FederationManager) (result : SyncResult) : Prop where
  success : result.success = true
  nodes : (m.cache graph.graphId).nodes.entries.Perm
    ((nodes.filterMap (wellFormedNode b r graph)).map fun node => (federatedId graph node.1, node.2))
  edges : (m.cache graph.graphId).edges.entries.Perm
    ((edges.filterMap (wellFormedEdge b r graph)).filter (Linked (m.cache graph.graphId).nodes.keys))
  apart : ∀ other ∈ m.graphs, other.graphId ≠ graph.graphId → ∀ id ∈ (m.cache graph.graphId).nodes.keys,
    id ∉ (m.cache other.graphId).nodes.keys

/-- What the items of a payload and the caches of the other graphs have to be like. -/
structure Clean (nodes edges : List Item) (m : FederationManager) : Prop where
  nodesRead : ∀ item ∈ nodes, NodeReadable b item
  edgesRead : ∀ item ∈ edges, EdgeReadable b (origins b nodes) item
  nodeIds : ((nodes.filterMap (wellFormedNode b r graph)).map Prod.fst).Nodup
  edgeIds : (((listedEdges b r graph nodes edges).filter (Linked (wellFormedIds b r graph nodes))).map Prod.fst).Nodup
  overwritten : ∀ before edge after, listedEdges b r graph nodes edges = before ++ edge :: after →
    Linked (wellFormedIds b r graph nodes) edge = false →
      ∃ later ∈ after, later.1 = edge.1 ∧ Linked (wellFormedIds b r graph nodes) later = true
  apart : ∀ node ∈ nodes.filterMap (wellFormedNode b r graph), ∀ other ∈ m.graphs, other.graphId ≠ graph.graphId →
    ∀ originId, federatedId other originId ∈ (m.cache other.graphId).nodes.keys →
      ¬ Overlap graph.graphId node.1 other.graphId originId ∧ ¬ Overlap other.graphId originId graph.graphId node.1

end Payload

theorem federatedId_eq_iff {graph other : FederationGraphConfig} {a b : String} :
    federatedId graph a = federatedId other b ↔
      Overlap graph.graphId a other.graphId b ∨ Overlap other.graphId b graph.graphId a := by
  have split : federatedId graph a = federatedId other b ↔
      graph.graphId.toList ++ ("::" ++ a).toList = other.graphId.toList ++ ("::" ++ b).toList := by
    simp only [federatedId, ← String.toList_inj, String.toList_append, List.append_assoc, List.append_cancel_left_eq]
  have lists : ∀ {g a h b : String}, (∃ rest, h.toList = g.toList ++ rest ∧ ("::" ++ a).toList = rest ++ ("::" ++ b).toList) ↔
      Overlap g a h b := by
    intro g a h b
    constructor
    · rintro ⟨rest, name, origin⟩
      refine ⟨.ofList rest, ?_, ?_⟩
      · rw [← String.toList_inj, name, String.toList_append, String.toList_ofList]
      · rw [← String.toList_inj, origin, String.append_assoc, String.toList_append (s := .ofList rest), String.toList_ofList]
    · rintro ⟨rest, rfl, origin⟩
      exact ⟨rest.toList, String.toList_append, by rw [origin, String.append_assoc, String.toList_append]⟩
  rw [split, List.append_eq_append_iff, lists, lists]

theorem federatedId_inj {graph : FederationGraphConfig} {a b : String} : federatedId graph a = federatedId graph b ↔ a = b := by
  simp only [federatedId, ← String.toList_inj, String.toList_append, List.append_cancel_left_eq]

theorem federatedId_ne_empty (graph : FederationGraphConfig) (a : String) : federatedId graph a ≠ "" := by
  intro empty
  have lengths := congrArg String.length empty
  simp [federatedId, String.length_append] at lengths

theorem mapM_eq_ok {ε α β : Type} {f : α → Except ε β} {l : List α} {ys : List β} :
    l.mapM f = .ok ys ↔ List.Forall₂ (fun x y => f x = .ok y) l ys := by
  induction l generalizing ys with
  | nil =>
    rw [List.mapM_nil, List.forall₂_nil_left_iff]
    constructor
    · intro same
      cases same
      rfl
    · rintro rfl
      rfl
  | cons x l ih =>
    rw [List.mapM_cons, List.forall₂_cons_left_iff]
    cases first : f x with
    | error e =>
      constructor
      · intro no
        cases no
      · rintro ⟨y, rest, no, -⟩
        cases no
    | ok y =>
      cases others : l.mapM f with
      | error e =>
        constructor
        · intro no
          cases no
        · rintro ⟨y, rest, -, all, -⟩
          rw [ih.mpr all] at others
          cases others
      | ok rest =>
        constructor
        · intro same
          cases same
          exact ⟨y, rest, rfl, ih.mp others, rfl⟩
        · rintro ⟨y', rest', same, all, rfl⟩
          cases same
          rw [ih.mpr all] at others
          cases others
          rfl

/-- Every item of a list is read, or the first that is not fails the whole list. -/
theorem exists_mapM_eq_ok {ε α β : Type} {f : α → Except ε β} {l : List α} :
    (∃ ys, l.mapM f = .ok ys) ↔ ∀ x ∈ l, ∃ y, f x = .ok y := by
  simp only [mapM_eq_ok]
  induction l with
  | nil => simp
  | cons x l ih =>
    rw [List.forall_mem_cons, ← ih]
    constructor
    · rintro ⟨ys, all⟩
      obtain ⟨y, rest, first, others, -⟩ := List.forall₂_cons_left_iff.mp all
      exact ⟨⟨y, first⟩, rest, others⟩
    · rintro ⟨⟨y, first⟩, rest, others⟩
      exact ⟨y :: rest, .cons first others⟩

section Build

variable {b : Builtins} {r : Readers} {graph : FederationGraphConfig}

variable (r graph) in
theorem exists_loadNode_iff {item : Item} : (∃ loaded, loadNode b r graph item = .ok loaded) ↔ NodeReadable b item := by
  rw [loadNode]
  constructor
  · rintro ⟨loaded, read⟩
    split at read
    · rename_i sourceNode object
      dsimp only at read
      split at read
      · rename_i metadata unpacked
        exact ⟨sourceNode, metadata, object, unpacked⟩
      · cases read
    · cases read
  · rintro ⟨sourceNode, metadata, object, unpacked⟩
    simp only [object, unpacked]
    exact ⟨_, rfl⟩

theorem loadNode_origin {item : Item} {loaded : String × Option Node} (read : loadNode b r graph item = .ok loaded) :
    originOf b item = some loaded.1 := by
  rw [loadNode] at read
  split at read
  · rename_i sourceNode object
    dsimp only at read
    split at read
    · cases read
      rw [originOf, object]
      rfl
    · cases read
  · cases read

variable {items : List Item} {loaded : List (String × Option Node)}

theorem loadedOrigins (read : List.Forall₂ (fun item load => loadNode b r graph item = .ok load) items loaded) :
    origins b items = loaded.map Prod.fst := by
  induction read with
  | nil => rfl
  | cons first _ ih =>
    rw [origins, List.filterMap_cons_some (loadNode_origin first), List.map_cons, ← ih]
    rfl

theorem cachedNodes_eq (read : List.Forall₂ (fun item load => loadNode b r graph item = .ok load) items loaded) :
    cachedNodes graph loaded =
      (items.filterMap (wellFormedNode b r graph)).map fun node => (federatedId graph node.1, node.2) := by
  induction read with
  | nil => rfl
  | @cons item load items loaded first _ ih =>
    obtain ⟨originId, node⟩ := load
    cases node with
    | none =>
      have skipped : wellFormedNode b r graph item = none := by rw [wellFormedNode, first]
      rw [List.filterMap_cons_none skipped, ← ih]
      rfl
    | some node =>
      have built : wellFormedNode b r graph item = some (originId, node) := by rw [wellFormedNode, first]
      rw [List.filterMap_cons_some built, List.map_cons, ← ih]
      rfl

theorem get?_idMapping (originId : String) :
    (idMapping graph loaded).get? originId =
      if originId ∈ loaded.map Prod.fst then some (federatedId graph originId) else none := by
  split
  · rename_i listed
    have key : originId ∈ (idMapping graph loaded).keys := by
      rw [idMapping, OrderedDict.mem_keys_ofList, List.map_map]
      exact listed
    obtain ⟨id, found⟩ := OrderedDict.mem_keys.mp key
    obtain ⟨load, member, same⟩ := List.mem_map.mp (OrderedDict.mem_of_get?_ofList found)
    cases same
    exact found
  · rename_i absent
    rw [OrderedDict.get?_eq_none, idMapping, OrderedDict.mem_keys_ofList, List.map_map]
    exact absent

theorem buildEdge_ends {fresh : Fresh} {sourceEdge : Dict Json} {source target : String} {edge : String × Edge}
    (built : buildEdge b r graph fresh sourceEdge source target = some (some edge)) :
    edge.2.source = source ∧ edge.2.target = target := by
  rw [buildEdge] at built
  obtain ⟨metadata, -, made⟩ := Option.map_eq_some_iff.mp built
  obtain ⟨edge, read, rfl⟩ := Option.map_eq_some_iff.mp made
  have entry : ∀ key value, (key, value) ∈ [("source", Json.str source), ("target", .str target)] →
      (edgePayload graph (federatedId graph (edgeOrigin b sourceEdge source target)) source target sourceEdge
        metadata)[key]? = some value := by
    intro key value member
    refine Dict.getElem?_of (by simp) ?_
    simp only [List.mem_cons] at member ⊢
    tauto
  have atSource := entry "source" (.str source) (by simp)
  have atTarget := entry "target" (.str target) (by simp)
  simp only [Edge.fromDict, atSource, atTarget, Json.string?_str, Option.bind_eq_bind, Option.bind_some,
    Option.bind_eq_some_iff] at read
  obtain ⟨_, -, _, -, _, -, _, -, _, -, _, -, same⟩ := read
  cases same
  exact ⟨rfl, rfl⟩

theorem linked_wellFormedEdge {item : Item} {sourceEdge : Dict Json} {edge : String × Edge} {ids : List String}
    (object : readObject item.1 = some sourceEdge) (formed : wellFormedEdge b r graph item = some edge) :
    Linked ids edge = true ↔ federatedId graph (b.str (sourceEdge.get "source")) ∈ ids ∧
      federatedId graph (b.str (sourceEdge.get "target")) ∈ ids := by
  simp only [wellFormedEdge, object, Option.bind_eq_bind, Option.bind_some, Option.bind_eq_some_iff] at formed
  obtain ⟨built, made, rfl⟩ := formed
  obtain ⟨source, target⟩ := buildEdge_ends made
  rw [Linked, source, target, decide_eq_true_iff]

/-- The loop keeps the edge that an item stands for, if both its endpoints are listed. -/
theorem loadEdge_eq {item : Item} {edge : Option (String × Edge)}
    (read : loadEdge b r graph (idMapping graph loaded) item = .ok edge) :
    edge = (wellFormedEdge b r graph item).filter (Linked ((loaded.map Prod.fst).map (federatedId graph))) := by
  cases object : readObject item.1 with
  | none =>
    rw [loadEdge, object] at read
    cases read
  | some sourceEdge =>
    have linked : ∀ {edge}, wellFormedEdge b r graph item = some edge →
        (Linked ((loaded.map Prod.fst).map (federatedId graph)) edge = true ↔
          b.str (sourceEdge.get "source") ∈ loaded.map Prod.fst ∧ b.str (sourceEdge.get "target") ∈ loaded.map Prod.fst) := by
      intro edge formed
      have injective : Function.Injective (federatedId graph) := fun _ _ => federatedId_inj.mp
      rw [linked_wellFormedEdge object formed, List.mem_map_of_injective injective, List.mem_map_of_injective injective]
    rw [loadEdge, object] at read
    simp only [get?_idMapping] at read
    by_cases ends : b.str (sourceEdge.get "source") ∈ loaded.map Prod.fst ∧
        b.str (sourceEdge.get "target") ∈ loaded.map Prod.fst
    · simp only [if_pos ends.1, if_pos ends.2, federatedId_ne_empty, or_self, if_false] at read
      have formed : wellFormedEdge b r graph item = edge := by
        simp only [wellFormedEdge, object, Option.bind_eq_bind, Option.bind_some]
        split at read
        · rename_i built made
          cases read
          rw [made, Option.bind_some]
        · cases read
      rw [formed]
      cases edge with
      | none => rfl
      | some edge => rw [Option.filter_some, if_pos ((linked formed).mpr ends)]
    · have skipped : edge = none := by
        split at read
        · rename_i source target
          split at source
          · rename_i listed
            split at target
            · rename_i listed'
              exact absurd ⟨listed, listed'⟩ ends
            · cases target
          · cases source
        · cases read
          rfl
      rw [skipped]
      cases formed : wellFormedEdge b r graph item with
      | none => rfl
      | some edge => rw [Option.filter_some, if_neg fun kept => ends ((linked formed).mp kept)]

variable (r graph) in
theorem exists_loadEdge_iff {item : Item} : (∃ edge, loadEdge b r graph (idMapping graph loaded) item = .ok edge) ↔
    EdgeReadable b (loaded.map Prod.fst) item := by
  rw [EdgeReadable, loadEdge]
  cases object : readObject item.1 with
  | none =>
    constructor
    · rintro ⟨edge, no⟩
      cases no
    · rintro ⟨sourceEdge, no, -⟩
      cases no
  | some sourceEdge =>
    simp only [get?_idMapping]
    generalize loaded.map Prod.fst = listed
    by_cases source : b.str (sourceEdge.get "source") ∈ listed
    · by_cases target : b.str (sourceEdge.get "target") ∈ listed
      · simp only [if_pos source, if_pos target, federatedId_ne_empty, or_self, if_false, buildEdge]
        cases unpacked : unpack (sourceEdge.get "metadata") with
        | none => simp [source, target, unpacked]
        | some metadata => simp [unpacked]
      · simp [source, target]
    · simp [source]

theorem wellFormedIds_subset (items : List Item) : wellFormedIds b r graph items ⊆ listedIds b graph items := by
  intro id member
  obtain ⟨node, formed, rfl⟩ := List.mem_map.mp member
  obtain ⟨item, listed, made⟩ := List.mem_filterMap.mp formed
  refine List.mem_map_of_mem (List.mem_filterMap.mpr ⟨item, listed, ?_⟩)
  rw [wellFormedNode] at made
  split at made
  · rename_i read
    cases made
    exact loadNode_origin read
  · cases made

theorem Linked.mono {ids wider : List String} (subset : ids ⊆ wider) {edge : String × Edge}
    (linked : Linked ids edge = true) : Linked wider edge = true := by
  rw [Linked, decide_eq_true_iff] at linked ⊢
  exact ⟨subset linked.1, subset linked.2⟩

theorem Linked.congr {ids others : List String} (same : ∀ id, id ∈ ids ↔ id ∈ others) : Linked ids = Linked others := by
  funext edge
  simp only [Linked, same]

theorem loadedEdges_eq {edges : List Item} {kept : List (Option (String × Edge))}
    (read : List.Forall₂ (fun item edge => loadEdge b r graph (idMapping graph loaded) item = .ok edge) edges kept) :
    kept.filterMap id =
      (edges.filterMap (wellFormedEdge b r graph)).filter (Linked ((loaded.map Prod.fst).map (federatedId graph))) := by
  induction read with
  | nil => rfl
  | @cons item edge edges kept first _ ih =>
    have step := loadEdge_eq first
    cases formed : wellFormedEdge b r graph item with
    | none =>
      rw [formed] at step
      rw [step, List.filterMap_cons_none formed, ← ih]
      rfl
    | some edge =>
      rw [formed, Option.filter_some] at step
      rw [List.filterMap_cons_some formed, List.filter_cons, ← ih, step]
      split <;> rfl

theorem mem_keys_cachedNodes {id : String} :
    id ∈ (OrderedDict.ofList ((items.filterMap (wellFormedNode b r graph)).map fun node =>
      (federatedId graph node.1, node.2))).keys ↔ id ∈ wellFormedIds b r graph items := by
  rw [OrderedDict.mem_keys_ofList, List.map_map]
  rfl

/-- The well-formed edges between cached nodes are among those that the loop keeps. -/
theorem linkedEdges_eq (nodes edges : List Item) :
    (edges.filterMap (wellFormedEdge b r graph)).filter (Linked (wellFormedIds b r graph nodes)) =
      (listedEdges b r graph nodes edges).filter (Linked (wellFormedIds b r graph nodes)) := by
  rw [listedEdges, List.filter_filter]
  refine List.filter_congr fun edge _ => ?_
  rw [Bool.eq_iff_iff, Bool.and_eq_true]
  exact ⟨fun linked => ⟨linked, Linked.mono (wellFormedIds_subset nodes) linked⟩, And.left⟩

theorem nodes_exact_iff : (OrderedDict.ofList ((items.filterMap (wellFormedNode b r graph)).map fun node =>
      (federatedId graph node.1, node.2))).entries.Perm
        ((items.filterMap (wellFormedNode b r graph)).map fun node => (federatedId graph node.1, node.2)) ↔
      ((items.filterMap (wellFormedNode b r graph)).map Prod.fst).Nodup := by
  have injective : Function.Injective (federatedId graph) := fun _ _ => federatedId_inj.mp
  have ids : ((items.filterMap (wellFormedNode b r graph)).map fun node => (federatedId graph node.1, node.2)).map
      Prod.fst = ((items.filterMap (wellFormedNode b r graph)).map Prod.fst).map (federatedId graph) := by
    rw [List.map_map, List.map_map]
    rfl
  rw [OrderedDict.entries_ofList_perm, ids, List.nodup_map_iff injective]

theorem edges_exact_iff {nodes edges : List Item} {cached : List String}
    (keys : ∀ id, id ∈ cached ↔ id ∈ wellFormedIds b r graph nodes) :
    (OrderedDict.ofList (listedEdges b r graph nodes edges)).entries.Perm
        ((edges.filterMap (wellFormedEdge b r graph)).filter (Linked cached)) ↔
      (((listedEdges b r graph nodes edges).filter (Linked (wellFormedIds b r graph nodes))).map Prod.fst).Nodup ∧
        ∀ before edge after, listedEdges b r graph nodes edges = before ++ edge :: after →
          Linked (wellFormedIds b r graph nodes) edge = false →
            ∃ later ∈ after, later.1 = edge.1 ∧ Linked (wellFormedIds b r graph nodes) later = true := by
  rw [Linked.congr keys, linkedEdges_eq, OrderedDict.entries_ofList_perm_filter]

/-- What a payload has to be like for the cache to be built, and the cache that is built. -/
theorem buildCache_eq_ok {fresh : ℕ → Fresh} {sourceNodes sourceEdges : List Json} {nodes edges : List Item}
    (nodesStamped : stamp fresh 0 sourceNodes = nodes) (edgesStamped : stamp fresh sourceNodes.length sourceEdges = edges)
    {built : OrderedDict String Node × OrderedDict String Edge} :
    buildCache b r graph fresh sourceNodes sourceEdges = .ok built ↔
      (∀ item ∈ nodes, NodeReadable b item) ∧ (∀ item ∈ edges, EdgeReadable b (origins b nodes) item) ∧
        built = (.ofList ((nodes.filterMap (wellFormedNode b r graph)).map fun node => (federatedId graph node.1, node.2)),
          .ofList (listedEdges b r graph nodes edges)) := by
  rw [buildCache, nodesStamped, edgesStamped]
  simp only [← exists_loadNode_iff r graph, ← exists_mapM_eq_ok]
  cases nodesRead : nodes.mapM (loadNode b r graph) with
  | error e =>
    constructor
    · intro no
      cases no
    · rintro ⟨⟨loaded, no⟩, -⟩
      cases no
  | ok loaded =>
    have forall₂ := mapM_eq_ok.mp nodesRead
    simp only [loadedOrigins forall₂, ← exists_loadEdge_iff r graph, ← exists_mapM_eq_ok]
    cases edgesRead : edges.mapM (loadEdge b r graph (idMapping graph loaded)) with
    | error e =>
      simp only [bind, Except.bind, edgesRead]
      constructor
      · intro no
        cases no
      · rintro ⟨-, ⟨kept, no⟩, -⟩
        cases no
    | ok kept =>
      simp only [bind, Except.bind, edgesRead]
      rw [listedEdges, listedIds, loadedOrigins forall₂, ← loadedEdges_eq (mapM_eq_ok.mp edgesRead),
        ← cachedNodes_eq forall₂]
      constructor
      · intro same
        cases same
        exact ⟨⟨loaded, rfl⟩, ⟨kept, rfl⟩, rfl⟩
      · rintro ⟨-, -, rfl⟩
        rfl

end Build

namespace FederationManager

variable {b : Builtins} {r : Readers} {m : FederationManager}

def step (b : Builtins) (r : Readers) (m : FederationManager) (request : Request) :
    Option (FederationManager × SyncResult × Emitted) := some (m.syncGraph b r request)

/-- Every cached node is filed under a federated id of its own graph. -/
def Filed (m : FederationManager) : Prop :=
  ∀ graph ∈ m.graphs, ∀ id ∈ (m.cache graph.graphId).nodes.keys, ∃ originId, id = federatedId graph originId

theorem Filed.init (graphs : List FederationGraphConfig) (distinct : (graphs.map FederationGraphConfig.graphId).Nodup) :
    (FederationManager.init graphs distinct).Filed := by
  intro graph configured id key
  rw [FederationManager.init] at key
  dsimp only at key
  split at key <;> cases key

theorem Filed.syncGraph (filed : m.Filed) (request : Request) : (m.syncGraph b r request).1.Filed := by
  by_cases known : ∃ graph ∈ m.graphs, request.graphId = graph.graphId
  · obtain ⟨synced, configured, asked⟩ := known
    rw [syncGraph_eq configured asked]
    intro graph listed id key
    dsimp only at listed key
    by_cases same : graph.graphId = synced.graphId
    · obtain rfl := List.inj_on_of_nodup_map m.distinct listed configured same
      rw [Function.update_self] at key
      rcases FederatedGraphCache.sync_cases b r graph request.fetched request.moment
        (m.cache graph.graphId) with ⟨_, _, _, built, -, -, made, swap⟩ | ⟨after, _, failed, -, nodes, -⟩
      · rw [swap] at key
        rw [((buildCache_eq_ok rfl rfl).mp made).2.2, FederatedGraphCache.swapped] at key
        obtain ⟨node, -, rfl⟩ := List.mem_map.mp (List.map_map ▸ OrderedDict.mem_keys_ofList.mp key)
        exact ⟨node.1, rfl⟩
      · rw [failed] at key
        dsimp only at key
        rw [nodes] at key
        exact filed graph listed id key
    · rw [Function.update_of_ne same] at key
      exact filed graph listed id key
  · rw [syncGraph_unknown fun graph configured same => known ⟨graph, configured, same⟩]
    exact filed

theorem graphs_syncGraph (request : Request) : (m.syncGraph b r request).1.graphs = m.graphs := by
  rw [FederationManager.syncGraph]
  split <;> rfl

variable {graphs : List FederationGraphConfig} {distinct : (graphs.map FederationGraphConfig.graphId).Nodup}
variable {history : List (Request × SyncResult × Emitted)}

theorem reached (run : Run (step b r) (fun _ _ _ => True) (.init graphs distinct) history m) :
    m.graphs = graphs ∧ m.Filed := by
  refine run.invariant (fun _ m => m.graphs = graphs ∧ m.Filed) ⟨rfl, Filed.init graphs distinct⟩ ?_
  intro _ m request t output kept _ stepped
  obtain rfl : t = (m.syncGraph b r request).1 := (congrArg Prod.fst (Option.some.inj stepped)).symm
  exact ⟨(graphs_syncGraph request).trans kept.1, kept.2.syncGraph request⟩

variable {graph : FederationGraphConfig} {request : Request} {payload : Json} {nodes edges : List Json}

/-- A sync of two lists caches exactly the well-formed nodes and the well-formed edges between
them, under ids of their own, if and only if the lists are clean. -/
theorem sync_integrity_iff (run : Run (step b r) (fun _ _ _ => True) (.init graphs distinct) history m)
    (configured : graph ∈ graphs) (enabled : graph.enabled = true) (url : graph.graphJsonUrl.getD "" ≠ "")
    (asked : request.graphId = graph.graphId) (fetched : request.fetched = .ok payload)
    (lists : readPayload payload = .ok (nodes, edges)) :
    CachesExactly b r graph (stamp request.moment.fresh 0 nodes) (stamp request.moment.fresh nodes.length edges)
        (m.syncGraph b r request).1 (m.syncGraph b r request).2.1 ↔
      Clean b r graph (stamp request.moment.fresh 0 nodes) (stamp request.moment.fresh nodes.length edges) m := by
  obtain ⟨rfl, filed⟩ := reached run
  rw [syncGraph_eq configured asked, fetched]
  cases made : buildCache b r graph request.moment.fresh nodes edges with
  | error error =>
    rw [FederatedGraphCache.sync_of_unbuilt enabled url lists made]
    constructor
    · intro exactly
      cases exactly.success
    · intro clean
      have built : buildCache b r graph request.moment.fresh nodes edges = .ok _ :=
        (buildCache_eq_ok rfl rfl).mpr ⟨clean.nodesRead, clean.edgesRead, rfl⟩
      rw [made] at built
      cases built
  | ok built =>
    rw [FederatedGraphCache.sync_of_built enabled url lists made]
    obtain ⟨nodesRead, edgesRead, rfl⟩ := (buildCache_eq_ok rfl rfl).mp made
    have keys : ∀ id, id ∈ (OrderedDict.ofList _).keys ↔ id ∈ wellFormedIds b r graph (stamp request.moment.fresh 0 nodes) :=
      fun id => mem_keys_cachedNodes
    constructor
    · rintro ⟨-, nodePerm, edgePerm, apart⟩
      simp only [Function.update_self, FederatedGraphCache.swapped] at nodePerm edgePerm apart
      obtain ⟨edgeIds, overwritten⟩ := (edges_exact_iff keys).mp edgePerm
      refine ⟨nodesRead, edgesRead, nodes_exact_iff.mp nodePerm, edgeIds, overwritten, ?_⟩
      intro node formed other configured' differ originId cached
      have own := (keys _).mpr (List.mem_map_of_mem formed)
      have clash := apart other configured' differ _ own
      rw [Function.update_of_ne differ] at clash
      rw [← not_or, ← federatedId_eq_iff]
      intro same
      exact clash (same ▸ cached)
    · rintro ⟨-, -, nodeIds, edgeIds, overwritten, apart⟩
      constructor
      · rfl
      · simp only [Function.update_self, FederatedGraphCache.swapped]
        exact nodes_exact_iff.mpr nodeIds
      · simp only [Function.update_self, FederatedGraphCache.swapped]
        exact (edges_exact_iff keys).mpr ⟨edgeIds, overwritten⟩
      · intro other configured' differ id own
        simp only [Function.update_self, FederatedGraphCache.swapped] at own
        simp only [Function.update_of_ne differ]
        intro cached
        obtain ⟨node, formed, rfl⟩ := List.mem_map.mp ((keys id).mp own)
        obtain ⟨originId, same⟩ := filed other configured' _ cached
        have parts := apart node formed other configured' differ originId (same ▸ cached)
        exact (federatedId_eq_iff.mp same).elim parts.1 parts.2

end FederationManager

def sampleBuiltins : Builtins where
  str
    | .str s => s
    | .bool true => "True"
    | .bool false => "False"
    | _ => "None"
  dict _ := none
  refusal _ := "object has no attribute 'get'"
  str_str _ := rfl

def samplePartner : FederationGraphConfig where
  graphId := "partner"
  displayName := "Partner"
  graphJsonUrl := some "https://partner.example/graph.json"

def sampleMoment : Moment where
  fresh _ := { id := "fresh", now := epoch }
  now := epoch
  nodeOrder := { order := id, perm := fun _ => .refl _ }
  edgeOrder := { order := id, perm := fun _ => .refl _ }

def sampleNode (id name : String) : Json := .obj [("id", .str id), ("name", .str name)]

def sampleEdges : List Json := [.obj [("id", .str "e1"), ("source", .str "n1"), ("target", .str "n2")]]

def twoNodes : List Json := [sampleNode "n1" "One", sampleNode "n2" "Two"]

private def oneMalformed : List Json := [sampleNode "n1" "One", sampleNode "n2" ""]

theorem one_distinct : ([samplePartner].map FederationGraphConfig.graphId).Nodup := by decide

private def samplePayload (nodes : List Json) : Json := .obj [("edges", .arr sampleEdges), ("nodes", .arr nodes)]

private def sampleRequest (nodes : List Json) : FederationManager.Request where
  graphId := "partner"
  fetched := .ok (samplePayload nodes)
  moment := sampleMoment

private def sampleSync (nodes : List Json) : FederationManager × SyncResult × Emitted :=
  (FederationManager.init [samplePartner] one_distinct).syncGraph sampleBuiltins sampleReaders (sampleRequest nodes)

namespace FederationManager

/-- The second node has no name, and the edge to it is cached all the same. -/
theorem sync_not_exact :
    ¬ CachesExactly sampleBuiltins sampleReaders samplePartner (stamp sampleMoment.fresh 0 oneMalformed)
      (stamp sampleMoment.fresh 2 sampleEdges) (sampleSync oneMalformed).1 (sampleSync oneMalformed).2.1 := by
  intro exactly
  exact absurd exactly.edges.length_eq (by decide +kernel)

private theorem twoNodes_facts :
    (∀ edge ∈ listedEdges sampleBuiltins sampleReaders samplePartner (stamp sampleMoment.fresh 0 twoNodes)
        (stamp sampleMoment.fresh 2 sampleEdges), Linked (wellFormedIds sampleBuiltins sampleReaders samplePartner
          (stamp sampleMoment.fresh 0 twoNodes)) edge = true) ∧
      (buildCache sampleBuiltins sampleReaders samplePartner sampleMoment.fresh twoNodes sampleEdges).toBool = true ∧
      (((stamp sampleMoment.fresh 0 twoNodes).filterMap (wellFormedNode sampleBuiltins sampleReaders samplePartner)).map
        Prod.fst).Nodup ∧
      (((listedEdges sampleBuiltins sampleReaders samplePartner (stamp sampleMoment.fresh 0 twoNodes)
        (stamp sampleMoment.fresh 2 sampleEdges)).filter (Linked (wellFormedIds sampleBuiltins sampleReaders samplePartner
          (stamp sampleMoment.fresh 0 twoNodes)))).map Prod.fst).Nodup := by
  decide +kernel

theorem sync_integrity_iff_partner :
    CachesExactly sampleBuiltins sampleReaders samplePartner (stamp sampleMoment.fresh 0 twoNodes)
      (stamp sampleMoment.fresh 2 sampleEdges) (sampleSync twoNodes).1 (sampleSync twoNodes).2.1 := by
  have url : samplePartner.graphJsonUrl.getD "" ≠ "" := by decide
  obtain ⟨linked, loads, nodeIds, edgeIds⟩ := twoNodes_facts
  have clean : Clean sampleBuiltins sampleReaders samplePartner (stamp sampleMoment.fresh 0 twoNodes)
      (stamp sampleMoment.fresh 2 sampleEdges) (FederationManager.init [samplePartner] one_distinct) := by
    cases made : buildCache sampleBuiltins sampleReaders samplePartner sampleMoment.fresh twoNodes sampleEdges with
    | error error =>
      rw [made] at loads
      cases loads
    | ok built =>
      obtain ⟨nodesRead, edgesRead, -⟩ := (buildCache_eq_ok rfl rfl).mp made
      refine ⟨nodesRead, edgesRead, nodeIds, edgeIds, ?_, ?_⟩
      · intro before edge after split unlinked
        rw [linked edge (by rw [split]; simp)] at unlinked
        cases unlinked
      · intro node _ other configured differ
        obtain rfl := List.mem_singleton.mp configured
        exact absurd rfl differ
  have asked : (sampleRequest twoNodes).graphId = samplePartner.graphId := rfl
  have fetched : (sampleRequest twoNodes).fetched = .ok (samplePayload twoNodes) := rfl
  have lists : readPayload (samplePayload twoNodes) = .ok (twoNodes, sampleEdges) := rfl
  exact (sync_integrity_iff .start List.mem_cons_self rfl url asked fetched lists).mpr clean

end FederationManager

end MetadataGraph.Federation
