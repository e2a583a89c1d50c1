import Mathlib.Data.Finset.Card
import MetadataGraph.Federation.Integrity
import MetadataGraph.Service.Search

namespace MetadataGraph.Service

open MetadataGraph.Graph MetadataGraph.Federation ObjectHeap StableSort

section Cut

variable {α κ : Type}

/-- A cut is filled without repetition exactly when it repeats nothing and either has enough to
cut or leaves nothing out. -/
theorem take_fills_iff [DecidableEq κ] {xs wanted : List κ} (inside : xs ⊆ wanted) (n : ℕ) :
    ((xs.take n).Nodup ∧ (xs.take n).length = min n wanted.dedup.length) ↔
      (xs.take n).Nodup ∧ (n ≤ xs.length ∨ wanted ⊆ xs) := by
  refine and_congr_right fun distinct => ?_
  rw [← List.card_toFinset, List.length_take]
  rcases le_or_gt n xs.length with enough | short
  · have bound : (xs.take n).toFinset.card ≤ wanted.toFinset.card := by
      refine Finset.card_le_card fun a member => ?_
      rw [List.mem_toFinset] at member ⊢
      exact inside (List.mem_of_mem_take member)
    rw [List.toFinset_card_of_nodup distinct, List.length_take, min_eq_left enough] at bound
    rw [min_eq_left enough, min_eq_left bound]
    exact iff_of_true rfl (.inl enough)
  · rw [List.take_of_length_le short.le] at distinct
    have card : xs.toFinset.card = xs.length := List.toFinset_card_of_nodup distinct
    have subset : xs.toFinset ⊆ wanted.toFinset := fun a member => by
      rw [List.mem_toFinset] at member ⊢
      exact inside member
    rw [min_eq_right short.le]
    constructor
    · intro full
      have all : wanted.toFinset ⊆ xs.toFinset :=
        (Finset.eq_of_subset_of_card_le subset (by omega)).symm.subset
      exact .inr fun a member => List.mem_toFinset.mp (all (List.mem_toFinset.mpr member))
    · rintro (enough | all)
      · omega
      · have same : xs.toFinset = wanted.toFinset := subset.antisymm fun a member => by
          rw [List.mem_toFinset] at member ⊢
          exact all member
        rw [← same, card]
        omega

theorem upTo_natCast (n : ℕ) (xs : List α) : upTo (n : ℤ) xs = xs.take n := by
  rw [upTo, if_pos (Int.natCast_nonneg n), Int.toNat_natCast]

theorem upTo_of_length_le {limit : ℤ} {xs : List α} (all : (xs.length : ℤ) ≤ limit) : upTo limit xs = xs := by
  rw [upTo, if_pos (by omega), List.take_of_length_le (by omega)]

theorem length_upTo_le (limit : ℤ) (nonneg : 0 ≤ limit) (xs : List α) : ((upTo limit xs).length : ℤ) ≤ limit := by
  rw [upTo, if_pos nonneg, List.length_take]
  omega

/-- Cutting to a limit, filtering and cutting again loses nothing when the first cut is wide
enough, or the filter keeps everything. -/
theorem upTo_filter_upTo {limit window : ℤ} (nonneg : 0 ≤ limit) {keep : α → Bool} {xs : List α}
    (wide : (xs.length : ℤ) ≤ window ∨ window = limit ∧ ∀ a ∈ xs, keep a = true) :
    upTo limit ((upTo window xs).filter keep) = upTo limit (xs.filter keep) := by
  rcases wide with wide | ⟨rfl, all⟩
  · rw [upTo_of_length_le wide]
  · lift window to ℕ using nonneg
    have inside : ∀ a ∈ xs.take window, keep a = true := fun a member => all a (List.mem_of_mem_take member)
    simp only [upTo_natCast]
    rw [List.filter_eq_self.mpr inside, List.filter_eq_self.mpr all, List.take_take, min_self]

end Cut

section Spec

variable (cfg : SearchConfig) (σ : Storage) (request : SearchRequest) (access : GraphAccessNarrowing)

/-- What is asked of a node besides the match: it is visible, passes the filters and is not
archived unless archived nodes are wanted. -/
def qualifies (node : Node) : Bool :=
  isNodeVisible cfg.texts access node && passesFilters cfg request node && (request.includeArchived || !node.archived)

/-- The local nodes that match and qualify. -/
def localHits : List Node :=
  (σ.nodes.values.map σ.node).filter fun node => matchesLocal cfg σ request node && qualifies cfg request access node

/-- The cached federated nodes that match and qualify. -/
def federatedHits (m : FederationManager) : List Node :=
  (federatedMatches cfg m request).filter (qualifies cfg request access)

/-- The ids of the nodes that a search has to find. -/
def wantedIds (federation : Option FederationManager) : List String :=
  (localHits cfg σ request access ++ federation.elim [] (federatedHits cfg request access)).map Node.id

/-- A page that does what is asked of it. -/
structure FillsPage (federation : Option FederationManager) (page : Page) : Prop where
  distinct : (page.nodes.map Node.id).Nodup
  joined : ∀ edge ∈ page.edges, edge.source ∈ page.nodes.map Node.id ∧ edge.target ∈ page.nodes.map Node.id
  filled : (page.nodes.length : ℤ) = min request.limit (wantedIds cfg σ request access federation).dedup.length

/-- The federated matches that a search with so many free places looks at: the best ones for the
places, or all of them under a narrowing or a filter. -/
def window (m : FederationManager) (free : ℕ) : List Node :=
  if access.enabled || request.hasGenericFilters then federatedMatches cfg m request
  else (federatedMatches cfg m request).take free

/-- The hits among them, less those that share their id with an archived one. -/
def shown (m : FederationManager) (free : ℕ) : List Node :=
  let window := window cfg request access m free
  window.filter fun node => qualifies cfg request access node &&
    (request.includeArchived || node.id ∉ (window.filter Node.archived).map Node.id)

/-- The places that the local hits leave free are filled without loss: no id comes twice, and the
window has a hit for each place or leaves none out. -/
structure FillsPlaces (m : FederationManager) (free : ℕ) : Prop where
  distinct : ((localHits cfg σ request access ++ (shown cfg request access m free).take free).map Node.id).Nodup
  complete : free ≤ (shown cfg request access m free).length ∨ ∀ hit ∈ federatedHits cfg request access m,
    hit.id ∈ (localHits cfg σ request access ++ shown cfg request access m free).map Node.id

/-- When a search fills its page. -/
def Fillable (federation : Option FederationManager) : Prop :=
  0 ≤ request.limit ∧ ∀ m, federation = some m → ((localHits cfg σ request access).length : ℤ) < request.limit →
    FillsPlaces cfg σ request access m (request.limit.toNat - (localHits cfg σ request access).length)

end Spec

section Found

variable {cfg : SearchConfig} {σ : Storage} {request : SearchRequest} {access : GraphAccessNarrowing}

/-- Without filters every node passes. -/
theorem passesFilters_of_none (none : request.hasGenericFilters = false) (node : Node) :
    passesFilters cfg request node = true := by
  simp only [SearchRequest.hasGenericFilters, Bool.or_eq_false_iff, decide_eq_false_iff_not, ne_eq, not_not] at none
  obtain ⟨⟨⟨all, any⟩, excluded⟩, metadata⟩ := none
  simp only [passesFilters, matchesTagFilters, all, any, excluded, metadata, List.all_nil, decide_true, Bool.true_or,
    Bool.and_true]

/-- The local results of a lexical search, before they are cut. -/
def rankedHits (cfg : SearchConfig) (σ : Storage) (request : SearchRequest) (access : GraphAccessNarrowing) : List Node :=
  (localMatches cfg σ request).filter fun node => isNodeVisible cfg.texts access node && passesFilters cfg request node

theorem perm_localMatches : (localMatches cfg σ request).Perm ((σ.nodes.values.map σ.node).filter fun node =>
    (request.includeArchived || !node.archived) && matchesLocal cfg σ request node) := by
  rw [localMatches]
  split
  · exact .refl _
  · exact perm_sortOn _

theorem perm_rankedHits : (rankedHits cfg σ request access).Perm (localHits cfg σ request access) := by
  refine (perm_localMatches.filter _).trans (.of_eq ?_)
  rw [localHits, List.filter_filter]
  refine List.filter_congr fun node _ => ?_
  rw [qualifies]
  cases matchesLocal cfg σ request node <;> simp

theorem length_localMatches_le : (localMatches cfg σ request).length ≤ σ.nodes.entries.length := by
  rw [perm_localMatches.length_eq]
  refine (List.length_filter_le _ _).trans ?_
  rw [List.length_map, OrderedDict.values, List.length_map]

/-- The window of the local search never cuts off a hit that has a place on the page. -/
theorem visibleLocal_searchNodes (nonneg : 0 ≤ request.limit) :
    visibleLocal cfg request access (searchNodes cfg σ request (searchLimit σ request access)) =
      upTo request.limit (rankedHits cfg σ request access) := by
  rw [visibleLocal, searchNodes, rankedHits]
  refine upTo_filter_upTo nonneg ?_
  have bound : ((localMatches cfg σ request).length : ℤ) ≤ σ.nodes.entries.length :=
    Int.ofNat_le.mpr length_localMatches_le
  rw [searchLimit]
  split
  · exact .inl (bound.trans (le_max_right _ _))
  · rename_i narrow
    rw [Bool.or_eq_true, not_or, Bool.not_eq_true, Bool.not_eq_true] at narrow
    refine .inr ⟨rfl, fun node _ => ?_⟩
    rw [isNodeVisible_of_off _ narrow.1, passesFilters_of_none narrow.2, Bool.and_self]

/-- The ids of local nodes are the keys of the store, so none comes twice. -/
theorem nodup_localHits (indexed : σ.Indexed cfg.storage) : ((localHits cfg σ request access).map Node.id).Nodup := by
  have keys : (σ.nodes.values.map σ.node).map Node.id = σ.nodes.keys := by
    rw [OrderedDict.values, OrderedDict.keys, List.map_map, List.map_map]
    exact List.map_congr_left fun entry member =>
      (indexed.node_held entry.1 entry.2 (OrderedDict.get?_eq_some.mpr member)).2
  have distinct : ((σ.nodes.values.map σ.node).map Node.id).Nodup := keys ▸ σ.nodes.distinct
  exact (List.filter_sublist.map Node.id).nodup distinct

variable {m : FederationManager}

theorem length_federatedMatches_le : (federatedMatches cfg m request).length ≤
    ((caches m).map fun cache => cache.nodes.entries.length).sum := by
  have all : ((caches m).flatMap fun cache => cache.nodes.values).length =
      ((caches m).map fun cache => cache.nodes.entries.length).sum := by
    rw [List.length_flatMap]
    exact congrArg List.sum (List.map_congr_left fun cache _ => List.length_map _)
  rw [federatedMatches, ← all]
  split
  · exact List.length_filter_le _ _
  · exact ((perm_sortOn _).length_eq).trans_le (List.length_filter_le _ _)

/-- The nodes that the manager gives are the window. -/
theorem federatedSearchNodes_fst (free : ℕ) :
    (federatedSearchNodes cfg m request (federatedSearchLimit m free access request.hasGenericFilters)).1 =
      window cfg request access m free := by
  rw [federatedSearchNodes, federatedSearchLimit, window]
  have bound : ((federatedMatches cfg m request).length : ℤ) ≤
      ((caches m).map fun cache => cache.nodes.entries.length).sum := Int.ofNat_le.mpr length_federatedMatches_le
  cases access.enabled <;> cases request.hasGenericFilters
  · exact upTo_natCast free _
  all_goals
    simp only [reduceCtorEq, and_false, false_and, if_false, Bool.or_true, Bool.true_or, if_true]
    exact upTo_of_length_le (bound.trans (le_max_right _ _))

/-- What stays visible of the federated results is what is shown. -/
theorem filter_federatedResults (free : ℕ) :
    (federatedResults cfg request access m free).1.filter (isNodeVisible cfg.texts access) =
      shown cfg request access m free := by
  rw [federatedResults]
  dsimp only
  rw [federatedSearchNodes_fst, shown]
  split
  · rename_i included
    rw [List.filter_filter]
    exact List.filter_congr fun node _ => by simp only [qualifies, included, Bool.true_or, Bool.and_true]
  · rename_i excluded
    rw [Bool.not_eq_true] at excluded
    rw [List.filter_filter]
    refine List.filter_congr fun node member => ?_
    simp only [qualifies, excluded, Bool.false_or]
    by_cases clash : node.id ∈ ((window cfg request access m free).filter Node.archived).map Node.id
    · simp only [clash, not_true_eq_false, decide_false, Bool.and_false]
    · have live : node.archived = false := by
        by_contra archived
        rw [Bool.not_eq_false] at archived
        exact clash (List.mem_map.mpr ⟨node, List.mem_filter.mpr ⟨member, archived⟩, rfl⟩)
      simp only [clash, not_false_eq_true, decide_true, Bool.and_true, live, Bool.not_false]

/-- The federated nodes that come after the local hits. -/
def extra (cfg : SearchConfig) (σ : Storage) (request : SearchRequest) (access : GraphAccessNarrowing) :
    Option FederationManager → List Node
  | some m =>
    if ((localHits cfg σ request access).length : ℤ) < request.limit then
      shown cfg request access m (request.limit.toNat - (localHits cfg σ request access).length)
    else []
  | none => []

theorem visible_rankedHits : (rankedHits cfg σ request access).filter (isNodeVisible cfg.texts access) =
    rankedHits cfg σ request access := by
  refine List.filter_eq_self.mpr fun node member => ?_
  have kept := (List.mem_filter.mp member).2
  rw [Bool.and_eq_true] at kept
  exact kept.1

theorem paged_fst (all : List Node × List Edge) :
    (paged cfg request access all).1 = upTo request.limit (all.1.filter (isNodeVisible cfg.texts access)) := by
  rw [paged, filterNodesAndEdges]
  dsimp only
  split
  · rfl
  · rename_i fits
    exact (upTo_of_length_le (not_lt.mp fits)).symm

/-- The edges of a page join its nodes. -/
theorem joins_paged {all : List Node × List Edge} {edge : Edge} (member : edge ∈ (paged cfg request access all).2) :
    joins (paged cfg request access all).1 edge = true := by
  revert member
  rw [paged, filterNodesAndEdges]
  dsimp only
  split <;> exact fun member => (List.mem_filter.mp member).2

theorem dedupEdges_subset (seen : List String) (edges : List Edge) : dedupEdges seen edges ⊆ edges := by
  induction edges generalizing seen with
  | nil => exact List.Subset.refl _
  | cons edge rest ih =>
    rw [dedupEdges]
    split
    · exact List.subset_cons_of_subset edge (ih seen)
    · exact List.cons_subset_cons edge (ih _)

/-- The nodes of a page: the ranked local hits and then the shown federated ones, up to the limit. -/
theorem nodes_of_combined (nonneg : 0 ≤ request.limit) (federation : Option FederationManager) :
    (paged cfg request access (combined cfg σ request access federation
      (upTo request.limit (rankedHits cfg σ request access)))).1 =
        upTo request.limit (rankedHits cfg σ request access ++ extra cfg σ request access federation) := by
  have same : (rankedHits cfg σ request access).length = (localHits cfg σ request access).length :=
    perm_rankedHits.length_eq
  have visible : (upTo request.limit (rankedHits cfg σ request access)).filter (isNodeVisible cfg.texts access) =
      upTo request.limit (rankedHits cfg σ request access) := by
    rw [List.filter_eq_self]
    intro node member
    rw [upTo, if_pos nonneg] at member
    exact List.filter_eq_self.mp visible_rankedHits node (List.mem_of_mem_take member)
  have twice : upTo request.limit (upTo request.limit (rankedHits cfg σ request access)) =
      upTo request.limit (rankedHits cfg σ request access) :=
    upTo_of_length_le (length_upTo_le _ nonneg _)
  rw [paged_fst]
  cases federation with
  | none => rw [combined, extra, List.append_nil, visible, twice]
  | some m =>
    simp only [combined, extra]
    by_cases room : ((localHits cfg σ request access).length : ℤ) < request.limit
    · have whole : upTo request.limit (rankedHits cfg σ request access) = rankedHits cfg σ request access :=
        upTo_of_length_le (by omega)
      have free : max 0 (request.limit - ((rankedHits cfg σ request access).length : ℤ)) =
          ((request.limit.toNat - (localHits cfg σ request access).length : ℕ) : ℤ) := by omega
      have positive : (0 : ℤ) < ((request.limit.toNat - (localHits cfg σ request access).length : ℕ) : ℤ) := by omega
      rw [whole, free, if_pos positive, if_pos room, List.filter_append, visible_rankedHits, filter_federatedResults]
    · have length : ((upTo request.limit (rankedHits cfg σ request access)).length : ℤ) = request.limit := by
        rw [upTo, if_pos nonneg, List.length_take]
        omega
      rw [length, sub_self, max_self, if_neg (lt_irrefl 0), if_neg room, List.append_nil, visible, twice]

theorem localResults_lexical (lexical : (localResults cfg σ request access).2 = false) :
    (localResults cfg σ request access).1 =
      visibleLocal cfg request access (searchNodes cfg σ request (searchLimit σ request access)) := by
  revert lexical
  rw [localResults]
  dsimp only
  split
  · exact fun no => by cases no
  · split
    · exact fun no => by cases no
    · exact fun _ => rfl

/-- A lexical answer is the page of the lexical matches. -/
theorem searchGraph_lexical {federation : Option FederationManager} {decision : GraphAuthorizationDecision} {page : Page}
    (found : searchGraph cfg σ request federation decision = .ok page) (lexical : page.semantic = false) :
    ∃ edges, paged cfg request decision.graphAccess (combined cfg σ request decision.graphAccess federation
      (visibleLocal cfg request decision.graphAccess
        (searchNodes cfg σ request (searchLimit σ request decision.graphAccess)))) = (page.nodes, edges) ∧
      page.edges ⊆ edges := by
  rw [searchGraph] at found
  split at found
  · cases found
  split at found
  · cases found
  split at found
  · cases found
  obtain rfl := Except.ok.inj found
  rw [← localResults_lexical lexical]
  exact ⟨_, rfl, dedupEdges_subset [] _⟩

theorem extra_subset {federation : Option FederationManager} {node : Node}
    (member : node ∈ extra cfg σ request access federation) :
    node ∈ federation.elim [] (federatedHits cfg request access) := by
  cases federation with
  | none => exact member
  | some m =>
    rw [extra] at member
    split at member
    · obtain ⟨inWindow, kept⟩ := List.mem_filter.mp member
      rw [Bool.and_eq_true] at kept
      refine List.mem_filter.mpr ⟨?_, kept.1⟩
      rw [window] at inWindow
      split at inWindow
      · exact inWindow
      · exact List.mem_of_mem_take inWindow
    · cases member

/-- The page is full or complete, and repeats no id, exactly when the places that the local hits
leave are filled so. -/
theorem fillable_iff (indexed : σ.Indexed cfg.storage) (nonneg : 0 ≤ request.limit)
    (federation : Option FederationManager) :
    Fillable cfg σ request access federation ↔
      (((rankedHits cfg σ request access ++ extra cfg σ request access federation).map Node.id).take
          request.limit.toNat).Nodup ∧
        (request.limit.toNat ≤
            ((rankedHits cfg σ request access ++ extra cfg σ request access federation).map Node.id).length ∨
          wantedIds cfg σ request access federation ⊆
            (rankedHits cfg σ request access ++ extra cfg σ request access federation).map Node.id) := by
  have perm : (rankedHits cfg σ request access).Perm (localHits cfg σ request access) := perm_rankedHits
  have same : (rankedHits cfg σ request access).length = (localHits cfg σ request access).length := perm.length_eq
  have localIds : ((rankedHits cfg σ request access).map Node.id).Nodup :=
    (perm.map Node.id).nodup_iff.mpr (nodup_localHits indexed)
  cases federation with
  | none =>
    refine iff_of_true ⟨nonneg, fun m some => by cases some⟩ ⟨?_, .inr ?_⟩
    · rw [extra, List.append_nil]
      exact (List.take_sublist _ _).nodup localIds
    · rw [wantedIds, extra, List.append_nil, Option.elim_none, List.append_nil]
      exact (perm.map Node.id).symm.subset
  | some m =>
    by_cases room : ((localHits cfg σ request access).length : ℤ) < request.limit
    · have free : request.limit.toNat - (rankedHits cfg σ request access).length =
          request.limit.toNat - (localHits cfg σ request access).length := by omega
      rw [extra, if_pos room, ← List.map_take, List.take_append, List.take_of_length_le (by omega), free,
        List.length_map, List.length_append]
      have distinct : ∀ rest : List Node, ((rankedHits cfg σ request access ++ rest).map Node.id).Nodup ↔
          ((localHits cfg σ request access ++ rest).map Node.id).Nodup := fun rest =>
        ((perm.append_right rest).map Node.id).nodup_iff
      have listed : ∀ rest : List Node, ∀ id, id ∈ (rankedHits cfg σ request access ++ rest).map Node.id ↔
          id ∈ (localHits cfg σ request access ++ rest).map Node.id := fun rest id =>
        ((perm.append_right rest).map Node.id).mem_iff
      constructor
      · rintro ⟨-, fills⟩
        obtain ⟨apart, complete⟩ := fills m rfl room
        refine ⟨(distinct _).mpr apart, complete.imp (fun enough => by omega) fun all id wanted => ?_⟩
        rw [listed]
        rw [wantedIds, Option.elim_some, List.map_append, List.mem_append] at wanted
        rcases wanted with inLocal | inFederated
        · rw [List.map_append]
          exact List.mem_append_left _ inLocal
        · obtain ⟨hit, member, rfl⟩ := List.mem_map.mp inFederated
          exact all hit member
      · rintro ⟨apart, complete⟩
        refine ⟨nonneg, fun other same' _ => ?_⟩
        obtain rfl := Option.some.inj same'
        refine ⟨(distinct _).mp apart, complete.imp (fun enough => by omega) fun all hit member => ?_⟩
        rw [← listed]
        refine all ?_
        rw [wantedIds, Option.elim_some, List.map_append]
        exact List.mem_append_right _ (List.mem_map_of_mem member)
    · rw [extra, if_neg room, List.append_nil, List.length_map]
      refine iff_of_true ⟨nonneg, fun other _ less => absurd less room⟩ ⟨?_, .inl (by omega)⟩
      exact (List.take_sublist _ _).nodup localIds

end Found

section Claim

variable {cfg : SearchConfig} {σ : Storage} {request : SearchRequest}

/-- A lexical search fills its page exactly when the limit is not negative and the places that the
local hits leave free are filled without loss. -/
theorem search_fills_page_iff (indexed : σ.Indexed cfg.storage) {federation : Option FederationManager}
    {decision : GraphAuthorizationDecision} {page : Page}
    (found : searchGraph cfg σ request federation decision = .ok page) (lexical : page.semantic = false) :
    FillsPage cfg σ request decision.graphAccess federation page ↔
      Fillable cfg σ request decision.graphAccess federation := by
  obtain ⟨edges, answer, inside⟩ := searchGraph_lexical found lexical
  by_cases nonneg : 0 ≤ request.limit
  · rw [visibleLocal_searchNodes nonneg] at answer
    have nodes : page.nodes = (rankedHits cfg σ request decision.graphAccess ++
        extra cfg σ request decision.graphAccess federation).take request.limit.toNat := by
      have cut : (page.nodes, edges).1 = upTo request.limit (rankedHits cfg σ request decision.graphAccess ++
          extra cfg σ request decision.graphAccess federation) := answer ▸ nodes_of_combined nonneg federation
      rwa [upTo, if_pos nonneg] at cut
    have joined : ∀ edge ∈ page.edges, edge.source ∈ page.nodes.map Node.id ∧ edge.target ∈ page.nodes.map Node.id := by
      intro edge member
      have visible : edge ∈ (paged cfg request decision.graphAccess (combined cfg σ request decision.graphAccess federation
          (upTo request.limit (rankedHits cfg σ request decision.graphAccess)))).2 := by
        rw [answer]
        exact inside member
      have both := joins_paged visible
      rw [answer, joins, Bool.and_eq_true, decide_eq_true_eq, decide_eq_true_eq] at both
      exact both
    have subset : (rankedHits cfg σ request decision.graphAccess ++
        extra cfg σ request decision.graphAccess federation).map Node.id ⊆
          wantedIds cfg σ request decision.graphAccess federation := by
      intro id member
      obtain ⟨node, found, rfl⟩ := List.mem_map.mp member
      refine List.mem_map_of_mem ?_
      rcases List.mem_append.mp found with ranked | more
      · exact List.mem_append_left _ (perm_rankedHits.subset ranked)
      · exact List.mem_append_right _ (extra_subset more)
    rw [fillable_iff indexed nonneg, ← take_fills_iff subset, ← List.map_take, ← nodes, List.length_map]
    constructor
    · rintro ⟨distinct, -, filled⟩
      exact ⟨distinct, by omega⟩
    · rintro ⟨distinct, filled⟩
      exact ⟨distinct, joined, by omega⟩
  · refine iff_of_false (fun fills => ?_) fun fillable => nonneg fillable.1
    have := fills.filled
    omega

end Claim

def sampleTexts : Texts where
  strip text := .ofList ((text.toList.dropWhile (· = ' ')).reverse.dropWhile (· = ' ')).reverse
  str := sampleBuiltins.str

def sampleSearch : SearchConfig where
  storage := sampleConfig
  texts := sampleTexts
  split text := [text]
  parseInt _ := none
  isValidNodeType _ := true
  vectorSearch _ _ _ := []
  setOrder := sampleMoment.nodeOrder

/-- A cached node of the partner's graph. -/
def samplePartnerNode (originId name : String) (archived : Bool)
    (short : FieldLimits name "" "" [] [] := by decide +kernel) : Node :=
  { id := federatedId samplePartner originId, typeName := "Actor", name, archived, createdAt := epoch, updatedAt := epoch,
    metadata := .of (provenance samplePartner "origin_node_id" (.str originId)), limits := short }

/-- The partner's graph as it is cached: an archived node and after it a live one. -/
def samplePartners : FederationManager where
  graphs := [samplePartner]
  cache _ := { nodes := .ofList (([samplePartnerNode "n1" "Old" true, samplePartnerNode "n2" "New" false]).map
    fun node => (node.id, node)) }
  distinct := one_distinct

theorem office_limits : FieldLimits "Office" "" "" [] [] := by decide +kernel

/-- A store with one actor. -/
def sampleStore : Storage := ((default : Storage).newNode (sampleActor "a" "Office" office_limits)).putNode sampleConfig 0

theorem sampleStore_indexed : sampleStore.Indexed sampleConfig := by
  have empty : ({} : Storage).Indexed sampleConfig := Storage.Indexed.clear sampleConfig {}
  exact (empty.kept (.newNode sampleConfig (sampleActor "a" "Office" office_limits) {})).putNode (by decide)

/-- All nodes are asked for, the archived ones too, and there is a place for each. -/
def sampleSearchRequest : SearchRequest := { query := "*", limit := 3, includeArchived := true }

private def sampleAnswer (request : SearchRequest) : Except Refusal Page :=
  searchGraph sampleSearch sampleStore request (some samplePartners) {}

private theorem sampleAnswer_facts :
    ((sampleAnswer sampleSearchRequest).toOption.map fun page => (page.nodes.map Node.id, page.semantic)) =
        some (["a", "federated::partner::n1", "federated::partner::n2"], false) ∧
      (localHits sampleSearch sampleStore sampleSearchRequest {}).map Node.id = ["a"] ∧
      (shown sampleSearch sampleSearchRequest {} samplePartners 2).map Node.id =
        ["federated::partner::n1", "federated::partner::n2"] ∧
      ((sampleAnswer { query := "*", limit := 2 }).toOption.map fun page => (page.nodes.map Node.id, page.semantic)) =
        some (["a"], false) ∧
      (wantedIds sampleSearch sampleStore { query := "*", limit := 2 } {} (some samplePartners)).dedup.length = 2 := by
  decide +kernel

private theorem sampleAnswer_page {request : SearchRequest} {ids : List String}
    (answered : ((sampleAnswer request).toOption.map fun page => (page.nodes.map Node.id, page.semantic)) =
      some (ids, false)) :
    ∃ page, sampleAnswer request = .ok page ∧ page.nodes.map Node.id = ids ∧ page.semantic = false := by
  cases answer : sampleAnswer request with
  | error refusal =>
    rw [answer] at answered
    cases answered
  | ok page =>
    rw [answer] at answered
    have both := Prod.mk.inj (Option.some.inj answered)
    exact ⟨page, rfl, both.1, both.2⟩

theorem search_fills_page_sample : ∃ page,
    searchGraph sampleSearch sampleStore sampleSearchRequest (some samplePartners) {} = .ok page ∧
      page.nodes.map Node.id = ["a", "federated::partner::n1", "federated::partner::n2"] ∧
      FillsPage sampleSearch sampleStore sampleSearchRequest {} (some samplePartners) page := by
  obtain ⟨answered, locals, federated, -⟩ := sampleAnswer_facts
  obtain ⟨page, answer, ids, lexical⟩ := sampleAnswer_page answered
  refine ⟨page, answer, ids, (search_fills_page_iff sampleStore_indexed answer lexical).mpr ⟨by decide, ?_⟩⟩
  rintro m same -
  obtain rfl := Option.some.inj same
  have one : (localHits sampleSearch sampleStore sampleSearchRequest {}).length = 1 := by
    rw [← List.length_map Node.id, locals, List.length_singleton]
  rw [one]
  refine ⟨?_, .inl ?_⟩
  · rw [List.map_append, List.map_take, locals]
    exact federated ▸ (by decide)
  · rw [← List.length_map Node.id]
    exact federated ▸ (by decide)

/-- The archived node takes the only free place of the window, and is dropped after it. -/
theorem archived_match_takes_place : sampleStore.Indexed sampleSearch.storage ∧ ∃ page,
    searchGraph sampleSearch sampleStore { query := "*", limit := 2 } (some samplePartners) {} = .ok page ∧
      page.semantic = false ∧ page.nodes.map Node.id = ["a"] ∧
      ¬ FillsPage sampleSearch sampleStore { query := "*", limit := 2 } {} (some samplePartners) page := by
  obtain ⟨-, -, -, answered, wanted⟩ := sampleAnswer_facts
  obtain ⟨page, answer, ids, lexical⟩ := sampleAnswer_page answered
  refine ⟨sampleStore_indexed, page, answer, lexical, ids, fun fills => ?_⟩
  have filled := fills.filled
  rw [wanted, ← List.length_map Node.id, ids] at filled
  revert filled
  decide

end MetadataGraph.Service
