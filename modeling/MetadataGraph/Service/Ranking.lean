import MetadataGraph.Service.Page

namespace MetadataGraph.Service

open MetadataGraph.Graph ObjectHeap StableSort

/-- What of a node a term matches at best, from the lowest to the highest tier. -/
inductive Tier where
  | secondary
  | aliasSubstring
  | aliasPrefix
  | aliasExact
  | nameSubstring
  | namePrefix
  | nameExact
  deriving DecidableEq

namespace Tier

def rank : Tier → ℕ
  | secondary => 0
  | aliasSubstring => 1
  | aliasPrefix => 2
  | aliasExact => 3
  | nameSubstring => 4
  | namePrefix => 5
  | nameExact => 6

instance : LE Tier := ⟨fun t u => t.rank ≤ u.rank⟩

/-- The base value of the tier in a score. -/
def points : Tier → ℕ
  | secondary => 0
  | aliasSubstring => 200000
  | aliasPrefix => 220000
  | aliasExact => 250000
  | nameSubstring => 300000
  | namePrefix => 400000
  | nameExact => 500000

/-- All secondary signals together do not fill the gap between two tiers. -/
theorem le_of_points_le {t u : Tier} (points : t.points ≤ u.points + 1800) : t ≤ u := by
  show t.rank ≤ u.rank
  cases t <;> cases u <;> first | decide | exact absurd points (by decide)

end Tier

section Tiers

variable (cfg : StorageConfig) (node : Node) (term : String)

/-- A match in the name counts before one in an alias, and an exact one before a prefix or a substring. -/
def tier : Tier :=
  if cfg.lower node.name = term then .nameExact
  else if startsWith (cfg.lower node.name) term then .namePrefix
  else if occurs term (cfg.lower node.name) then .nameSubstring
  else if term ∈ node.aliases.map cfg.lower then .aliasExact
  else if (node.aliases.map cfg.lower).any (startsWith · term) then .aliasPrefix
  else if (node.aliases.map cfg.lower).any (occurs term) then .aliasSubstring
  else .secondary

theorem points_tier :
    (tier cfg node term).points = max (nameScore (cfg.lower node.name) term) (aliasScore (node.aliases.map cfg.lower) term) := by
  have capped : aliasScore (node.aliases.map cfg.lower) term ≤ 250000 := by
    rw [aliasScore]
    split_ifs <;> omega
  rw [tier, nameScore]
  split_ifs with exact_name begins inside exact_alias alias_begins alias_inside
  · exact (Nat.max_eq_left (capped.trans (by decide))).symm
  · exact (Nat.max_eq_left (capped.trans (by decide))).symm
  · exact (Nat.max_eq_left (capped.trans (by decide))).symm
  · rw [aliasScore, if_pos exact_alias]
    rfl
  · rw [aliasScore, if_neg exact_alias, if_pos alias_begins]
    rfl
  · rw [aliasScore, if_neg exact_alias, if_neg alias_begins, if_pos alias_inside]
    rfl
  · rw [aliasScore, if_neg exact_alias, if_neg alias_begins, if_neg alias_inside]
    rfl

/-- A score is the base value of the tier and what the secondary signals add. -/
theorem scoreNodeMatch_bounds : (tier cfg node term).points ≤ scoreNodeMatch cfg node term ∧
    scoreNodeMatch cfg node term ≤ (tier cfg node term).points + 1800 := by
  rw [points_tier, scoreNodeMatch, scoreWith]
  generalize max (nameScore (cfg.lower node.name) term) (aliasScore (node.aliases.map cfg.lower) term) = base
  split_ifs <;> omega

end Tiers

section Best

variable {l m : List ℕ}

theorem foldl_max_le_iff {n bound : ℕ} : l.foldl max n ≤ bound ↔ n ≤ bound ∧ ∀ x ∈ l, x ≤ bound := by
  induction l generalizing n with
  | nil => simp
  | cons x l ih =>
    rw [List.foldl_cons, ih, Nat.max_le, List.forall_mem_cons]
    exact and_assoc

theorem le_foldl_max {x : ℕ} (member : x ∈ l) : x ≤ l.foldl max 0 := (foldl_max_le_iff.mp (Nat.le_refl _)).2 x member

theorem exists_foldl_max_le (some_member : l ≠ []) : ∃ x ∈ l, l.foldl max 0 ≤ x := by
  by_contra none_reaches
  have below : ∀ x ∈ l, x < l.foldl max 0 := fun x member =>
    Nat.lt_of_not_le fun reaches => none_reaches ⟨x, member, reaches⟩
  obtain ⟨x, member⟩ := List.exists_mem_of_ne_nil l some_member
  have positive := below x member
  have less : l.foldl max 0 ≤ l.foldl max 0 - 1 :=
    foldl_max_le_iff.mpr ⟨Nat.zero_le _, fun y member => Nat.le_sub_one_of_lt (below y member)⟩
  omega

theorem foldl_max_congr (same : ∀ x, x ∈ l ↔ x ∈ m) : l.foldl max 0 = m.foldl max 0 := by
  refine Nat.le_antisymm ?_ ?_
  · exact foldl_max_le_iff.mpr ⟨Nat.zero_le _, fun x member => le_foldl_max ((same x).mp member)⟩
  · exact foldl_max_le_iff.mpr ⟨Nat.zero_le _, fun x member => le_foldl_max ((same x).mpr member)⟩

end Best

variable {cfg : SearchConfig} {σ : Storage} {request : SearchRequest}

/-- The searchable text of a node of the store holds a term, and the node passes the filters. -/
structure Found (cfg : SearchConfig) (σ : Storage) (request : SearchRequest) (node : Node) : Prop where
  stored : ∃ ref, σ.nodes.get? node.id = some ref ∧ σ.node ref = node
  typed : request.nodeTypes = [] ∨ node.typeStr ∈ request.nodeTypes
  shown : request.includeArchived = true ∨ node.archived = false
  text : ∃ term ∈ terms cfg request, occurs term (buildSearchableText cfg.storage node) = true

/-- In whatever tier a term finds the second node, some term finds the first in no lower one. -/
def RanksWith (cfg : SearchConfig) (request : SearchRequest) (a b : Node) : Prop :=
  ∀ term ∈ terms cfg request, occurs term (buildSearchableText cfg.storage b) = true →
    ∃ other ∈ terms cfg request, occurs other (buildSearchableText cfg.storage a) = true ∧
      tier cfg.storage b term ≤ tier cfg.storage a other

/-- What a ranked search up to a limit returns. -/
structure Ranked (cfg : SearchConfig) (σ : Storage) (request : SearchRequest) (limit : ℤ) (results : List Node) : Prop where
  sorted : results.Pairwise (RanksWith cfg request)
  sound : ∀ node ∈ results, Found cfg σ request node
  complete : ∀ node, Found cfg σ request node →
    node ∈ results ∨ limit ≤ results.length ∧ ∀ other ∈ results, RanksWith cfg request other node

theorem searchableText_stored (indexed : σ.Indexed cfg.storage) {node : Node}
    (stored : ∃ ref, σ.nodes.get? node.id = some ref ∧ σ.node ref = node) :
    σ.searchableText.get? node.id = some (buildSearchableText cfg.storage node) := by
  obtain ⟨ref, found, same⟩ := stored
  rw [indexed.texts_match, found, Option.map_some, same]

theorem mem_hits (indexed : σ.Indexed cfg.storage) {node : Node}
    (stored : ∃ ref, σ.nodes.get? node.id = some ref ∧ σ.node ref = node) {term : String} :
    term ∈ hits cfg σ request node ↔
      term ∈ terms cfg request ∧ occurs term (buildSearchableText cfg.storage node) = true := by
  rw [hits, searchableText_stored indexed stored]
  exact List.mem_filter

theorem mem_values_iff (indexed : σ.Indexed cfg.storage) {node : Node} :
    node ∈ σ.nodes.values.map σ.node ↔ ∃ ref, σ.nodes.get? node.id = some ref ∧ σ.node ref = node := by
  simp only [OrderedDict.values, List.map_map, List.mem_map, Prod.exists, ← OrderedDict.get?_eq_some, Function.comp_apply]
  constructor
  · rintro ⟨id, ref, found, rfl⟩
    exact ⟨ref, (indexed.node_held id ref found).2 ▸ found, rfl⟩
  · rintro ⟨ref, found, same⟩
    exact ⟨node.id, ref, found, same⟩

theorem mem_localMatches (indexed : σ.Indexed cfg.storage) (wanted : matchAll cfg request = false) {node : Node} :
    node ∈ localMatches cfg σ request ↔ Found cfg σ request node := by
  rw [localMatches, wanted, if_neg Bool.false_ne_true, mem_sortOn, List.mem_filter, mem_values_iff indexed]
  have passed : ((request.includeArchived || !node.archived) && matchesLocal cfg σ request node) = true ↔
      (request.includeArchived = true ∨ node.archived = false) ∧
        (request.nodeTypes = [] ∨ node.typeStr ∈ request.nodeTypes) ∧ hits cfg σ request node ≠ [] := by
    simp [matchesLocal, wanted]
  rw [passed]
  constructor
  · rintro ⟨stored, shown, typed, hit⟩
    obtain ⟨term, member⟩ := List.exists_mem_of_ne_nil _ hit
    exact ⟨stored, typed, shown, term, (mem_hits indexed stored).mp member⟩
  · rintro ⟨stored, typed, shown, term, within, occurring⟩
    exact ⟨stored, shown, typed, List.ne_nil_of_mem ((mem_hits indexed stored).mpr ⟨within, occurring⟩)⟩

theorem ranksWith_of_localRank_le (indexed : σ.Indexed cfg.storage) {a b : Node} (first : Found cfg σ request a)
    (second : Found cfg σ request b) (ranked : localRank cfg σ request a ≤ localRank cfg σ request b) :
    RanksWith cfg request a b := by
  intro term within occurring
  have best : ((hits cfg σ request b).map (scoreNodeMatch cfg.storage b)).foldl max 0 ≤
      ((hits cfg σ request a).map (scoreNodeMatch cfg.storage a)).foldl max 0 := by
    rcases Prod.Lex.le_iff.mp (OrderDual.toDual_le_toDual.mp ranked) with below | ⟨tied, _⟩
    · exact Nat.le_of_lt below
    · exact Nat.le_of_eq tied
  have member := (mem_hits indexed second.stored).mpr ⟨within, occurring⟩
  have here := le_foldl_max (List.mem_map_of_mem (f := scoreNodeMatch cfg.storage b) member)
  obtain ⟨hit, hit_within, hit_occurs⟩ := first.text
  have some_hit : (hits cfg σ request a).map (scoreNodeMatch cfg.storage a) ≠ [] :=
    List.ne_nil_of_mem (List.mem_map_of_mem ((mem_hits indexed first.stored).mpr ⟨hit_within, hit_occurs⟩))
  obtain ⟨score, reached, most⟩ := exists_foldl_max_le some_hit
  obtain ⟨other, found, rfl⟩ := List.mem_map.mp reached
  obtain ⟨other_within, other_occurs⟩ := (mem_hits indexed first.stored).mp found
  refine ⟨other, other_within, other_occurs, Tier.le_of_points_le ?_⟩
  calc (tier cfg.storage b term).points
      ≤ scoreNodeMatch cfg.storage b term := (scoreNodeMatch_bounds cfg.storage b term).1
    _ ≤ scoreNodeMatch cfg.storage a other := (here.trans best).trans most
    _ ≤ (tier cfg.storage a other).points + 1800 := (scoreNodeMatch_bounds cfg.storage a other).2

/-- A cut list is a beginning, and what it leaves out only makes room for as many as the limit says. -/
theorem upTo_spec {α : Type} (limit : ℤ) (l : List α) : ∃ rest, l = upTo limit l ++ rest ∧ (rest = [] ∨ limit ≤ (upTo limit l).length) := by
  rw [upTo]
  split
  · refine ⟨l.drop limit.toNat, (List.take_append_drop _ _).symm, ?_⟩
    rw [List.drop_eq_nil_iff, List.length_take]
    omega
  · refine ⟨_, (List.take_append_drop _ _).symm, .inr ?_⟩
    omega

theorem searchNodes_ranked (indexed : σ.Indexed cfg.storage) (wanted : matchAll cfg request = false) (limit : ℤ) :
    Ranked cfg σ request limit (searchNodes cfg σ request limit) := by
  obtain ⟨rest, whole, full⟩ := upTo_spec limit (localMatches cfg σ request)
  rw [← searchNodes] at whole full
  have found : ∀ node, node ∈ searchNodes cfg σ request limit ++ rest ↔ Found cfg σ request node := by
    intro node
    rw [← whole]
    exact mem_localMatches indexed wanted
  have ordered : (searchNodes cfg σ request limit ++ rest).Pairwise (RanksWith cfg request) := by
    have sorted : (localMatches cfg σ request).Pairwise fun a b => localRank cfg σ request a ≤ localRank cfg σ request b := by
      rw [localMatches, wanted, if_neg Bool.false_ne_true]
      exact pairwise_sortOn _
    rw [whole] at sorted
    exact sorted.imp_of_mem fun first second ranked =>
      ranksWith_of_localRank_le indexed ((found _).mp first) ((found _).mp second) ranked
  obtain ⟨kept, -, across⟩ := List.pairwise_append.mp ordered
  refine ⟨kept, fun node member => (found node).mp (List.mem_append_left rest member), fun node matched => ?_⟩
  rcases List.mem_append.mp ((found node).mpr matched) with returned | omitted
  · exact .inl returned
  · exact .inr ⟨full.resolve_left (List.ne_nil_of_mem omitted), fun other member => across other member node omitted⟩

/-- What the search takes for granted of `strip` and `split`: a word of a text occurs in it, and a
text that is not blank has one. -/
structure Splits (cfg : SearchConfig) : Prop where
  word_occurs : ∀ text, ∀ word ∈ cfg.split text, occurs word text = true
  some_word : ∀ text, cfg.texts.strip text ≠ "" → cfg.split (cfg.texts.strip text) ≠ []

theorem occurs_trans {word phrase text : String} (first : occurs word phrase = true) (second : occurs phrase text = true) :
    occurs word text = true :=
  decide_eq_true ((of_decide_eq_true first).trans (of_decide_eq_true second))

/-- A node with the whole phrase has one of its words. -/
theorem Found.any_term (splits : Splits cfg) (wanted : matchAll cfg request = false) {node : Node}
    (found : Found cfg σ { request with matchMode := "substring" } node) :
    Found cfg σ { request with matchMode := "any_term" } node := by
  refine ⟨found.stored, found.typed, found.shown, ?_⟩
  obtain ⟨phrase, within, occurring⟩ := found.text
  have whole : phrase = queryLower cfg request := List.mem_singleton.mp within
  have words : terms cfg { request with matchMode := "any_term" } =
      (cfg.split (queryLower cfg request)).eraseDups.take maxAnyTermTerms := if_pos ⟨rfl, wanted⟩
  have nonblank : queryLower cfg request ≠ "" := fun blank => by
    rw [matchAll, blank] at wanted
    exact absurd wanted (by decide)
  cases split : cfg.split (queryLower cfg request) with
  | nil => exact absurd split (splits.some_word _ nonblank)
  | cons word others =>
    refine ⟨word, ?_, occurs_trans (splits.word_occurs (queryLower cfg request) word (split ▸ List.mem_cons_self)) ?_⟩
    · rw [words, split, List.eraseDups_cons, maxAnyTermTerms, List.take_succ_cons]
      exact List.mem_cons_self
    · exact whole ▸ occurring

/-- The distinct words of the query fit into the terms of a search. -/
def Fits (cfg : SearchConfig) (request : SearchRequest) : Prop :=
  (cfg.split (queryLower cfg request)).eraseDups.length ≤ maxAnyTermTerms

theorem mem_terms_of_fits (wanted : matchAll cfg request = false) (any : request.matchMode = "any_term") (fits : Fits cfg request) :
    terms cfg request = (cfg.split (queryLower cfg request)).eraseDups := by
  rw [terms, if_pos ⟨any, wanted⟩, List.take_of_length_le fits]

/-- The same words in another order, or repeated, find the same nodes in the same order. -/
theorem searchNodes_same_words {query : String} (any : request.matchMode = "any_term") (wanted : matchAll cfg request = false)
    (wanted' : matchAll cfg { request with query } = false) (fits : Fits cfg request) (fits' : Fits cfg { request with query })
    (same : ∀ word, word ∈ cfg.split (queryLower cfg request) ↔ word ∈ cfg.split (queryLower cfg { request with query }))
    (limit : ℤ) : searchNodes cfg σ { request with query } limit = searchNodes cfg σ request limit := by
  have shuffled : (terms cfg { request with query }).Perm (terms cfg request) := by
    rw [mem_terms_of_fits wanted any fits, mem_terms_of_fits wanted' any fits']
    refine (List.perm_ext_iff_of_nodup (OrderedDict.nodup_eraseDups _) (OrderedDict.nodup_eraseDups _)).mpr fun word => ?_
    rw [List.mem_eraseDups, List.mem_eraseDups]
    exact (same word).symm
  have found : ∀ node, (hits cfg σ { request with query } node).Perm (hits cfg σ request node) := fun node => shuffled.filter _
  have ranks : localRank cfg σ { request with query } = localRank cfg σ request := by
    funext node
    have best : ((hits cfg σ { request with query } node).map (scoreNodeMatch cfg.storage node)).foldl max 0 =
        ((hits cfg σ request node).map (scoreNodeMatch cfg.storage node)).foldl max 0 :=
      foldl_max_congr fun score => ((found node).map _).mem_iff
    simp only [localRank, best, (found node).length_eq]
  have matched : ∀ node, matchesLocal cfg σ { request with query } node = matchesLocal cfg σ request node := by
    intro node
    have emptiness : hits cfg σ { request with query } node = [] ↔ hits cfg σ request node = [] :=
      ⟨fun empty => (empty ▸ (found node).symm).eq_nil, fun empty => (empty ▸ found node).eq_nil⟩
    simp only [matchesLocal, wanted, wanted', ne_eq, emptiness]
  rw [searchNodes, searchNodes, localMatches, localMatches, wanted, wanted', ranks]
  simp only [matched]

/-- The search ranks by tiers, finds with any term all that the phrase finds as far as the limit goes, and does not
mind the order of the terms. -/
theorem search_ranked (indexed : σ.Indexed cfg.storage) (splits : Splits cfg) (request : SearchRequest) (limit : ℤ) :
    (matchAll cfg request = true → searchNodes cfg σ request limit = upTo limit ((σ.nodes.values.map σ.node).filter fun node =>
      (request.includeArchived || !node.archived) && (request.nodeTypes = [] || node.typeStr ∈ request.nodeTypes))) ∧
      (matchAll cfg request = false →
        Ranked cfg σ request limit (searchNodes cfg σ request limit) ∧
        (∀ node ∈ searchNodes cfg σ { request with matchMode := "substring" } limit,
          node ∈ searchNodes cfg σ { request with matchMode := "any_term" } limit ∨
            limit ≤ (searchNodes cfg σ { request with matchMode := "any_term" } limit).length) ∧
        ∀ query, matchAll cfg { request with query } = false → Fits cfg request → Fits cfg { request with query } →
          (∀ word, word ∈ cfg.split (queryLower cfg request) ↔ word ∈ cfg.split (queryLower cfg { request with query })) →
          searchNodes cfg σ { request with query, matchMode := "any_term" } limit =
            searchNodes cfg σ { request with matchMode := "any_term" } limit) := by
  refine ⟨fun all => ?_, fun wanted => ⟨searchNodes_ranked indexed wanted limit, fun node member => ?_, ?_⟩⟩
  · rw [searchNodes, localMatches, all, if_pos rfl]
    simp only [matchesLocal, all, Bool.true_or, Bool.and_true]
  · have phrase : matchAll cfg { request with matchMode := "substring" } = false := wanted
    have any : matchAll cfg { request with matchMode := "any_term" } = false := wanted
    have found := ((searchNodes_ranked indexed phrase limit).sound node member).any_term splits wanted
    exact ((searchNodes_ranked indexed any limit).complete node found).imp_right And.left
  · intro query wanted' fits fits' same
    have any : ({ request with matchMode := "any_term" } : SearchRequest).matchMode = "any_term" := rfl
    exact searchNodes_same_words any wanted wanted' fits fits' same limit

theorem data_limits : FieldLimits "data" "" "" [] [] := by decide +kernel

theorem open_data_limits : FieldLimits "open data" "" "" [] [] := by decide +kernel

/-- Two offices of which one is named as the other and more. -/
def dataStore : Storage :=
  let σ := ((default : Storage).newNode (sampleActor "x" "data" data_limits)).putNode sampleConfig 0
  (σ.newNode (sampleActor "y" "open data" open_data_limits)).putNode sampleConfig 1

theorem dataStore_indexed : dataStore.Indexed sampleConfig := by
  have empty : ({} : Storage).Indexed sampleConfig := Storage.Indexed.clear sampleConfig {}
  have one := @Storage.Indexed.putNode _ _
    (empty.kept (.newNode sampleConfig (sampleActor "x" "data" data_limits) {})) 0 (by decide)
  exact @Storage.Indexed.putNode _ _
    (one.kept (.newNode sampleConfig (sampleActor "y" "open data" open_data_limits) _)) 1 (by decide)

/-- The words of the query at hand. -/
def dataSearch : SearchConfig :=
  { sampleSearch with split := fun text => if text = "open data" then ["open", "data"] else [text] }

theorem dataSearch_splits : Splits dataSearch := by
  have words : ∀ text, dataSearch.split text = if text = "open data" then ["open", "data"] else [text] := fun _ => rfl
  refine ⟨fun text word member => ?_, fun text _ => ?_⟩
  · rw [words] at member
    split at member
    · rename_i two
      subst two
      revert word
      decide
    · rw [List.mem_singleton.mp member]
      exact decide_eq_true (List.infix_refl _)
  · rw [words]
    split
    · exact List.cons_ne_nil _ _
    · exact List.cons_ne_nil _ _

theorem search_ranked_data :
    Ranked dataSearch dataStore { query := "open data" } 1 (searchNodes dataSearch dataStore { query := "open data" } 1) :=
  ((search_ranked dataStore_indexed dataSearch_splits { query := "open data" } 1).2 (by decide +kernel)).1

/-- Up to the limit, the search for any term leaves out what the phrase finds. -/
theorem any_term_misses_phrase : dataStore.Indexed dataSearch.storage ∧ Splits dataSearch ∧
    (searchNodes dataSearch dataStore { query := "open data" } 1).map Node.id = ["y"] ∧
      (searchNodes dataSearch dataStore { query := "open data", matchMode := "any_term" } 1).map Node.id = ["x"] :=
  ⟨dataStore_indexed, dataSearch_splits, by decide +kernel⟩

end MetadataGraph.Service
