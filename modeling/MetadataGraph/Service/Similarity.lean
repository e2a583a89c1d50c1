import MetadataGraph.Service.Page
import Mathlib.Algebra.Order.Field.Rat

namespace MetadataGraph.Service.Similarity

open MetadataGraph.Graph ObjectHeap StableSort

/-- What similarity takes from its surroundings: `strip` and `lower`, whether the embedding model is
installed, the cosine similarity of a text and the embedding of a node, the edit distance of two names,
and `round(score, 2)`. -/
structure SimilarityConfig where
  strip : String → String
  lower : String → String
  encodes : Bool := true
  cosine : String → String → ℚ
  distance : String → String → ℕ
  round : ℚ → ℚ

variable (cfg : SimilarityConfig)

/-- `VectorStore.search` for a text, before it is cut to the limit. -/
def rankedHits (v : VectorStore) (queryText : String) (threshold : ℚ) : List (String × ℚ) :=
  if v.embeddings.entries = [] ∨ v.embeddingMatrix = none ∨ queryText = "" ∨ cfg.encodes = false then []
  else
    sortOn (fun hit => OrderDual.toDual hit.2)
      ((v.nodeIds.map fun id => (id, cfg.cosine queryText id)).filter fun hit => threshold ≤ hit.2)

/-- `VectorStore.search`. -/
def vectorSearch (v : VectorStore) (queryText : String) (limit : ℤ) (threshold : ℚ) : List (String × ℚ) :=
  upTo limit (rankedHits cfg v queryText threshold)

/-- A node passes the filters of `semantic_search_nodes`. -/
def passes (nodeTypes : List String) (includeArchived : Bool) (node : Node) : Bool :=
  (nodeTypes = [] || node.typeStr ∈ nodeTypes) && (includeArchived || !node.archived)

/-- The nodes of hits that pass the filters. -/
def passing (σ : Storage) (nodeTypes : List String) (includeArchived : Bool) (hits : List (String × ℚ)) : List Node :=
  (hits.filterMap fun hit => (σ.nodes.get? hit.1).map σ.node).filter (passes nodeTypes includeArchived)

def isMatchAll (query : String) : Bool := cfg.strip query = "" || cfg.strip query = "*"

/-- `semantic_search_nodes`. The loop stops after a node has filled the limit. -/
def semanticSearchNodes (σ : Storage) (query : String) (nodeTypes : List String) (limit : ℤ) (threshold : ℚ)
    (includeArchived : Bool) : List Node :=
  if isMatchAll cfg query then []
  else
    (passing σ nodeTypes includeArchived (vectorSearch cfg σ.vectorStore (cfg.strip query) (max (limit * 4) limit) threshold)).take
      (max 1 limit.toNat)

structure SimilarNode where
  node : Node
  similarityScore : ℚ
  matchReason : String

/-- `int(score * 100)`. -/
def percent (score : ℚ) : ℤ := (score * 100).num.tdiv (score * 100).den

def nameSimilarity (name nodeName : String) : ℚ :=
  let nameLower := cfg.lower name
  let nodeNameLower := cfg.lower nodeName
  let maxLen := max nameLower.length nodeNameLower.length
  if maxLen = 0 then 1 else 1 - cfg.distance nameLower nodeNameLower / maxLen

/-- The node's type is the one that is asked for, if any is. -/
def isType (nodeType : Option String) (node : Node) : Bool := nodeType.all fun type => type = "" || node.typeStr = type

/-- The nodes with a similar name. -/
def byName (σ : Storage) (name : String) (nodeType : Option String) (threshold : ℚ) : List SimilarNode :=
  ((σ.nodes.values.map σ.node).filter fun node => isType nodeType node && threshold ≤ nameSimilarity cfg name node.name).map
    fun node =>
      { node
        similarityScore := cfg.round (nameSimilarity cfg name node.name)
        matchReason := "Name similarity: " ++ toString (percent (nameSimilarity cfg name node.name)) ++ "%" }

/-- The loop over the hits of the vector store, after some ids have been seen. -/
def byMeaning (σ : Storage) (nodeType : Option String) : List String → List (String × ℚ) → List SimilarNode
  | _, [] => []
  | seen, (nodeId, score) :: hits =>
    if nodeId ∈ seen then byMeaning σ nodeType seen hits
    else match σ.nodes.get? nodeId with
      | none => byMeaning σ nodeType seen hits
      | some ref =>
        if isType nodeType (σ.node ref) then
          { node := σ.node ref
            similarityScore := cfg.round score
            matchReason := "Semantic similarity: " ++ toString (percent score) ++ "%" } ::
              byMeaning σ nodeType (nodeId :: seen) hits
        else byMeaning σ nodeType seen hits

def vectorThreshold (threshold : ℚ) : ℚ := max (2 / 5) (threshold - 1 / 5)

/-- All that `find_similar_nodes` can return, where it is given the hits of the vector store. -/
def similarTo (σ : Storage) (name : String) (nodeType : Option String) (threshold : ℚ) (hits : List (String × ℚ)) :
    List SimilarNode :=
  let results := byName cfg σ name nodeType threshold
  results ++ byMeaning cfg σ nodeType (results.map (·.node.id)) hits

def best (results : List SimilarNode) : List SimilarNode := sortOn (fun result => OrderDual.toDual result.similarityScore) results

/-- `find_similar_nodes`. -/
def findSimilarNodes (σ : Storage) (name : String) (nodeType : Option String) (threshold : ℚ) (limit : ℤ) : List SimilarNode :=
  upTo limit (best (similarTo cfg σ name nodeType threshold
    (vectorSearch cfg σ.vectorStore name limit (vectorThreshold threshold))))

section Semantic

variable {cfg : SimilarityConfig} {σ : Storage} {query : String} {nodeTypes : List String} {threshold : ℚ}
  {includeArchived : Bool}

theorem passing_append (first rest : List (String × ℚ)) :
    passing σ nodeTypes includeArchived (first ++ rest) =
      passing σ nodeTypes includeArchived first ++ passing σ nodeTypes includeArchived rest := by
  rw [passing, List.filterMap_append, List.filter_append]
  rfl

/-- The first elements of a list are those of its beginning iff that is long enough or is all of it. -/
theorem take_eq_take_append_iff {α : Type} (n : ℕ) (l m : List α) : l.take n = (l ++ m).take n ↔ n ≤ l.length ∨ m = [] := by
  rw [List.take_append]
  constructor
  · intro same
    have nothing : m.take (n - l.length) = [] := List.self_eq_append_right.mp same
    rcases List.take_eq_nil_iff.mp nothing with enough | empty
    · exact .inl (by omega)
    · exact .inr empty
  · rintro (enough | rfl)
    · rw [Nat.sub_eq_zero_of_le enough, List.take_zero, List.append_nil]
    · rw [List.take_nil, List.append_nil]

/-- All nodes that pass the filters and the threshold, best first. -/
def semanticMatches (cfg : SimilarityConfig) (σ : Storage) (query : String) (nodeTypes : List String) (threshold : ℚ)
    (includeArchived : Bool) : List Node :=
  passing σ nodeTypes includeArchived (rankedHits cfg σ.vectorStore (cfg.strip query) threshold)

/-- Among the hits that are fetched enough pass the filters, or among the others none does. -/
def Suffices (cfg : SimilarityConfig) (σ : Storage) (query : String) (nodeTypes : List String) (threshold : ℚ)
    (includeArchived : Bool) (limit : ℕ) : Prop :=
  let ranked := rankedHits cfg σ.vectorStore (cfg.strip query) threshold
  limit ≤ (passing σ nodeTypes includeArchived (ranked.take (limit * 4))).length ∨
    passing σ nodeTypes includeArchived (ranked.drop (limit * 4)) = []

theorem vectorSearch_nat (v : VectorStore) (queryText : String) (limit : ℕ) :
    vectorSearch cfg v queryText limit threshold = (rankedHits cfg v queryText threshold).take limit := by
  rw [vectorSearch, upTo, if_pos (Int.natCast_nonneg limit), Int.toNat_natCast]

theorem semanticSearchNodes_nat (limit : ℕ) (wanted : isMatchAll cfg query = false) :
    semanticSearchNodes cfg σ query nodeTypes limit threshold includeArchived =
      (passing σ nodeTypes includeArchived
        ((rankedHits cfg σ.vectorStore (cfg.strip query) threshold).take (limit * 4))).take limit := by
  have fetched : max ((limit : ℤ) * 4) limit = ((limit * 4 : ℕ) : ℤ) := by omega
  rw [semanticSearchNodes, wanted, if_neg Bool.false_ne_true, fetched, vectorSearch_nat, Int.toNat_natCast]
  cases limit with
  | zero => simp [passing]
  | succ n => rw [Nat.max_eq_right (Nat.succ_pos n)]

theorem semanticSearchNodes_iff (limit : ℕ) :
    semanticSearchNodes cfg σ query nodeTypes limit threshold includeArchived =
        (semanticMatches cfg σ query nodeTypes threshold includeArchived).take limit ↔
      if isMatchAll cfg query = true then
        limit = 0 ∨ semanticMatches cfg σ query nodeTypes threshold includeArchived = []
      else Suffices cfg σ query nodeTypes threshold includeArchived limit := by
  by_cases all : isMatchAll cfg query = true
  · rw [if_pos all, semanticSearchNodes, if_pos all, eq_comm, List.take_eq_nil_iff]
  · rw [if_neg all, semanticSearchNodes_nat limit (Bool.eq_false_of_not_eq_true all), Suffices,
      ← take_eq_take_append_iff, ← passing_append, List.take_append_drop]
    rfl

end Semantic

section Names

variable {cfg : SimilarityConfig} {σ : Storage} {nodeType : Option String}

/-- The loop can take the node of an id. -/
def Takes (σ : Storage) (nodeType : Option String) (id : String) : Prop :=
  ∃ ref, σ.nodes.get? id = some ref ∧ isType nodeType (σ.node ref) = true

theorem byMeaning_cons_of_not_takes {id : String} (not_taken : ¬ Takes σ nodeType id) (seen : List String) (score : ℚ)
    (hits : List (String × ℚ)) :
    byMeaning cfg σ nodeType seen ((id, score) :: hits) = byMeaning cfg σ nodeType seen hits := by
  rw [byMeaning]
  split
  · rfl
  · cases found : σ.nodes.get? id with
    | none => rfl
    | some ref => exact if_neg fun is_type => not_taken ⟨ref, found, is_type⟩

/-- Ids of which the loop takes no node may or may not have been seen. -/
theorem byMeaning_congr {seen seen' : List String} (same : ∀ id, Takes σ nodeType id → (id ∈ seen ↔ id ∈ seen'))
    (hits : List (String × ℚ)) : byMeaning cfg σ nodeType seen hits = byMeaning cfg σ nodeType seen' hits := by
  induction hits generalizing seen seen' with
  | nil => rfl
  | cons hit hits ih =>
    obtain ⟨id, score⟩ := hit
    by_cases taken : Takes σ nodeType id
    · obtain ⟨ref, found, is_type⟩ := taken
      have agree := same id ⟨ref, found, is_type⟩
      rw [byMeaning, byMeaning, found]
      by_cases known : id ∈ seen
      · rw [if_pos known, if_pos (agree.mp known), ih same]
      · rw [if_neg known, if_neg fun known' => known (agree.mpr known')]
        simp only [is_type, if_true]
        rw [ih fun other taken => ?_]
        rw [List.mem_cons, List.mem_cons, same other taken]
    · rw [byMeaning_cons_of_not_takes taken, byMeaning_cons_of_not_takes taken, ih same]

theorem byMeaning_append (seen : List String) (first rest : List (String × ℚ)) :
    byMeaning cfg σ nodeType seen (first ++ rest) =
      byMeaning cfg σ nodeType seen first ++ byMeaning cfg σ nodeType (first.map Prod.fst ++ seen) rest := by
  induction first generalizing seen with
  | nil => rfl
  | cons hit first ih =>
    obtain ⟨id, score⟩ := hit
    rw [List.cons_append]
    by_cases taken : Takes σ nodeType id
    · obtain ⟨ref, found, is_type⟩ := taken
      rw [byMeaning, byMeaning, found]
      by_cases known : id ∈ seen
      · rw [if_pos known, if_pos known, ih]
        congr 1
        refine byMeaning_congr (fun other _ => ?_) rest
        rw [List.map_cons, List.cons_append, List.mem_cons, or_iff_right_of_imp]
        rintro rfl
        exact List.mem_append_right _ known
      · simp only [if_neg known, is_type, if_true]
        rw [ih, List.cons_append]
        congr 2
        refine byMeaning_congr (fun other _ => ?_) rest
        simp only [List.map_cons, List.cons_append, List.mem_cons, List.mem_append]
        tauto
    · rw [byMeaning_cons_of_not_takes taken, byMeaning_cons_of_not_takes taken, ih]
      congr 1
      refine byMeaning_congr (fun other takes => ?_) rest
      have different : other ≠ id := fun same => taken (same ▸ takes)
      simp [different]

variable {name : String} {threshold : ℚ}

/-- The hits from which the vector store gives `find_similar_nodes` the first. -/
def meaningHits (cfg : SimilarityConfig) (σ : Storage) (name : String) (threshold : ℚ) : List (String × ℚ) :=
  rankedHits cfg σ.vectorStore name (vectorThreshold threshold)

/-- What only hits after the first ones give. -/
def late (cfg : SimilarityConfig) (σ : Storage) (name : String) (nodeType : Option String) (threshold : ℚ) (limit : ℕ) :
    List SimilarNode :=
  byMeaning cfg σ nodeType
    (((meaningHits cfg σ name threshold).take limit).map Prod.fst ++ (byName cfg σ name nodeType threshold).map (·.node.id))
    ((meaningHits cfg σ name threshold).drop limit)

/-- Each result that only a later hit gives finds enough results before it. -/
def Crowded (cfg : SimilarityConfig) (σ : Storage) (name : String) (nodeType : Option String) (threshold : ℚ) (limit : ℕ) :
    Prop :=
  ∀ result ∈ late cfg σ name nodeType threshold limit,
    limit ≤ (similarTo cfg σ name nodeType threshold ((meaningHits cfg σ name threshold).take limit)).countP
      fun other => result.similarityScore ≤ other.similarityScore

theorem findSimilarNodes_iff (limit : ℕ) :
    findSimilarNodes cfg σ name nodeType threshold limit =
        (best (similarTo cfg σ name nodeType threshold (meaningHits cfg σ name threshold))).take limit ↔
      Crowded cfg σ name nodeType threshold limit := by
  have whole : similarTo cfg σ name nodeType threshold (meaningHits cfg σ name threshold) =
      similarTo cfg σ name nodeType threshold ((meaningHits cfg σ name threshold).take limit) ++
        late cfg σ name nodeType threshold limit := by
    rw [similarTo, similarTo, late, List.append_assoc, ← byMeaning_append, List.take_append_drop]
  rw [whole, findSimilarNodes, vectorSearch_nat, upTo, if_pos (Int.natCast_nonneg limit), Int.toNat_natCast, eq_comm]
  exact take_sortOn_append_iff limit _ _

end Names

/-- Four archived offices and a live one, which is a little less similar. -/
def sampleOffices : Storage :=
  let office (id : String) (archived : Bool) : Node := { sampleActor id "Office" office_limits with archived }
  let nodes := [office "a" true, office "b" true, office "c" true, office "d" true, office "e" false]
  let stored := nodes.zipIdx.foldl (fun (σ : Storage) entry => (σ.newNode entry.1).putNode sampleConfig entry.2) default
  let vectors : VectorStore :=
    { embeddings := .ofList (nodes.map fun node => (node.id, [1])), nodeIds := nodes.map Node.id,
      embeddingMatrix := some (nodes.map fun _ => [1]) }
  { stored with vectorStore := vectors }

def sampleSimilarity : SimilarityConfig where
  strip := id
  lower := id
  cosine _ id := if id = "e" then 1 / 2 else 1
  distance _ _ := 0
  round := id

end MetadataGraph.Service.Similarity
