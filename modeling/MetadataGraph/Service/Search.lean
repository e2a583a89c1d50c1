import MetadataGraph.Lib.StableSort
import MetadataGraph.Graph.Consistency
import MetadataGraph.Federation.Models
import MetadataGraph.Service.Access
import Mathlib.Data.List.Infix
import Mathlib.Data.Prod.Lex
import Mathlib.Order.OrderDual

namespace MetadataGraph.Service

open MetadataGraph.Graph MetadataGraph.Federation ObjectHeap StableSort

/-- What the search takes from its surroundings besides: Python's `str.split` and `int` of a text,
the node types of the configuration, the ids that the vector store ranks for a text, the order in
which a set of ids is listed, and the depths that are configured for federated graphs. -/
structure SearchConfig where
  storage : StorageConfig
  texts : Texts
  split : String → List String
  parseInt : String → Option ℤ
  isValidNodeType : String → Bool
  vectorSearch : VectorStore → String → ℤ → List String
  setOrder : SetOrder
  maxTraversalDepth : ℤ := 1
  maxDepthOverride : String → Option ℤ := fun _ => none

/-- One generic metadata filter. A filter that is no dict has no key. -/
structure MetadataFilter where
  key : String := ""
  values : Json := .null
  mode : Json := .null

/-- The arguments of `search_graph`. No types and an empty list of them are the same. -/
structure SearchRequest where
  query : String
  nodeTypes : List String := []
  limit : ℤ := 50
  federationDepth : Option ℤ := none
  tagsAny : List String := []
  tagsAll : List String := []
  tagsNone : List String := []
  metadataFilters : List MetadataFilter := []
  includeArchived : Bool := false
  semantic : Bool := false
  matchMode : String := "substring"

/-- `xs[:limit]`. -/
def upTo {α : Type} (limit : ℤ) (xs : List α) : List α :=
  if 0 ≤ limit then xs.take limit.toNat else xs.take (xs.length - limit.natAbs)

/-- `part in text`. -/
def occurs (part text : String) : Bool := part.toList <:+: text.toList

def startsWith (text part : String) : Bool := part.toList <+: text.toList

section Scores

def nameScore (nameLower query : String) : ℕ :=
  if nameLower = query then 500000
  else if startsWith nameLower query then 400000
  else if occurs query nameLower then 300000
  else 0

def aliasScore (aliasesLower : List String) (query : String) : ℕ :=
  if query ∈ aliasesLower then 250000
  else if aliasesLower.any (startsWith · query) then 220000
  else if aliasesLower.any (occurs query) then 200000
  else 0

/-- The score of both searches; they differ in the text in which the type is looked for. -/
def scoreWith (lower : String → String) (typeText : String) (node : Node) (query : String) : ℕ :=
  let typeNameLower := lower node.typeText
  let tagsLower := node.tags.map lower
  max (nameScore (lower node.name) query) (aliasScore (node.aliases.map lower) query) +
    (if typeNameLower = query then 700
      else if startsWith typeNameLower query then 650
      else if occurs query typeText then 600 else 0) +
    (if query ∈ tagsLower then 500 else if tagsLower.any (occurs query) then 450 else 0) +
    (if node.subtypes.any fun subtype => occurs query (lower subtype) then 400 else 0) +
    (if occurs query (lower node.description) || occurs query (lower node.summary) then 200 else 0)

/-- `score_node_match` of the storage, which knows the labels of a type. -/
def scoreNodeMatch (cfg : StorageConfig) (node : Node) (query : String) : ℕ :=
  scoreWith cfg.lower (cfg.typeSearchableText[node.typeText]?.getD (cfg.lower node.typeText)) node query

/-- `_score_node_match` of the federation manager. -/
def scoreFederated (cfg : StorageConfig) (node : Node) (query : String) : ℕ :=
  scoreWith cfg.lower (cfg.lower node.typeText) node query

end Scores

section Filters

/-- `_matches_tag_filters`. -/
def matchesTagFilters (request : SearchRequest) (present : List String) : Bool :=
  (request.tagsAll.all (· ∈ present)) &&
    (request.tagsAny = [] || request.tagsAny.any (· ∈ present)) &&
    (request.tagsNone.all (· ∉ present))

/-- `_as_value_set`. -/
def asValueSet (t : Texts) : Json → List String
  | .null => []
  | .arr items => items.map t.str
  | value => [t.str value]

/-- One metadata filter; a mode that is not known counts as `any`. -/
def matchesMetadataFilter (cfg : SearchConfig) (metadata : Dict Json) (spec : MetadataFilter) : Bool :=
  let requested := asValueSet cfg.texts spec.values
  let present := asValueSet cfg.texts (metadata.get spec.key)
  let mode := cfg.storage.lower (cfg.texts.str (spec.mode.orElse (.str "any")))
  if spec.key = "" ∨ requested = [] then true
  else if mode = "all" then requested.all (· ∈ present)
  else if mode = "none" then requested.all (· ∉ present)
  else requested.any (· ∈ present)

/-- `_node_matches_search_filters`. -/
def passesFilters (cfg : SearchConfig) (request : SearchRequest) (node : Node) : Bool :=
  matchesTagFilters request node.tags && request.metadataFilters.all (matchesMetadataFilter cfg node.metadata)

def SearchRequest.hasGenericFilters (request : SearchRequest) : Bool :=
  request.tagsAll ≠ [] || request.tagsAny ≠ [] || request.tagsNone ≠ [] || request.metadataFilters ≠ []

end Filters

section Local

variable (cfg : SearchConfig) (σ : Storage) (request : SearchRequest)

/-- The query as both lexical searches compare it. -/
def queryLower : String := cfg.texts.strip (cfg.storage.lower request.query)

def matchAll : Bool := queryLower cfg request = "" || queryLower cfg request = "*"

def maxAnyTermTerms : ℕ := 32

/-- The query, or in the mode `any_term` its first distinct words. -/
def terms : List String :=
  if request.matchMode = "any_term" ∧ matchAll cfg request = false then
    (cfg.split (queryLower cfg request)).eraseDups.take maxAnyTermTerms
  else [queryLower cfg request]

/-- The terms that occur in the node's searchable text. -/
def hits (node : Node) : List String :=
  let searchableText := (σ.searchableText.get? node.id).getD (buildSearchableText cfg.storage node)
  (terms cfg request).filter (occurs · searchableText)

/-- The type and the text of a node are asked for. -/
def matchesLocal (node : Node) : Bool :=
  (request.nodeTypes = [] || node.typeStr ∈ request.nodeTypes) &&
    (matchAll cfg request || hits cfg σ request node ≠ [])

/-- The best score of a term, and the number of terms for a tie. -/
def localRank (node : Node) : (ℕ ×ₗ ℕ)ᵒᵈ :=
  let found := hits cfg σ request node
  .toDual (toLex ((found.map (scoreNodeMatch cfg.storage node)).foldl max 0, found.length))

/-- The nodes that `storage.search_nodes` finds, best first, before it cuts them to a limit. -/
def localMatches : List Node :=
  let results := (σ.nodes.values.map σ.node).filter fun node =>
    (request.includeArchived || !node.archived) && matchesLocal cfg σ request node
  if matchAll cfg request then results else sortOn (localRank cfg σ request) results

/-- `storage.search_nodes`. -/
def searchNodes (limit : ℤ) : List Node := upTo limit (localMatches cfg σ request)

/-- `storage.semantic_search_nodes`. The loop stops after a node has filled the limit. -/
def semanticSearchNodes (limit : ℤ) : List Node :=
  let queryText := cfg.texts.strip request.query
  if queryText = "" ∨ queryText = "*" then []
  else
    let ranked := cfg.vectorSearch σ.vectorStore queryText (max (limit * 4) limit)
    ((ranked.filterMap fun id => (σ.nodes.get? id).map σ.node).filter fun node =>
      (request.nodeTypes = [] || node.typeStr ∈ request.nodeTypes) && (request.includeArchived || !node.archived)).take
        (max 1 limit.toNat)

/-- `storage.get_incident_edges`. -/
def incidentEdges (ids : List String) : List Edge :=
  (OrderedDict.ofList (ids.flatMap fun id =>
    if id ∈ σ.nodes.keys then
      (σ.graph.arcs.entries.filter fun arc => arc.1.1 = id || arc.1.2.1 = id).map fun arc =>
        ((σ.edge arc.2).id, σ.edge arc.2)
    else [])).values

/-- An end of the edge is a local node that is archived. -/
def localEndpointArchived (edge : Edge) : Bool :=
  [edge.source, edge.target].any fun id => ((σ.nodes.get? id).map fun ref => (σ.node ref).archived).getD false

end Local

section Federated

variable (cfg : SearchConfig) (m : FederationManager) (request : SearchRequest)

/-- `int(value)`. -/
def readInt (parse : String → Option ℤ) : Json → Option ℤ
  | .num q => some (q.num.tdiv q.den)
  | .bool b => some (if b then 1 else 0)
  | .str s => parse s
  | .null | .arr _ | .obj _ => none

def allowedDepthForGraph (graphId : Json) : ℤ :=
  let globalDepth := if cfg.maxTraversalDepth ≤ 0 then 1 else cfg.maxTraversalDepth
  match (graphId.string?.bind m.graphConfig).bind fun graph => cfg.maxDepthOverride graph.graphId with
  | some maxDepthOverride => min globalDepth maxDepthOverride
  | none => globalDepth

/-- The node is not further away than the graph and the request allow. -/
def withinDepth (node : Node) : Bool :=
  let graphId := node.metadata.get "origin_graph_id"
  if graphId.truthy then
    let allowedDepth := allowedDepthForGraph cfg m graphId
    match readInt cfg.parseInt (node.metadata["federation_distance"]?.getD (.num 1)) with
    | some nodeDistance => nodeDistance ≤ (request.federationDepth.map (min allowedDepth)).getD allowedDepth
    | none => false
  else true

def federatedSearchableText (node : Node) : String :=
  cfg.storage.lower (" ".intercalate [node.name, node.description, node.summary, " ".intercalate node.tags,
    " ".intercalate node.subtypes, " ".intercalate node.aliases])

/-- The type, the distance and the text of a cached node are asked for. -/
def matchesFederated (node : Node) : Bool :=
  (request.nodeTypes = [] || node.typeStr ∈ request.nodeTypes) && withinDepth cfg m request node &&
    (matchAll cfg request || occurs (queryLower cfg request) (federatedSearchableText cfg node))

def caches : List FederatedGraphCache := m.graphs.map fun graph => m.cache graph.graphId

/-- The nodes that the manager's `search_nodes` finds, best first, before it cuts them to a limit. -/
def federatedMatches : List Node :=
  let matched := ((caches m).flatMap fun cache => cache.nodes.values).filter (matchesFederated cfg m request)
  if matchAll cfg request then matched
  else sortOn (fun node => OrderDual.toDual (scoreFederated cfg.storage node (queryLower cfg request))) matched

/-- The manager's `search_nodes`. -/
def federatedSearchNodes (limit : ℤ) : List Node × List Edge :=
  let nodes := upTo limit (federatedMatches cfg m request)
  (nodes, ((caches m).flatMap fun cache => cache.edges.values).filter fun edge =>
    edge.source ∈ nodes.map Node.id || edge.target ∈ nodes.map Node.id)

/-- `get_federated_search_limit`, where federation is enabled. -/
def federatedSearchLimit (minimumLimit : ℤ) (access : GraphAccessNarrowing) (widen : Bool) : ℤ :=
  if access.enabled = false ∧ widen = false then minimumLimit
  else
    let cached : ℕ := ((caches m).map fun cache => cache.nodes.entries.length).sum
    max minimumLimit cached

end Federated

/-- Why there is no page. -/
inductive Refusal where
  | unknownMatchMode (matchMode : String)
  | accessDenied (decision : GraphAuthorizationDecision)
  | invalidNodeType (name : String)

/-- The result of a search, before it is serialized. -/
structure Page where
  nodes : List Node
  edges : List Edge
  total : ℕ
  semantic : Bool
  federatedNodes : ℕ
  federatedEdges : ℕ

/-- The first edge of every id. -/
def dedupEdges : List String → List Edge → List Edge
  | _, [] => []
  | seen, edge :: rest =>
    if edge.id ∈ seen then dedupEdges seen rest else edge :: dedupEdges (edge.id :: seen) rest

section Search

variable (cfg : SearchConfig) (σ : Storage) (request : SearchRequest) (access : GraphAccessNarrowing)

def searchLimit : ℤ :=
  if access.enabled || request.hasGenericFilters then max request.limit σ.nodes.entries.length else request.limit

/-- `_visible_local`. -/
def visibleLocal (candidates : List Node) : List Node :=
  upTo request.limit (candidates.filter fun node => isNodeVisible cfg.texts access node && passesFilters cfg request node)

/-- The local results, and whether they were ranked by meaning: on demand, or where the lexical
search had no candidates at all. -/
def localResults : List Node × Bool :=
  let semanticCandidates := semanticSearchNodes cfg σ request (searchLimit σ request access)
  let queryIsMatchAll := request.query = "" || cfg.texts.strip request.query = "" || cfg.texts.strip request.query = "*"
  if request.semantic && !queryIsMatchAll then (visibleLocal cfg request access semanticCandidates, true)
  else
    let candidates := searchNodes cfg σ request (searchLimit σ request access)
    let fallback := visibleLocal cfg request access semanticCandidates
    if !request.semantic && candidates.isEmpty && !queryIsMatchAll && !fallback.isEmpty then (fallback, true)
    else (visibleLocal cfg request access candidates, false)

def connectingEdges (nodes : List Node) : List Edge :=
  let edges := incidentEdges σ (cfg.setOrder.order (nodes.map Node.id).dedup)
  if request.includeArchived then edges
  else edges.filter fun edge => !edge.archived && !localEndpointArchived σ edge

/-- The federated part of a result that still has room. -/
def federatedResults (m : FederationManager) (remaining : ℤ) : List Node × List Edge :=
  let federated := federatedSearchNodes cfg m request
    (federatedSearchLimit m remaining access request.hasGenericFilters)
  if request.includeArchived then (federated.1.filter (passesFilters cfg request), federated.2)
  else
    let archivedIds := (federated.1.filter Node.archived).map Node.id
    (federated.1.filter fun node => passesFilters cfg request node && node.id ∉ archivedIds,
      federated.2.filter fun edge => !edge.archived && edge.source ∉ archivedIds && edge.target ∉ archivedIds)

/-- The nodes and edges of both sides. Federation is the manager when there is one and it is enabled. -/
def combined (federation : Option FederationManager) (locals : List Node) : List Node × List Edge :=
  let connecting := connectingEdges cfg σ request locals
  let remaining := max 0 (request.limit - locals.length)
  match federation with
  | some m =>
    if 0 < remaining then
      let federated := federatedResults cfg request access m remaining
      (locals ++ federated.1, connecting ++ federated.2)
    else (locals, connecting)
  | none => (locals, connecting)

/-- The visible part, cut to the limit. -/
def paged (all : List Node × List Edge) : List Node × List Edge :=
  let visible := filterNodesAndEdges cfg.texts access all.1 all.2
  if request.limit < visible.1.length then
    let nodes := upTo request.limit visible.1
    (nodes, visible.2.filter (joins nodes))
  else visible

/-- `search_graph`. -/
def searchGraph (federation : Option FederationManager) (decision : GraphAuthorizationDecision) : Except Refusal Page :=
  if request.matchMode ∉ ["substring", "any_term"] then .error (.unknownMatchMode request.matchMode)
  else if decision.allowed = false then .error (.accessDenied decision)
  else match request.nodeTypes.find? fun name => !(NodeType.all.any (·.value = name) || cfg.isValidNodeType name) with
    | some name => .error (.invalidNodeType name)
    | none =>
      let locals := localResults cfg σ request decision.graphAccess
      let visible := paged cfg request decision.graphAccess
        (combined cfg σ request decision.graphAccess federation locals.1)
      let edges := dedupEdges [] visible.2
      .ok {
        nodes := visible.1
        edges := edges
        total := visible.1.length
        semantic := locals.2
        federatedNodes := (visible.1.filter fun node => nodeGraphId cfg.texts node ≠ "").length
        federatedEdges := (edges.filter fun edge => (edge.metadata.get "origin_graph_id").truthy).length }

end Search

end MetadataGraph.Service
