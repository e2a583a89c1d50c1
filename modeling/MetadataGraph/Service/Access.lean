import MetadataGraph.Graph.Storage

namespace MetadataGraph.Service

open MetadataGraph.Graph

/-- What the access checks use of Python: `str.strip` and the text of a value. -/
structure Texts where
  strip : String → String
  str : Json → String

/-- The part of the graph that an allowed request may see. -/
structure GraphAccessNarrowing where
  enabled : Bool := false
  allowLocalGraph : Bool := true
  includeGraphIds : List String := []

def GraphAccessNarrowing.matchesGraph (t : Texts) (access : GraphAccessNarrowing) (graphId : String) : Bool :=
  let normalizedGraphId := t.strip graphId
  if access.enabled = false then true
  else if normalizedGraphId = "" then access.allowLocalGraph
  else normalizedGraphId ∈ access.includeGraphIds

structure GraphAuthorizationDecision where
  allowed : Bool := true
  reason : String := ""
  mode : String := "permissive"
  source : String := "default"
  graphAccess : GraphAccessNarrowing := {}

def nodeGraphId (t : Texts) (node : Node) : String :=
  t.strip (t.str ((node.metadata.get "origin_graph_id").orElse (.str "")))

def isNodeVisible (t : Texts) (access : GraphAccessNarrowing) (node : Node) : Bool :=
  access.matchesGraph t (nodeGraphId t node)

/-- An edge is kept when both its ends are among the visible nodes. -/
def joins (nodes : List Node) (edge : Edge) : Bool :=
  edge.source ∈ nodes.map Node.id && edge.target ∈ nodes.map Node.id

def filterNodesAndEdges (t : Texts) (access : GraphAccessNarrowing) (nodes : List Node) (edges : List Edge) :
    List Node × List Edge :=
  let visibleNodes := nodes.filter (isNodeVisible t access)
  (visibleNodes, edges.filter (joins visibleNodes))

/-- A narrowing that is off hides nothing. -/
theorem isNodeVisible_of_off (t : Texts) {access : GraphAccessNarrowing} (off : access.enabled = false) (node : Node) :
    isNodeVisible t access node = true := by
  rw [isNodeVisible, GraphAccessNarrowing.matchesGraph, if_pos off]

end MetadataGraph.Service
