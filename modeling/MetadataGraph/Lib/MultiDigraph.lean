import MetadataGraph.Lib.OrderedDict

/-- A directed multigraph with attributes: nodes with optional data, and arcs that a source, a
target and a key name. -/
structure MultiDigraph (κ ε ν α : Type) where
  nodes : OrderedDict κ (Option ν) := {}
  arcs : OrderedDict (κ × κ × ε) α := {}

namespace MultiDigraph

variable {κ ε ν α : Type} [DecidableEq κ]

instance : Inhabited (MultiDigraph κ ε ν α) := ⟨{}⟩

/-- The node's data, if the node is there. -/
def node? (g : MultiDigraph κ ε ν α) (n : κ) : Option (Option ν) := g.nodes.get? n

def addNode (n : κ) (data : ν) (g : MultiDigraph κ ε ν α) : MultiDigraph κ ε ν α :=
  { g with nodes := g.nodes.set n (some data) }

/-- New data for a node; it is an error if it is not there. -/
def setData (n : κ) (data : ν) (g : MultiDigraph κ ε ν α) : Option (MultiDigraph κ ε ν α) :=
  match g.node? n with
  | some _ => some (g.addNode n data)
  | none => none

/-- An end of a new arc that is not a node yet becomes one without data. -/
def ensureNode (n : κ) (g : MultiDigraph κ ε ν α) : MultiDigraph κ ε ν α :=
  match g.node? n with
  | some _ => g
  | none => { g with nodes := g.nodes.set n none }

/-- The node is removed with every arc at it; it is an error if it is not there. -/
def removeNode (n : κ) (g : MultiDigraph κ ε ν α) : Option (MultiDigraph κ ε ν α) :=
  match g.node? n with
  | some _ => some
    { nodes := g.nodes.erase n
      arcs := g.arcs.filterKeys fun arc => arc.1 ≠ n ∧ arc.2.1 ≠ n }
  | none => none

theorem node?_addNode (n : κ) (data : ν) (g : MultiDigraph κ ε ν α) (m : κ) :
    (g.addNode n data).node? m = if m = n then some (some data) else g.node? m :=
  OrderedDict.get?_set n (some data) g.nodes m

theorem ensureNode_self {n : κ} {g : MultiDigraph κ ε ν α} {data : Option ν} (present : g.node? n = some data) :
    g.ensureNode n = g := by
  rw [ensureNode, present]

theorem setData_of_node {n : κ} (data : ν) {g : MultiDigraph κ ε ν α} {before : Option ν}
    (present : g.node? n = some before) : g.setData n data = some (g.addNode n data) := by
  rw [setData, present]

variable [DecidableEq ε]

def arc? (g : MultiDigraph κ ε ν α) (source target : κ) (key : ε) : Option α := g.arcs.get? (source, target, key)

def addArc (source target : κ) (key : ε) (data : α) (g : MultiDigraph κ ε ν α) : MultiDigraph κ ε ν α :=
  let g := (g.ensureNode source).ensureNode target
  { g with arcs := g.arcs.set (source, target, key) data }

/-- The arc is removed; it is an error if it is not there. -/
def removeArc (source target : κ) (key : ε) (g : MultiDigraph κ ε ν α) : Option (MultiDigraph κ ε ν α) :=
  match g.arc? source target key with
  | some _ => some { g with arcs := g.arcs.erase (source, target, key) }
  | none => none

theorem arc?_addNode (n : κ) (data : ν) (g : MultiDigraph κ ε ν α) (source target : κ) (key : ε) :
    (g.addNode n data).arc? source target key = g.arc? source target key := rfl

/-- An arc between nodes leaves the nodes as they are. -/
theorem addArc_of_nodes {source target : κ} (key : ε) (data : α) {g : MultiDigraph κ ε ν α} {first second : Option ν}
    (atSource : g.node? source = some first) (atTarget : g.node? target = some second) :
    (∀ m, (g.addArc source target key data).node? m = g.node? m) ∧
      ∀ u v k, (g.addArc source target key data).arc? u v k =
        if u = source ∧ v = target ∧ k = key then some data else g.arc? u v k := by
  rw [addArc, ensureNode_self atSource, ensureNode_self atTarget]
  refine ⟨fun m => rfl, fun u v k => ?_⟩
  simp only [arc?, OrderedDict.get?_set, Prod.mk.injEq]

theorem removeArc_of_arc {source target : κ} {key : ε} {g : MultiDigraph κ ε ν α} {data : α}
    (present : g.arc? source target key = some data) :
    ∃ after, g.removeArc source target key = some after ∧ (∀ m, after.node? m = g.node? m) ∧
      ∀ u v k, after.arc? u v k = if u = source ∧ v = target ∧ k = key then none else g.arc? u v k := by
  refine ⟨{ g with arcs := g.arcs.erase (source, target, key) }, ?_, fun m => rfl, fun u v k => ?_⟩
  · rw [removeArc, present]
  · simp only [arc?, OrderedDict.get?_erase, Prod.mk.injEq]

theorem removeNode_of_node {n : κ} {g : MultiDigraph κ ε ν α} {data : Option ν} (present : g.node? n = some data) :
    ∃ after, g.removeNode n = some after ∧ (∀ m, after.node? m = if m = n then none else g.node? m) ∧
      ∀ u v k, after.arc? u v k = if u ≠ n ∧ v ≠ n then g.arc? u v k else none := by
  refine ⟨{ nodes := g.nodes.erase n, arcs := g.arcs.filterKeys fun arc => arc.1 ≠ n ∧ arc.2.1 ≠ n }, ?_,
    fun m => OrderedDict.get?_erase n g.nodes m, fun u v k => ?_⟩
  · rw [removeNode, present]
  · simp only [arc?, OrderedDict.get?_filterKeys, decide_eq_true_eq]

end MultiDigraph
