import MetadataGraph.Session.Json

namespace MetadataGraph

/-- An annotation dict of `session.state`. The three keys that only the store writes
(`version`, `field_versions`, `updated_at`) are fields of their own; every other key,
`id`, `type`, `kind` and `created_by` included, is in `fields`. -/
structure Annotation where
  fields : Dict Json := ∅
  version : Option Nat := none
  fieldVersions : Dict Nat := ∅
  updatedAt : Option Nat := none
  deriving DecidableEq

instance : Inhabited Annotation := ⟨{}⟩

namespace Annotation

/-- `annotation.get(key)` for a key outside the server's bookkeeping. -/
def get (a : Annotation) (key : String) : Json := a.fields.get key

/-- `annotation.get("id") == id`. -/
def hasId (a : Annotation) (id : String) : Bool := a.get "id" = .str id

/-- `annotation.get("type") or annotation.get("kind")`. -/
def rawType (a : Annotation) : Json := (a.get "type").orElse (a.get "kind")

/-- `annotation.get("version", _INITIAL_ANNOTATION_VERSION)`. -/
def versionOrInitial (a : Annotation) : Nat := a.version.getD 1

/-- `int(prior.get("version") or _INITIAL_ANNOTATION_VERSION)`. -/
def priorVersion (a : Annotation) : Nat :=
  match a.version with
  | none | some 0 => 1
  | some v => v

/-- `annotation.get("member_node_ids")` when it is a list. -/
def members? (a : Annotation) : Option (List Json) :=
  match a.get "member_node_ids" with
  | .arr members => some members
  | _ => none

def withMembers (a : Annotation) (members : List Json) : Annotation :=
  { a with fields := a.fields.insert "member_node_ids" (.arr members) }

theorem hasId_iff {a : Annotation} {id : String} : a.hasId id = true ↔ a.get "id" = .str id :=
  decide_eq_true_iff

theorem members?_eq_some {a : Annotation} {members : List Json} :
    a.members? = some members ↔ a.get "member_node_ids" = .arr members := by
  unfold members?
  split <;> simp_all

theorem withMembers_self {a : Annotation} {members : List Json} (listed : a.members? = some members) :
    a.withMembers members = a := by
  have stored := members?_eq_some.mp listed
  have present : a.fields["member_node_ids"]? = some (.arr members) := by
    rw [← stored]
    exact Dict.getElem?_of_get_ne_null (by simp [show a.fields.get "member_node_ids" = _ from stored])
  rw [withMembers, Dict.insert_eq_self present]

end Annotation

/-- The four id lists of the state that are edited as sets. -/
inductive IdSet where
  | hiddenNodes
  | hiddenEdges
  | dimmedNodes
  | dimmedEdges
  deriving DecidableEq

/-- `session.state` without its annotations (`_empty_state`). -/
structure Canvas where
  nodeRefs : List String := []
  positions : Dict Position := ∅
  hiddenNodeIds : List String := []
  hiddenEdgeIds : List String := []
  dimmedNodeIds : List String := []
  dimmedEdgeIds : List String := []
  edgeIntensity : ℚ := 1
  deriving DecidableEq

namespace Canvas

def ids (c : Canvas) : IdSet → List String
  | .hiddenNodes => c.hiddenNodeIds
  | .hiddenEdges => c.hiddenEdgeIds
  | .dimmedNodes => c.dimmedNodeIds
  | .dimmedEdges => c.dimmedEdgeIds

def setIds (c : Canvas) (set : IdSet) (ids : List String) : Canvas :=
  match set with
  | .hiddenNodes => { c with hiddenNodeIds := ids }
  | .hiddenEdges => { c with hiddenEdgeIds := ids }
  | .dimmedNodes => { c with dimmedNodeIds := ids }
  | .dimmedEdges => { c with dimmedEdgeIds := ids }

@[simp] theorem ids_setIds_self (c : Canvas) (set : IdSet) (ids : List String) :
    (c.setIds set ids).ids set = ids := by
  cases set <;> rfl

@[simp] theorem ids_setIds_of_ne (c : Canvas) {set other : IdSet} (differ : other ≠ set)
    (ids : List String) : (c.setIds set ids).ids other = c.ids other := by
  cases set <;> cases other <;> first | rfl | exact absurd rfl differ

@[simp] theorem nodeRefs_setIds (c : Canvas) (set : IdSet) (ids : List String) :
    (c.setIds set ids).nodeRefs = c.nodeRefs := by cases set <;> rfl

@[simp] theorem positions_setIds (c : Canvas) (set : IdSet) (ids : List String) :
    (c.setIds set ids).positions = c.positions := by cases set <;> rfl

@[simp] theorem edgeIntensity_setIds (c : Canvas) (set : IdSet) (ids : List String) :
    (c.setIds set ids).edgeIntensity = c.edgeIntensity := by cases set <;> rfl

end Canvas

/-- `session.state`; `α` is what the annotation list holds, objects or their contents. -/
structure State (α : Type) extends Canvas where
  annotations : List α := []
  deriving DecidableEq

def State.map {α β : Type} (f : α → β) (s : State α) : State β :=
  { toCanvas := s.toCanvas, annotations := s.annotations.map f }

@[simp] theorem State.map_toCanvas {α β : Type} (f : α → β) (s : State α) :
    (s.map f).toCanvas = s.toCanvas := rfl

@[simp] theorem State.map_annotations {α β : Type} (f : α → β) (s : State α) :
    (s.map f).annotations = s.annotations.map f := rfl

/-- `next((a for a in state["annotations"] if a.get("id") == id), None)`. -/
def State.find (s : State Annotation) (id : String) : Option Annotation :=
  s.annotations.find? (·.hasId id)

theorem State.mem_of_find {s : State Annotation} {id : String} {a : Annotation}
    (found : s.find id = some a) : a ∈ s.annotations := List.mem_of_find?_eq_some found

theorem State.hasId_of_find {s : State Annotation} {id : String} {a : Annotation}
    (found : s.find id = some a) : a.hasId id = true := by
  have held := List.find?_some found
  exact held

/-- `_union`. -/
def union (existing incoming : List String) : List String :=
  incoming.foldl (fun result item => if item ∈ result then result else result ++ [item]) existing

/-- `_remove_all`. -/
def removeAll (existing removals : List String) : List String :=
  existing.filter (· ∉ removals)

/-- `sorted({i for i in requested if keep(i)})`. -/
def sortedSet (requested : List String) (keep : String → Bool) : List String :=
  ((requested.filter keep).dedup).insertionSort (· ≤ ·)

/-- `deque.append` on a deque with `maxlen`. -/
def boundedAppend {α : Type} (maxlen : Nat) (deque : List α) (item : α) : List α :=
  (deque ++ [item]).drop (deque.length + 1 - maxlen)

theorem mem_union {existing incoming : List String} {i : String} :
    i ∈ union existing incoming ↔ i ∈ existing ∨ i ∈ incoming := by
  unfold union
  induction incoming generalizing existing with
  | nil => simp
  | cons j incoming ih =>
    rw [List.foldl_cons, ih, List.mem_cons]
    split
    · rename_i old
      constructor
      · rintro (member | member) <;> simp [member]
      · rintro (member | rfl | member)
        · exact Or.inl member
        · exact Or.inl old
        · exact Or.inr member
    · simp only [List.mem_append, List.mem_singleton, or_assoc]

@[simp] theorem mem_removeAll {existing removals : List String} {i : String} :
    i ∈ removeAll existing removals ↔ i ∈ existing ∧ i ∉ removals := by
  simp [removeAll]

@[simp] theorem mem_sortedSet {requested : List String} {keep : String → Bool} {i : String} :
    i ∈ sortedSet requested keep ↔ i ∈ requested ∧ keep i := by
  simp [sortedSet, List.mem_insertionSort, List.mem_filter]

theorem sortedSet_nodup (requested : List String) (keep : String → Bool) :
    (sortedSet requested keep).Nodup :=
  (List.perm_insertionSort _ _).nodup_iff.mpr (List.nodup_dedup _)

theorem sortedSet_sorted (requested : List String) (keep : String → Bool) :
    (sortedSet requested keep).Pairwise (· ≤ ·) :=
  List.pairwise_insertionSort _ _

/-- A sorted list of distinct ids, filtered, is what `sorted` makes of the ids kept. -/
theorem sortedSet_of_sorted {l : List String} (distinct : l.Nodup) (sorted : l.Pairwise (· ≤ ·))
    (keep : String → Bool) : sortedSet l keep = l.filter keep := by
  unfold sortedSet
  rw [List.dedup_eq_self.mpr (distinct.filter keep)]
  exact (sorted.filter keep).insertionSort_eq

end MetadataGraph
