import MetadataGraph.Client.Mirror
import MetadataGraph.Lib.OrderedDict

namespace MetadataGraph.Client

/-- `POSITION_EPSILON`. -/
def positionEpsilon : ℚ := 1 / 2

/-- `LAYOUT_BATCH_THRESHOLD`. -/
def layoutBatchThreshold : Nat := 20

def samePos (a b : Position) : Bool := |a.x - b.x| ≤ positionEpsilon && |a.y - b.y| ≤ positionEpsilon

def diffAdded (prev next : List String) : List String := next.filter (· ∉ prev)

/-- `ANNOTATION_META_FIELDS`. -/
def annotationMetaFields : List String := ["id", "type", "kind", "version", "field_versions", "updated_at", "created_by"]

/-- The content that `annotationsEqual` compares. -/
def stripped (ignoreMembers : Bool) (ann : Dict Json) : Dict Json :=
  let copy := (((ann.erase "updated_at").erase "created_by").erase "version").erase "field_versions"
  if ignoreMembers then copy.erase "member_node_ids" else copy

def annotationsEqual (ignoreMembers : Bool) (a b : Dict Json) : Bool := stripped ignoreMembers a = stripped ignoreMembers b

/-- The content keys in which two versions of an annotation differ. A key that one of them lacks differs. -/
def changedKeys (ignoreMembers : Bool) (before next : Dict Json) : List String :=
  (before ∪ next).keys.filter fun key =>
    key ∉ annotationMetaFields && !(ignoreMembers && key = "member_node_ids") && before[key]? ≠ next[key]?

/-- `diffAnnotationFields`, as it is written to the wire: a key that has gone carries no value and is left out. -/
def diffAnnotationFields (ignoreMembers : Bool) (before next : Dict Json) : Dict Json :=
  next.filter fun key _ => key ∈ ["id", "type", "kind"] ∨ key ∈ changedKeys ignoreMembers before next

/-- An op of a diff, and the keys of the annotation it carries, with those that have no value. -/
structure LocalOp where
  op : StateOp
  touched : List String := []

/-- Annotations by their ids; what has no id is left out. -/
def annotationsById (annotations : List (Dict Json)) : OrderedDict Json (Dict Json) :=
  .ofList ((annotations.filter fun a => (a.get "id").truthy).map fun a => (a.get "id", a))

/-- `ann.member_node_ids || []`. -/
def memberIds (ann : Dict Json) : List Json :=
  match ann.get "member_node_ids" with
  | .arr members => members
  | _ => []

section Compute

variable (prev next : Mirror)

/-- The positions that are new or have moved, of the nodes that stay. -/
def movedIds : List String := next.nodeRefs.filter fun id =>
  match next.positions[id]? with
  | none => false
  | some np => match prev.positions[id]? with
    | none => true
    | some pp => !samePos pp np

/-- Where they are now. -/
def moves : List (String × Position) :=
  (movedIds prev next).filterMap fun id => (next.positions[id]?).map fun position => (id, position)

/-- The ops for moved nodes: many moves go into one. -/
def positionOps : List StateOp :=
  if (movedIds prev next).length > layoutBatchThreshold then
    [.layoutApplied (some (Dict.of ((moves prev next).map fun entry => (entry.1, entry.2.toJson))))]
  else (moves prev next).map fun entry => .nodeMoved (.str entry.1) entry.2.toJson

/-- An op for ids, if there are any. -/
def idsOp (op : Json → StateOp) (ids : List String) : List StateOp := if ids = [] then [] else [op (.ofStrings ids)]

/-- The ops for one of the id sets: what it has gained, and what it has lost. -/
def setOps (set : IdSet) : List StateOp :=
  idsOp (.idsAdded set) (diffAdded (prev.toCanvas.ids set) (next.toCanvas.ids set)) ++
    idsOp (.idsDropped set) (diffAdded (next.toCanvas.ids set) (prev.toCanvas.ids set))

def intensityOps : List StateOp :=
  if next.edgeIntensity ≠ prev.edgeIntensity then [.edgeIntensitySet (.num next.edgeIntensity)] else []

/-- The update of an annotation with its changed fields, if its content differs. -/
def updateOps (ignoreMembers : Bool) (before ann : Dict Json) : List LocalOp :=
  if annotationsEqual ignoreMembers before ann then []
  else [{ op := .annotationUpdated (some (diffAnnotationFields ignoreMembers before ann)) (before.get "version")
          touched := changedKeys ignoreMembers before ann }]

/-- The ops for an annotation that there is now. The membership of a group has its own op, for which the
lists of members are compared sorted. -/
def annotationOps (before : Option (Dict Json)) (id : Json) (ann : Dict Json) : List LocalOp :=
  match before with
  | none => [{ op := .annotationCreated (some ann), touched := ann.keys }]
  | some before =>
    if ann.get "kind" = .str "group" then
      (if (memberIds before).Perm (memberIds ann) then []
        else [{ op := .groupMembershipChanged id (.arr (memberIds ann)) }]) ++ updateOps true before ann
    else updateOps false before ann

/-- The ops for all annotations: those that there are now, and those that have gone. -/
def annotationsOps : List LocalOp :=
  let prevAnn := annotationsById prev.annotations
  let nextAnn := annotationsById next.annotations
  (nextAnn.entries.flatMap fun entry => annotationOps (prevAnn.get? entry.1) entry.1 entry.2) ++
    (prevAnn.keys.filter (· ∉ nextAnn.keys)).map fun id => { op := .annotationDeleted id .null }

/-- The ops before those for annotations. -/
def canvasOps : List StateOp :=
  idsOp .nodesAdded (diffAdded prev.nodeRefs next.nodeRefs) ++ positionOps prev next ++
    setOps prev next .hiddenNodes ++ setOps prev next .hiddenEdges ++ setOps prev next .dimmedNodes ++
    setOps prev next .dimmedEdges ++ intensityOps prev next

def removalOps : List StateOp := idsOp .nodesRemoved (diffAdded next.nodeRefs prev.nodeRefs)

end Compute

/-- `computeOps`. -/
def computeOps (prevState nextState : Mirror) : List LocalOp :=
  let prev := normalizeMirror prevState
  let next := normalizeMirror nextState
  (canvasOps prev next).map (LocalOp.mk · []) ++ annotationsOps prev next ++ (removalOps prev next).map (LocalOp.mk · [])

section Predict

/-- `Number(value) || fallback`, where `number` reads what is no number already. -/
def numberOr (number : Json → Option ℚ) (fallback : ℚ) (value : Json) : ℚ :=
  ((number value).filter fun q => q ≠ 0).getD fallback

/-- `{ ...(before?.field_versions || {}) }`. -/
def fieldVersionsOf (ann : Dict Json) : Dict Json :=
  match ann.get "field_versions" with
  | .obj entries => .of entries
  | _ => ∅

/-- The keys of a prediction over an annotation. -/
def withVersions (version fieldVersions : Json) (ann : Dict Json) : Dict Json :=
  (ann.insert "version" version).insert "field_versions" fieldVersions

variable (number : Json → Option ℚ)

/-- The version and the field versions that an op is expected to lead to. -/
def predicted (baselineAnn : OrderedDict Json (Dict Json)) (o : LocalOp) : Option (Json × ℚ × Dict Json) :=
  let onto (created : Bool) (patch : Dict Json) : Option (Json × ℚ × Dict Json) :=
    let id := patch.get "id"
    if !id.truthy then none
    else match created, baselineAnn.get? id with
      | true, none => some (id, 1, ∅)
      | _, before =>
        let version := (before.map fun b => numberOr number 1 (b.get "version")).getD 1 + 1
        let keys := o.touched.filter (· ∉ ["id", "type", "kind"])
        some (id, version, keys.foldl (fun versions key => versions.insert key (.num version))
          ((before.map fieldVersionsOf).getD ∅))
  match o.op with
  | .annotationCreated (some patch) => onto true patch
  | .annotationUpdated (some patch) _ => onto false patch
  | _ => none

/-- The versions of the baseline's annotation over another one. A key that the baseline lacks is not carried over. -/
def withKnownVersions (known a : Dict Json) : Dict Json :=
  ((a.erase "version").erase "field_versions") ∪ known.filter fun key _ => key = "version" ∨ key = "field_versions"

/-- An annotation of the host with the versions that the client takes to be current. -/
def withPrediction (overrides : OrderedDict Json (ℚ × Dict Json)) (baselineAnn : OrderedDict Json (Dict Json))
    (a : Dict Json) : Dict Json :=
  if (a.get "id").truthy then match overrides.get? (a.get "id"), baselineAnn.get? (a.get "id") with
    | some (version, fieldVersions), _ => withVersions (.num version) (.obj fieldVersions.toList) a
    | none, some known => withKnownVersions known a
    | none, none => a
  else a

/-- `predictAnnotationVersionsForSend`. -/
def predictAnnotationVersionsForSend (baselineState nextState : Mirror) (ops : List LocalOp) : Mirror :=
  let baseline := normalizeMirror baselineState
  let next := normalizeMirror nextState
  let baselineAnn := annotationsById baseline.annotations
  let overrides := OrderedDict.ofList (ops.filterMap (predicted number baselineAnn))
  { next with annotations := next.annotations.map (withPrediction overrides baselineAnn) }

end Predict

/-- What `syncState` makes of the baseline and a state of the host: the new baseline, and the ops to send. -/
def syncState (number : Json → Option ℚ) (baseline state : Mirror) : Mirror × List LocalOp :=
  let next := normalizeMirror state
  let ops := computeOps baseline next
  (predictAnnotationVersionsForSend number baseline next ops, ops)

end MetadataGraph.Client
