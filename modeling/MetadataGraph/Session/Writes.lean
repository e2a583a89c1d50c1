import MetadataGraph.Session.Batch

namespace MetadataGraph

/-- The synchronous write methods with their own arguments; a map argument that is not a
dict is `none`. -/
inductive SyncWrite where
  | applyLayout (positions deltas : Option (Option (Dict Json)))
  | addNodeRefs (nodeIds : Json)
  | annotationUpsert (ann : Option (Dict Json))
  | imageAnnotationUpsert (ann : Option (Dict Json)) (optimizedImageBytes : Nat)
      (leaseClientId : Option String)
  | annotationUpdate (patch : Option (Dict Json)) (baseVersion : Json)
  | annotationDelete (annotationId : Json)
  | setGroupMembers (groupId memberNodeIds : Json)

/-- `_annotation_embedded_image_bytes`. -/
def embeddedImageBytes (ann : Dict Json) : Nat :=
  if annotationTypeOf ann = some "image" && (ann.get "image").isObject &&
      isEmbeddedImageUrl ((ann.get "image").field "url") then
    dataUrlByteLength ((ann.get "image").field "url")
  else 0

/-- `_check_image_budgets`. -/
def checkImageBudgets (cfg : ManagerConfig) (s : Session Annotation) (ann : Dict Json)
    (imageBytes : Nat) : Except Failure Unit :=
  let annotationId := (ann.get "id").string?
  let existing := annotationId.bind s.state.find
  let projected : Int := cfg.documentBytes s.document - (existing.map cfg.annotationBytes).getD 0 +
    cfg.payloadBytes ann
  if imageBytes > cfg.maxOptimizedImageBytes then .error .imageBudgetExceeded
  else if sessionImageBytes s.state annotationId + imageBytes > cfg.maxSessionImageBytes then
    .error .imageBudgetExceeded
  else if projected > cfg.maxSessionDocumentBytes then .error .imageBudgetExceeded
  else .ok ()

/-- One delta of `apply_layout`. -/
def delta? (d : Json) : Option Position :=
  if d.isObject then
    match (d.field "dx").number?, (d.field "dy").number? with
    | some x, some y => some ⟨x, y⟩
    | _, _ => none
  else none

/-- The targets of relative moves; an unknown node moves from the origin. -/
def deltaTargets (positions : Dict Position) (deltas : Dict Json) : Except Failure (Dict Json) :=
  if deltas.all fun _ d => (delta? d).isSome then
    .ok (deltas.filterMap fun nid d => (delta? d).map fun d =>
      let base := positions[nid]?.getD .origin
      (Position.mk (base.x + d.x) (base.y + d.y)).toJson)
  else .error (.opError "each delta must be an object with numeric dx and dy")

/-- The ids of `add_node_refs` that the session does not have yet, each once. -/
def newNodeRefs (present : List String) (nodeIds : List Json) : List String :=
  (nodeIds.filterMap Json.string?).foldl
    (fun added id => if id ∈ present || id ∈ added then added else added ++ [id]) []

namespace SyncWrite

/-- The checks on the arguments that come before the rate limit. -/
def checkArguments (cfg : ManagerConfig) : SyncWrite → Except Failure Unit
  | .applyLayout positions deltas =>
    if positions.isNone == deltas.isNone then
      .error (.opError "provide exactly one of 'positions' or 'deltas'")
    else match positions.orElse fun _ => deltas with
    | some (some moves) =>
      if moves.isEmpty then .error (.opError "'positions'/'deltas' must be a non-empty object")
      else if moves.size > cfg.maxOps || cfg.payloadBytes moves > cfg.maxOpBatchBytes then
        .error .opBatchTooLarge
      else .ok ()
    | _ => .error (.opError "'positions'/'deltas' must be a non-empty object")
  | .addNodeRefs nodeIds => match nodeIds with
    | .arr (id :: ids) =>
      if (id :: ids).length > cfg.maxOps || cfg.idsBytes (id :: ids) > cfg.maxOpBatchBytes then
        .error .opBatchTooLarge
      else .ok ()
    | _ => .error (.opError "'node_ids' must be a non-empty list")
  | .annotationUpsert ann | .imageAnnotationUpsert ann _ _ =>
    if ann.isNone then .error (.opError "'annotation' must be an object") else .ok ()
  | .annotationUpdate patch _ => match patch with
    | some patch =>
      if (patch.get "id").string?.isNone then
        .error (.opError "'patch' must be an object with a string 'id'")
      else if cfg.payloadBytes patch > cfg.maxOpBatchBytes then .error .opBatchTooLarge
      else .ok ()
    | none => .error (.opError "'patch' must be an object with a string 'id'")
  | .annotationDelete annotationId =>
    if annotationId.string?.all (· = "") then .error (.opError "'annotation_id' is required") else .ok ()
  | .setGroupMembers groupId memberNodeIds =>
    if groupId.string?.all (· = "") then .error (.opError "'group_id' is required")
    else match memberNodeIds.strings? with
    | some members =>
      if cfg.idsBytes (members.map .str) > cfg.maxOpBatchBytes then .error .opBatchTooLarge else .ok ()
    | none => .error (.opError "'member_node_ids' must be a list of strings")

/-- The op that the method hands to `_apply_op_sync`, after the checks it makes on the
session; `add_node_refs` has none when no id is new. -/
def prepare (cfg : ManagerConfig) (s : Session Annotation) : SyncWrite → Except Failure (Option StateOp)
  | .applyLayout positions deltas => match deltas with
    | some (some deltas) => match deltaTargets s.state.positions deltas with
      | .ok targets => .ok (some (.layoutApplied (some targets)))
      | .error failure => .error failure
    | _ => .ok (some (.layoutApplied positions.join))
  | .addNodeRefs nodeIds => match nodeIds with
    | .arr ids =>
      let added := newNodeRefs s.state.nodeRefs ids
      .ok (if added = [] then none else some (.nodesAdded (.ofStrings added)))
    | _ => .ok none
  | .annotationUpsert ann =>
    let payload := ann.getD ∅
    let imageBytes := embeddedImageBytes payload
    if imageBytes ≠ 0 then match checkImageBudgets cfg s payload imageBytes with
      | .ok _ => .ok (some (.annotationCreated ann))
      | .error failure => .error failure
    else if cfg.payloadBytes payload > cfg.maxOpBatchBytes then .error .opBatchTooLarge
    else .ok (some (.annotationCreated ann))
  | .imageAnnotationUpsert ann optimizedImageBytes _ =>
    match checkImageBudgets cfg s (ann.getD ∅) optimizedImageBytes with
    | .ok _ => .ok (some (.annotationCreated ann))
    | .error failure => .error failure
  | .annotationUpdate patch baseVersion => .ok (some (.annotationUpdated patch baseVersion))
  | .annotationDelete annotationId => match annotationId with
    | .str id =>
      if (s.state.find id).isNone then .error (.annotationNotFound id)
      else .ok (some (.annotationDeleted annotationId .null))
    | _ => .ok none
  | .setGroupMembers groupId memberNodeIds => .ok (some (.groupMembershipChanged groupId memberNodeIds))

/-- The client whose leases do not stand in the way, for the methods that check leases. -/
def leaseIdentity (client : String) : SyncWrite → Option String
  | .applyLayout _ _ | .addNodeRefs _ => none
  | .imageAnnotationUpsert _ _ leaseClientId => some (leaseClientId.getD client)
  | _ => some client

/-- What the method raises when the op turns out to be a no-op. -/
def droppedFailure : SyncWrite → Option Failure
  | .annotationUpsert ann | .imageAnnotationUpsert ann _ _ =>
    some (.annotationRecentlyDeleted ((ann.getD ∅).get "id"))
  | .annotationUpdate patch _ =>
    some (.annotationNotFound ((((patch.getD ∅).get "id").string?).getD ""))
  | _ => none

end SyncWrite

end MetadataGraph
