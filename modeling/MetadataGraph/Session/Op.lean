import MetadataGraph.Session.State

namespace MetadataGraph

/-- The exceptions of the session write paths. -/
inductive Failure where
  | opError (message : String)
  | typeError
  | annotationFieldConflict (annotationId : Json) (conflicts : List (String × Nat))
      (serverCopy : Annotation)
  | leaseConflict (annotationId heldBy : String)
  | imageBudgetExceeded
  | opBatchTooLarge
  | rateLimited
  | layoutBusy
  | sessionNotFound
  | sessionLimitReached
  | revisionConflict (expected : Int) (actual : Nat)
  | annotationNotFound (annotationId : String)
  | annotationRecentlyDeleted (annotationId : Json)
  | noUndoableAction (actor : String)
  | undoConflict (seq : Nat) (reason : String)
  | persistFailed
  deriving DecidableEq

/-- A persisted state op with the values its payload keys hold; a missing key holds
`null`, and an annotation or position map that is not a dict is `none`. -/
inductive StateOp where
  | nodesAdded (nodeIds : Json)
  | nodesRemoved (nodeIds : Json)
  | nodeMoved (nodeId position : Json)
  | idsAdded (set : IdSet) (ids : Json)
  | idsDropped (set : IdSet) (ids : Json)
  | edgesAdded (edges : Json)
  | edgesRemoved (edgeIds : Json)
  | edgesUpdated (edges : Json)
  | edgeIntensitySet (value : Json)
  | annotationCreated (ann : Option (Dict Json))
  | annotationUpdated (ann : Option (Dict Json)) (baseVersion : Json)
  | annotationDeleted (annotationId id : Json)
  | groupMembershipChanged (groupId memberNodeIds : Json)
  | sessionRenamed (name : Json)
  | layoutApplied (positions : Option (Dict Json))
  deriving DecidableEq

namespace StateOp

@[match_pattern] abbrev nodesHidden (nodeIds : Json) : StateOp := .idsAdded .hiddenNodes nodeIds
@[match_pattern] abbrev nodesShown (nodeIds : Json) : StateOp := .idsDropped .hiddenNodes nodeIds
@[match_pattern] abbrev edgesHidden (edgeIds : Json) : StateOp := .idsAdded .hiddenEdges edgeIds
@[match_pattern] abbrev edgesShown (edgeIds : Json) : StateOp := .idsDropped .hiddenEdges edgeIds
@[match_pattern] abbrev nodesDimmed (nodeIds : Json) : StateOp := .idsAdded .dimmedNodes nodeIds
@[match_pattern] abbrev nodesUndimmed (nodeIds : Json) : StateOp := .idsDropped .dimmedNodes nodeIds
@[match_pattern] abbrev edgesDimmed (edgeIds : Json) : StateOp := .idsAdded .dimmedEdges edgeIds
@[match_pattern] abbrev edgesUndimmed (edgeIds : Json) : StateOp := .idsDropped .dimmedEdges edgeIds

/-- The op's `op` key (`STATE_OPS`). -/
def name : StateOp → String
  | .nodesAdded _ => "nodes_added"
  | .nodesRemoved _ => "nodes_removed"
  | .nodeMoved _ _ => "node_moved"
  | .nodesHidden _ => "nodes_hidden"
  | .nodesShown _ => "nodes_shown"
  | .edgesHidden _ => "edges_hidden"
  | .edgesShown _ => "edges_shown"
  | .nodesDimmed _ => "nodes_dimmed"
  | .nodesUndimmed _ => "nodes_undimmed"
  | .edgesDimmed _ => "edges_dimmed"
  | .edgesUndimmed _ => "edges_undimmed"
  | .edgesAdded _ => "edges_added"
  | .edgesRemoved _ => "edges_removed"
  | .edgesUpdated _ => "edges_updated"
  | .edgeIntensitySet _ => "edge_intensity_set"
  | .annotationCreated _ => "annotation_created"
  | .annotationUpdated _ _ => "annotation_updated"
  | .annotationDeleted _ _ => "annotation_deleted"
  | .groupMembershipChanged _ _ => "group_membership_changed"
  | .sessionRenamed _ => "session_renamed"
  | .layoutApplied _ => "layout_applied"

/-- `UNDOABLE_OPS`. -/
def undoable : StateOp → Bool
  | .annotationCreated _ | .annotationUpdated _ _ | .annotationDeleted _ _
  | .nodeMoved _ _ | .layoutApplied _ | .edgeIntensitySet _ => true
  | .idsAdded set _ | .idsDropped set _ => set ≠ .hiddenEdges
  | _ => false

/-- The annotation id that an op names, whether or not the session holds it. -/
def annotationId? : StateOp → Option String
  | .annotationCreated ann | .annotationUpdated ann _ =>
    ann.bind fun a => (a.get "id").string?
  | .annotationDeleted annotationId id => (annotationId.orElse id).string?
  | .groupMembershipChanged groupId _ => groupId.string?
  | _ => none

/-- The key of the id list of a set op. -/
def idsKey : IdSet → String
  | .hiddenNodes | .dimmedNodes => "node_ids"
  | .hiddenEdges | .dimmedEdges => "edge_ids"

end StateOp

/-- A normalised op as the ring buffer and the subscribers get it; `α` stands for the
annotation that `annotation_created` and `annotation_updated` carry. -/
inductive AppliedOp (α : Type) where
  | nodesAdded (nodeIds : List String)
  | nodesRemoved (nodeIds : List String)
  | nodeMoved (nodeId : String) (position : Position)
  | idsAdded (set : IdSet) (ids : List String)
  | idsDropped (set : IdSet) (ids : List String)
  | edgesAdded (edges : List Json)
  | edgesRemoved (edgeIds : List String)
  | edgesUpdated (edges : List Json)
  | edgeIntensitySet (value : ℚ)
  | annotationCreated (ann : α)
  | annotationUpdated (ann : α)
  | annotationDeleted (annotationId : String)
  | groupMembershipChanged (groupId : String) (memberNodeIds : List String)
  | sessionRenamed (name : Option String)
  | layoutApplied (positions : Dict Position)
  deriving DecidableEq

namespace AppliedOp

variable {α β γ : Type}

def map (f : α → β) : AppliedOp α → AppliedOp β
  | .nodesAdded nodeIds => .nodesAdded nodeIds
  | .nodesRemoved nodeIds => .nodesRemoved nodeIds
  | .nodeMoved nodeId position => .nodeMoved nodeId position
  | .idsAdded set ids => .idsAdded set ids
  | .idsDropped set ids => .idsDropped set ids
  | .edgesAdded edges => .edgesAdded edges
  | .edgesRemoved edgeIds => .edgesRemoved edgeIds
  | .edgesUpdated edges => .edgesUpdated edges
  | .edgeIntensitySet value => .edgeIntensitySet value
  | .annotationCreated ann => .annotationCreated (f ann)
  | .annotationUpdated ann => .annotationUpdated (f ann)
  | .annotationDeleted annotationId => .annotationDeleted annotationId
  | .groupMembershipChanged groupId members => .groupMembershipChanged groupId members
  | .sessionRenamed name => .sessionRenamed name
  | .layoutApplied positions => .layoutApplied positions

/-- The annotation object that the op shares with the session state. -/
def shared? : AppliedOp α → Option α
  | .annotationCreated ann | .annotationUpdated ann => some ann
  | _ => none

@[simp] theorem map_map (f : α → β) (g : β → γ) (op : AppliedOp α) :
    (op.map f).map g = op.map (g ∘ f) := by cases op <;> rfl

theorem map_congr {f g : α → β} {op : AppliedOp α} (agree : ∀ a ∈ op.shared?, f a = g a) :
    op.map f = op.map g := by
  cases op <;> simp_all [map, shared?]

@[simp] theorem shared?_map (f : α → β) (op : AppliedOp α) :
    (op.map f).shared? = op.shared?.map f := by cases op <;> rfl

end AppliedOp

/-- An applied op with the sequence number the store gave it. -/
structure Applied (α : Type) where
  seq : Nat
  op : AppliedOp α
  deriving DecidableEq

def Applied.map {α β : Type} (f : α → β) (a : Applied α) : Applied β := ⟨a.seq, a.op.map f⟩

@[simp] theorem Applied.seq_map {α β : Type} (f : α → β) (a : Applied α) : (a.map f).seq = a.seq := rfl

@[simp] theorem Applied.map_map {α β γ : Type} (f : α → β) (g : β → γ) (a : Applied α) :
    (a.map f).map g = a.map (g ∘ f) := by simp [Applied.map]

/-! ### Validation at the ingress boundary -/

/-- `_require_id_list`. -/
def requireIdList (opName key : String) (value : Json) : Except Failure (List String) :=
  match value.strings? with
  | some ids => .ok ids
  | none => .error (.opError (opName ++ ": '" ++ key ++ "' must be a list of strings"))

/-- `_validate_position`. -/
def validatePosition (value : Json) : Except Failure Position :=
  match value.position? with
  | some position => .ok position
  | none => .error (.opError "position must be an object with numeric x and y")

/-- `_validate_intensity`: clamped into the unit interval; a bool is refused. -/
def validateIntensity (value : Json) : Except Failure ℚ :=
  match value with
  | .num q => .ok (max 0 (min 1 q))
  | _ => .error (.opError "edge_intensity_set requires a numeric 'value'")

/-- The edge payload check of `edges_added` and `edges_updated`. -/
def requireEdges (opName : String) (value : Json) : Except Failure (List Json) :=
  match value with
  | .arr edges =>
    if edges.all fun edge => edge.isObject && (edge.field "id").string?.isSome then .ok edges
    else .error (.opError ("each edge in " ++ opName ++ " requires a string 'id'"))
  | _ => .error (.opError (opName ++ " requires an 'edges' list"))

/-- The position map of `layout_applied`, every entry checked by `_validate_position`. -/
def validatePositions (positions : Option (Dict Json)) : Except Failure (Dict Position) :=
  match positions with
  | none => .error (.opError "layout_applied requires a 'positions' object")
  | some entries =>
    if entries.all fun _ value => value.position?.isSome then
      .ok (entries.filterMap fun _ value => value.position?)
    else .error (.opError "position must be an object with numeric x and y")

/-- `_ANNOTATION_TYPES`. -/
def annotationTypes : List String :=
  ["group", "note", "text", "label", "line", "shape", "icon", "vote_dot", "image", "freehand"]

/-- `_LEGACY_ANNOTATION_ALIASES`. -/
def canonicalType (rawType : String) : String := if rawType = "arrow" then "line" else rawType

/-- `_ANNOTATION_META_FIELDS` among the keys of `Annotation.fields`. -/
def metaFields : List String := ["id", "type", "kind", "created_by"]

def invalidTypeMessage : String :=
  "annotation type must be one of ['freehand', 'group', 'icon', 'image', 'label', 'line', " ++
    "'note', 'shape', 'text', 'vote_dot']"

/-- The payload with its canonical type. The three keys of the server's own bookkeeping are
left out: the store overwrites them whatever the payload says. -/
def canonicalPayload (ann : Dict Json) (annType : String) : Dict Json :=
  ((((ann.insert "type" (.str annType)).insert "kind" (.str annType)).erase
    "version").erase "field_versions").erase "updated_at"

/-- `_validate_annotation`. -/
def validatePayload (value : Option (Dict Json)) (requireId : Bool) :
    Except Failure (Dict Json) :=
  match value with
  | none => .error (.opError "annotation must be an object")
  | some ann =>
    let rawType := (ann.get "type").orElse (ann.get "kind")
    if !rawType.hashable then .error .typeError
    else match rawType.string?.map canonicalType with
    | none => .error (.opError invalidTypeMessage)
    | some annType =>
      if annType ∉ annotationTypes then .error (.opError invalidTypeMessage)
      else if requireId && (ann.get "id").string?.isNone then
        .error (.opError "annotation update/delete requires a string 'id'")
      else if ann.get "position" ≠ .null && (ann.get "position").position?.isNone then
        .error (.opError "position must be an object with numeric x and y")
      else .ok (canonicalPayload ann annType)

/-- The payloads that `_validate_annotation` accepts, with what it makes of them. -/
theorem validatePayload_eq_ok {payload : Option (Dict Json)} {requireId : Bool}
    {ann : Dict Json} :
    validatePayload payload requireId = .ok ann ↔
      ∃ sent raw, payload = some sent ∧
        ((sent.get "type").orElse (sent.get "kind")).string? = some raw ∧
        canonicalType raw ∈ annotationTypes ∧
        (requireId = true → (sent.get "id").string?.isSome) ∧
        (sent.get "position" = .null ∨ (sent.get "position").position?.isSome) ∧
        ann = canonicalPayload sent (canonicalType raw) := by
  cases payload with
  | none => simp [validatePayload]
  | some sent =>
    simp only [validatePayload]
    cases typed : (sent.get "type").orElse (sent.get "kind") with
    | str raw =>
      simp only [Json.hashable, Json.string?_str, Bool.not_true, Bool.false_eq_true, if_false,
        Option.map_some]
      split
      · simp_all
      · split
        · simp_all
        · rename_i named
          split
          · simp_all
          · rename_i positioned
            have idString : requireId = true → (sent.get "id").string?.isSome := by
              simpa [Option.isSome_iff_ne_none] using named
            have position : sent.get "position" = .null ∨ (sent.get "position").position?.isSome := by
              simpa [Option.isSome_iff_ne_none, or_iff_not_imp_left] using positioned
            simp_all only [not_not, Option.some.injEq, Except.ok.injEq, true_and, exists_and_left,
              exists_eq_left', Json.string?_str, implies_true]
            exact eq_comm
    | null | bool | num | arr | obj => simp [Json.hashable, Json.string?, typed]

/-- `EMBEDDED_IMAGE_URL_PREFIXES`. -/
def embeddedImageUrlPrefix : String := "data:image/webp;base64,"

/-- `is_embedded_image_url`. -/
def isEmbeddedImageUrl (url : Json) : Bool :=
  match url with
  | .str s => embeddedImageUrlPrefix.toList.isPrefixOf s.toList
  | _ => false

/-- `annotation_type_of`. -/
def annotationTypeOf (ann : Dict Json) : Option String :=
  ((ann.get "type").orElse (ann.get "kind")).string?.map canonicalType

def unembeddedImageMessage : String :=
  "image annotation content must be an embedded image produced by server-side ingest " ++
    "(a data:image/webp;base64 URI); a remote or unvalidated URL is not accepted — create or " ++
    "replace the image with the image ingest path instead"

/-- `image_annotation_error`. -/
def imageAnnotationError (ann : Dict Json) (existing : Option Annotation) : Option String :=
  if annotationTypeOf ann ≠ some "image" then none
  else match ann.get "image" with
  | .null => none
  | .obj entries =>
    let url := (Json.obj entries).field "url"
    if url = .null || isEmbeddedImageUrl url then none
    else match existing with
    | some stored =>
      if (stored.get "image").isObject && (stored.get "image").field "url" = url then none
      else some unembeddedImageMessage
    | none => some unembeddedImageMessage
  | _ => some "image annotation 'image' payload must be an object"

/-- The characters after the first `;base64,`, if there is one. -/
def afterBase64Marker : List Char → Option (List Char)
  | [] => none
  | c :: rest =>
    if ";base64,".toList.isPrefixOf (c :: rest) then some ((c :: rest).drop 8)
    else afterBase64Marker rest

/-- `data_url_byte_length`. -/
def dataUrlByteLength (url : Json) : Nat :=
  match url with
  | .str s => match afterBase64Marker s.toList with
    | some encoded => encoded.length * 3 / 4
    | none => 0
  | _ => 0

end MetadataGraph
