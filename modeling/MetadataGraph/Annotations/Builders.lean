import MetadataGraph.Graph.Models
import MetadataGraph.Session.Content

namespace MetadataGraph.Annotations

/-- What the builders use of Python: `dict` of a value that is not a dict, and `str.strip`. -/
structure Builtins where
  dict : Json → Option (Dict Json)
  strip : String → String

/-- `d.get(key, default)`. -/
def getOr (d : Dict Json) (key : String) (default : Json) : Json := d[key]?.getD default

/-- A dict as a value. -/
def record (d : Dict Json) : Json := .obj d.toList

def object? : Json → Option (Dict Json)
  | .obj entries => some (.of entries)
  | _ => none

/-- `value or default`, of which fields are then read; a value that is no dict has none. -/
def recordOr (default : Dict Json) (value : Json) : Option (Dict Json) :=
  if value.truthy then object? value else some default

/-- `dict(value or default)`. -/
def dictOr (b : Builtins) (default : Dict Json) (value : Json) : Option (Dict Json) :=
  if value.truthy then (object? value).or (b.dict value) else some default

/-- `d[key] = value` where there is a value. -/
def put (key : String) (value : Option Json) (d : Dict Json) : Dict Json :=
  match value with
  | some value => d.insert key value
  | none => d

def pair (first second : String) (a b : Json) : Dict Json := .of [(first, a), (second, b)]

def defaultNoteW : Json := .num 160
def defaultNoteH : Json := .num 96
def defaultGroupW : Json := .num 320
def defaultGroupH : Json := .num 200

/-- A number that an argument gives. -/
def given (value : Option ℚ) : Option Json := value.map .num

/-- The position of an annotation that has none of its own is that of its geometry. -/
def geometryPosition (geometry : Dict Json) : Dict Json :=
  pair "x" "y" (getOr geometry "x" (.num 0)) (getOr geometry "y" (.num 0))

section Note

/-- The arguments of `build_note_annotation` besides the place. -/
structure NoteCreation where
  x : ℚ
  y : ℚ
  text : String := ""
  color : Option String := none
  fontSize : Option ℚ := none
  w : Option ℚ := none
  h : Option ℚ := none
  rotation : Option ℚ := none
  z : Option ℚ := none
  locked : Bool := false
  annotationId : Option String := none

def buildNoteAnnotation (args : NoteCreation) : Dict Json :=
  let w := (given args.w).getD defaultNoteW
  let h := (given args.h).getD defaultNoteH
  put "fontSize" (given args.fontSize)
    (put "style" (args.color.map fun color => record (.of [("color", .str color)]))
      (put "color" (args.color.map .str)
        (put "id" (args.annotationId.map .str)
          (.of [("type", .str "note"), ("kind", .str "note"), ("position", record (pair "x" "y" (.num args.x) (.num args.y))),
            ("geometry", record (.of [("x", .num args.x), ("y", .num args.y), ("w", w), ("h", h),
              ("rotation", (given args.rotation).getD (.num 0))])),
            ("size", record (pair "w" "h" w h)), ("text", .str args.text), ("z", (given args.z).getD (.num 0)),
            ("locked", .bool args.locked)]))))

/-- The arguments of `build_note_patch`. -/
structure NoteUpdate where
  text : Option String := none
  color : Option String := none
  fontSize : Option ℚ := none
  x : Option ℚ := none
  y : Option ℚ := none
  w : Option ℚ := none
  h : Option ℚ := none
  rotation : Option ℚ := none
  z : Option ℚ := none
  locked : Option Bool := none

/-- The geometry, size and position that a patch starts from. -/
structure Frame where
  geometry : Dict Json
  size : Dict Json
  position : Dict Json

/-- The changes of place and size that both patch builders make; `w` and `h` are the sizes of a dict
that lacks them. -/
structure Reshape where
  x : Option ℚ := none
  y : Option ℚ := none
  w : Option ℚ := none
  h : Option ℚ := none
  rotation : Option ℚ := none

namespace Reshape

def moved (r : Reshape) : Bool := r.x.isSome || r.y.isSome

def resized (r : Reshape) : Bool := r.w.isSome || r.h.isSome

/-- The position with the given coordinates. -/
def position (r : Reshape) (frame : Frame) : Dict Json :=
  (frame.position.insert "x" ((given r.x).getD (getOr frame.position "x" (.num 0)))).insert "y"
    ((given r.y).getD (getOr frame.position "y" (.num 0)))

/-- The size with the given sides. -/
def size (w h : Json) (r : Reshape) (frame : Frame) : Dict Json :=
  (frame.size.insert "w" ((given r.w).getD (getOr frame.size "w" w))).insert "h"
    ((given r.h).getD (getOr frame.size "h" h))

/-- The geometry carries what was changed. -/
def geometry (w h : Json) (r : Reshape) (frame : Frame) : Dict Json :=
  let position := r.position frame
  let size := r.size w h frame
  put "rotation" (given r.rotation)
    (put "h" (if r.resized then size["h"]? else none)
      (put "w" (if r.resized then size["w"]? else none)
        (put "y" (if r.moved then position["y"]? else none)
          (put "x" (if r.moved then position["x"]? else none) frame.geometry))))

/-- The part of a patch that says where the annotation is and how large. -/
def patch (w h : Json) (r : Reshape) (frame : Frame) (d : Dict Json) : Dict Json :=
  put "geometry" (if r.moved || r.resized || r.rotation.isSome then some (record (r.geometry w h frame)) else none)
    (put "size" (if r.resized then some (record (r.size w h frame)) else none)
      (put "position" (if r.moved then some (record (r.position frame)) else none) d))

end Reshape

def NoteUpdate.reshape (args : NoteUpdate) : Reshape := { args with }

/-- What `build_note_patch` starts from: without a size it takes the default one. -/
def noteFrame (b : Builtins) (existing : Annotation) : Option Frame := do
  let geometry ← dictOr b {} (existing.get "geometry")
  let size ← dictOr b (pair "w" "h" defaultNoteW defaultNoteH) (existing.get "size")
  let position ← dictOr b (geometryPosition geometry) (existing.get "position")
  return { geometry, size, position }

/-- The style with the given colour; there is nothing to change without one. -/
def coloredStyle (existing : Annotation) : Option String → Option (Option Json)
  | some color => (recordOr {} (existing.get "style")).map fun style => some (record (style.insert "color" (.str color)))
  | none => some none

/-- `build_note_patch`, with no patch where it raises. -/
def buildNotePatch (b : Builtins) (existing : Annotation) (args : NoteUpdate) : Option (Dict Json) := do
  let style ← coloredStyle existing args.color
  let frame ← noteFrame b existing
  return put "locked" (args.locked.map .bool) (put "z" (given args.z)
    (args.reshape.patch defaultNoteW defaultNoteH frame (put "fontSize" (given args.fontSize)
      (put "style" style (put "color" (args.color.map .str) (put "text" (args.text.map .str)
        (.of [("id", existing.get "id"), ("type", .str "note"), ("kind", .str "note")])))))))

/-- What `project_note` reads of a note. -/
structure NoteView where
  id : Json
  text : Json
  x : Json
  y : Json
  w : Json
  h : Json
  color : Json
  fontSize : Json
  rotation : Json
  z : Json
  locked : Bool
  version : ℕ
  createdAt : Json
  updatedAt : Option ℕ
  createdBy : Json
  updatedBy : Json

/-- `project_note`, with no view where it raises. -/
def projectNote (a : Annotation) : Option NoteView := do
  let geometry ← recordOr {} (a.get "geometry")
  let position ← recordOr (geometryPosition geometry) (a.get "position")
  let size ← recordOr (pair "w" "h" (getOr geometry "w" defaultNoteW) (getOr geometry "h" defaultNoteH)) (a.get "size")
  return {
    id := a.get "id"
    text := (a.get "text").orElse (.str "")
    x := getOr position "x" (.num 0)
    y := getOr position "y" (.num 0)
    w := getOr size "w" defaultNoteW
    h := getOr size "h" defaultNoteH
    color := a.get "color"
    fontSize := a.get "fontSize"
    rotation := getOr geometry "rotation" (.num 0)
    z := getOr a.fields "z" (.num 0)
    locked := (getOr a.fields "locked" (.bool false)).truthy
    version := a.versionOrInitial
    createdAt := a.get "created_at"
    updatedAt := a.updatedAt
    createdBy := a.get "created_by"
    updatedBy := a.get "updated_by" }

end Note

section Group

/-- The arguments of `build_group_annotation`. The members are a list of strings, or it raises. -/
structure GroupCreation where
  x : ℚ
  y : ℚ
  w : Option ℚ := none
  h : Option ℚ := none
  label : String := ""
  description : String := ""
  color : Option String := none
  memberNodeIds : Option (List String) := none
  z : Option ℚ := none
  locked : Bool := false
  annotationId : Option String := none

def buildGroupAnnotation (args : GroupCreation) : Dict Json :=
  let w := (given args.w).getD defaultGroupW
  let h := (given args.h).getD defaultGroupH
  put "member_node_ids" (args.memberNodeIds.map .ofStrings)
    (put "style" (args.color.map fun color => record (.of [("color", .str color)]))
      (put "color" (args.color.map .str)
        (put "id" (args.annotationId.map .str)
          (.of [("type", .str "group"), ("kind", .str "group"),
            ("position", record (pair "x" "y" (.num args.x) (.num args.y))),
            ("geometry", record (.of [("x", .num args.x), ("y", .num args.y), ("w", w), ("h", h), ("rotation", .num 0)])),
            ("size", record (pair "w" "h" w h)), ("label", .str args.label), ("description", .str args.description),
            ("z", (given args.z).getD (.num 0)), ("locked", .bool args.locked)]))))

end Group

section Generic

/-- `_RESERVED_ANNOTATION_KEYS`. -/
def reservedAnnotationKeys : List String :=
  ["id", "type", "kind", "geometry", "position", "size", "style", "z", "locked", "created_at", "updated_at", "created_by",
   "updated_by", "version", "field_versions"]

def attachableAnnotationTypes : List String := ["text", "label", "icon"]

/-- `default_annotation_z`. -/
def defaultAnnotationZ (type : String) : ℚ := if type = "shape" then -1 else 0

/-- `isinstance(value, dict)`, with numbers under `x` and `y`. -/
def hasNumericPoint : Json → Bool
  | .obj entries => ((Dict.of entries).get "x").number?.isSome && ((Dict.of entries).get "y").number?.isSome
  | _ => false

/-- `_attachment_error`. -/
def attachmentError (b : Builtins) (field : String) : Json → Option String
  | .null => none
  | .obj entries =>
    let value := Dict.of entries
    let targetId := value.get "target_id"
    let targetType := value.get "target_type"
    let anchor := value.get "anchor"
    let offset := value.get "offset"
    if targetId = .null || targetId.string?.any (b.strip · = "") then
      some (field ++ ".target_id is required and must not be empty")
    else if targetId.string?.isNone && targetId.number?.isNone then some (field ++ ".target_id must be a string")
    else if targetType ≠ .null && targetType.string?.isNone then some (field ++ ".target_type must be a string")
    else if anchor ≠ .null && anchor.string?.isNone then some (field ++ ".anchor must be a string")
    else if offset ≠ .null && !hasNumericPoint offset then some (field ++ ".offset must be an object with numeric x and y")
    else none
  | _ => some (field ++ " must be an object")

/-- `_line_endpoint_error`. -/
def lineEndpointError (b : Builtins) (field : String) : Json → Option String
  | .null => none
  | .obj entries =>
    let value := Dict.of entries
    let point := value.get "point"
    if point ≠ .null && !hasNumericPoint point then some (field ++ ".point must be an object with numeric x and y")
    else attachmentError b (field ++ ".attachment") (value.get "attachment")
  | _ => some (field ++ " must be an object")

/-- What must be a text that is not blank, as the shape of a `shape` and the icon of an `icon`. -/
def textFieldError (b : Builtins) (key : String) (source : Dict Json) : Option String :=
  match source[key]? with
  | some (.str text) => if b.strip text = "" then some ("content." ++ key ++ " must be a non-empty string") else none
  | some _ => some ("content." ++ key ++ " must be a non-empty string")
  | none => none

/-- `_validate_generic_content`. -/
def validateGenericContent (b : Builtins) (annType : Option String) (source : Dict Json) : Option String :=
  let shape := if annType = some "shape" then textFieldError b "shape" source else none
  let icon := if annType = some "icon" then textFieldError b "icon" source else none
  let attachment := if annType.any (· ∈ attachableAnnotationTypes) then
      source["attachment"]?.bind (attachmentError b "content.attachment") else none
  let ends := if annType = some "line" then
      (source["start"]?.bind (lineEndpointError b "content.start")).or
        (source["end"]?.bind (lineEndpointError b "content.end")) else none
  shape.or (icon.or (attachment.or ends))

/-- Why a builder raises. -/
inductive BuildError where
  | value (message : String)
  | type

/-- The text of a list of strings none of which needs an escape. -/
def listText (items : List String) : String := "[" ++ ", ".intercalate (items.map fun item => "'" ++ item ++ "'") ++ "]"

/-- `_apply_content`. -/
def applyContent (b : Builtins) (annType : Option String) (content : Option (Dict Json)) (target : Dict Json) :
    Except BuildError (Dict Json) :=
  match content with
  | none => .ok target
  | some content =>
    let reserved := (reservedAnnotationKeys.filter (· ∈ content)).insertionSort (· ≤ ·)
    if reserved ≠ [] then
      .error (.value ("content must not set reserved field(s) " ++ listText reserved ++
        "; those are managed by their own arguments"))
    else match validateGenericContent b annType content with
      | some message => .error (.value message)
      | none => .ok (target ∪ content)

/-- The arguments of `build_annotation`. -/
structure AnnotationCreation where
  type : String
  x : ℚ
  y : ℚ
  w : Option ℚ := none
  h : Option ℚ := none
  rotation : Option ℚ := none
  content : Option (Dict Json) := none
  style : Option (Dict Json) := none
  z : Option ℚ := none
  locked : Bool := false
  annotationId : Option String := none

def buildAnnotation (b : Builtins) (args : AnnotationCreation) : Except BuildError (Dict Json) :=
  let w := (given args.w).getD (.num 0)
  let h := (given args.h).getD (.num 0)
  let annotation : Dict Json :=
    put "style" (args.style.map record)
      (put "size" (if args.w.isSome || args.h.isSome then some (record (pair "w" "h" w h)) else none)
        (.of [("type", .str args.type), ("kind", .str args.type),
          ("position", record (pair "x" "y" (.num args.x) (.num args.y))),
          ("geometry", record (.of [("x", .num args.x), ("y", .num args.y), ("w", w), ("h", h),
            ("rotation", (given args.rotation).getD (.num 0))])),
          ("z", (given args.z).getD (.num (defaultAnnotationZ args.type))), ("locked", .bool args.locked)]))
  (applyContent b (some args.type) args.content annotation).map (put "id" (args.annotationId.map .str))

/-- A point with numeric coordinates, moved; there is none where the value is no such point. -/
def translatePoint (dx dy : ℚ) : Json → Option Json
  | .obj entries =>
    let point := Dict.of entries
    match (point.get "x").number?, (point.get "y").number? with
    | some x, some y => some (record ((point.insert "x" (.num (x + dx))).insert "y" (.num (y + dy))))
    | _, _ => none
  | _ => none

/-- `translate_line_endpoints`. -/
def translateLineEndpoints (existing : Dict Json) (dx dy : ℚ) (d : Dict Json) : Dict Json :=
  put "to" (translatePoint dx dy (existing.get "to")) (put "from" (translatePoint dx dy (existing.get "from")) d)

/-- The translated points of a stroke, when there is a point among them. -/
def translatedPoints (dx dy : ℚ) : Json → Option Json
  | .arr points =>
    if points.any fun point => (translatePoint dx dy point).isSome then
      some (.arr (points.map fun point => (translatePoint dx dy point).getD point))
    else none
  | _ => none

/-- `translate_freehand_points`. -/
def translateFreehandPoints (existing : Dict Json) (dx dy : ℚ) (d : Dict Json) : Dict Json :=
  put "points" (translatedPoints dx dy (existing.get "points")) d

/-- The arguments of `build_annotation_patch`. -/
structure AnnotationUpdate where
  x : Option ℚ := none
  y : Option ℚ := none
  w : Option ℚ := none
  h : Option ℚ := none
  rotation : Option ℚ := none
  content : Option (Dict Json) := none
  style : Option (Dict Json) := none
  z : Option ℚ := none
  locked : Option Bool := none

def AnnotationUpdate.reshape (args : AnnotationUpdate) : Reshape := { args with }

/-- What `build_annotation_patch` starts from. -/
def annotationFrame (b : Builtins) (existing : Annotation) : Option Frame := do
  let geometry ← dictOr b {} (existing.get "geometry")
  let size ← dictOr b (pair "w" "h" (getOr geometry "w" (.num 0)) (getOr geometry "h" (.num 0))) (existing.get "size")
  let position ← dictOr b (geometryPosition geometry) (existing.get "position")
  return { geometry, size, position }

/-- How far the position moves; there is no offset where a coordinate it starts from is no number. -/
def Reshape.offset (r : Reshape) (frame : Frame) : Option (ℚ × ℚ) := do
  let x ← (getOr frame.position "x" (.num 0)).number?
  let y ← (getOr frame.position "y" (.num 0)).number?
  return (r.x.getD x - x, r.y.getD y - y)

/-- `ann_type` of a patch. -/
def patchType (existing : Annotation) : Json := match annotationTypeOf existing.fields with
  | some type => if type = "" then existing.get "type" else .str type
  | none => existing.get "type"

/-- The ends of a line and the points of a stroke go along with the position. -/
def Reshape.slide (existing : Annotation) (r : Reshape) (frame : Frame) (patch : Dict Json) : Option (Dict Json) :=
  if r.moved then (r.offset frame).map fun offset =>
    if offset = (0, 0) then patch
    else translateFreehandPoints existing.fields offset.1 offset.2
      (translateLineEndpoints existing.fields offset.1 offset.2 patch)
  else some patch

/-- `build_annotation_patch`. -/
def buildAnnotationPatch (b : Builtins) (existing : Annotation) (args : AnnotationUpdate) :
    Except BuildError (Dict Json) :=
  let annType := patchType existing
  match annotationFrame b existing with
  | none => .error .type
  | some frame => match args.reshape.slide existing frame
      (.of [("id", existing.get "id"), ("type", annType), ("kind", annType)]) with
    | none => .error .type
    | some patch =>
      applyContent b annType.string? args.content (put "locked" (args.locked.map .bool) (put "z" (given args.z)
        (put "style" (args.style.map record) (args.reshape.patch (.num 0) (.num 0) frame patch))))

/-- What `project_annotation` reads of an annotation, besides its content. -/
structure Envelope where
  id : Json
  type : Option String
  x : Json
  y : Json
  w : Json
  h : Json
  rotation : Json
  style : Json
  z : Json
  locked : Bool
  version : ℕ
  createdAt : Json
  updatedAt : Option ℕ
  createdBy : Json
  updatedBy : Json

structure AnnotationView extends Envelope where
  content : Dict Json

/-- `project_annotation`, with no view where it raises. -/
def projectAnnotation (a : Annotation) : Option AnnotationView := do
  let geometry ← recordOr {} (a.get "geometry")
  let position ← recordOr (geometryPosition geometry) (a.get "position")
  let size ← recordOr {} (a.get "size")
  return {
    id := a.get "id"
    type := annotationTypeOf a.fields
    x := getOr position "x" (.num 0)
    y := getOr position "y" (.num 0)
    w := getOr geometry "w" (getOr size "w" (.num 0))
    h := getOr geometry "h" (getOr size "h" (.num 0))
    rotation := getOr geometry "rotation" (.num 0)
    style := (a.get "style").orElse (.obj [])
    z := getOr a.fields "z" (.num 0)
    locked := (getOr a.fields "locked" (.bool false)).truthy
    version := a.versionOrInitial
    createdAt := a.get "created_at"
    updatedAt := a.updatedAt
    createdBy := a.get "created_by"
    updatedBy := a.get "updated_by"
    content := a.fields.filter fun key _ => key ∉ reservedAnnotationKeys }

end Generic

end MetadataGraph.Annotations
