import MetadataGraph.Annotations.Exactness

namespace MetadataGraph.Annotations

/-- `GENERIC_ANNOTATION_TYPES`. -/
def genericAnnotationTypes : List String := annotationTypes.filter fun type => type ≠ "note" && type ≠ "group"

/-- `normalize_generic_type`. -/
def normalizeGenericType (rawType : String) : Option String :=
  if canonicalType rawType ∈ genericAnnotationTypes then some (canonicalType rawType) else none

/-- What an agent asks of the annotations of a session. -/
inductive AgentEdit where
  | createNote (args : NoteCreation)
  | createGroup (args : GroupCreation)
  | createGeneric (args : AnnotationCreation)
  | updateNote (id : String) (args : NoteUpdate) (baseVersion : Json)
  | updateGeneric (id : String) (args : AnnotationUpdate) (baseVersion : Json)

namespace AgentEdit

/-- The op that the builders make of it, where they do not raise. -/
def op (b : Builtins) (s : Session Annotation) : AgentEdit → Option StateOp
  | .createNote args => some (.annotationCreated (some ( buildNoteAnnotation args)))
  | .createGroup args => some (.annotationCreated (some ( buildGroupAnnotation args)))
  | .createGeneric args => (normalizeGenericType args.type).bind fun type =>
      ( buildAnnotation b { args with type := type }).toOption.map fun built => .annotationCreated (some built)
  | .updateNote id args baseVersion => (s.state.find id).bind fun existing =>
      (buildNotePatch b existing args).map fun patch => .annotationUpdated (some patch) baseVersion
  | .updateGeneric id args baseVersion => (s.state.find id).bind fun existing =>
      (buildAnnotationPatch b existing args).toOption.map fun patch => .annotationUpdated (some patch) baseVersion

end AgentEdit

section Created

variable {cfg : StoreConfig} {s after : Session Annotation} {call : Call} {done : Applied Annotation}
variable {created : Annotation} {built : Dict Json}

/-- The annotation that a creation leaves: what was built, onto what the session held under its id. -/
structure CreatedFrom (built : Dict Json) (old : Option Annotation) (created : Annotation) : Prop where
  fields : ∀ key ∉ ["id", "type", "kind", "version", "field_versions", "updated_at", "created_by"],
    created.fields[key]? = (built[key]?).or (old.bind fun existing => existing.fields[key]?)
  id : ∀ id, built.get "id" = .str id → created.get "id" = .str id
  type : ∀ t ∈ annotationTypes, built.get "type" = .str t → annotationTypeOf created.fields = some t

theorem truthy_of_mem_annotationTypes {t : String} (listed : t ∈ annotationTypes) : (Json.str t).truthy = true := by
  rw [Json.truthy, decide_eq_true]
  rintro rfl
  revert listed
  decide

theorem canonicalType_of_mem_annotationTypes {t : String} (listed : t ∈ annotationTypes) : canonicalType t = t := by
  rw [canonicalType, if_neg]
  rintro rfl
  revert listed
  decide

/-- The type that a checked payload keeps is the one that was built. -/
theorem get_type_of_valid {incoming : Dict Json} (valid : validatePayload (some built) false = .ok incoming) {t : String}
    (listed : t ∈ annotationTypes) (typed : built.get "type" = .str t) : incoming.get "type" = .str t := by
  obtain ⟨sent, raw, sentSame, rawSame, -, -, -, rfl⟩ := validatePayload_eq_ok.mp valid
  obtain rfl := Option.some.inj sentSame
  rw [typed, Json.orElse, if_pos (truthy_of_mem_annotationTypes listed), Json.string?_str] at rawSame
  obtain rfl := Option.some.inj rawSame
  simp [canonicalPayload, Dict.get_insert, Dict.get_erase, canonicalType_of_mem_annotationTypes listed]

/-- A checked payload as a fresh record. -/
theorem createdFrom_fresh {incoming : Dict Json} (valid : validatePayload (some built) false = .ok incoming) (env : Env)
    (client : String) : CreatedFrom built none ( Session.freshAnnotation env client incoming) := by
  have entry : ∀ {key}, key ∉ ["id", "created_by"] →
      ( Session.freshAnnotation env client incoming).fields[key]? = incoming[key]? := by
    intro key outside
    simp only [List.mem_cons, List.not_mem_nil, or_false, not_or] at outside
    simp only [ Session.freshAnnotation]
    split <;> split <;> simp only [getElem?_insert, Ne.symm outside.1, Ne.symm outside.2, if_false]
  constructor
  · intro key outside
    have narrow : key ∉ ["id", "created_by"] := fun member => outside (by
      simp only [List.mem_cons, List.not_mem_nil, or_false] at member
      rcases member with rfl | rfl <;> decide)
    obtain ⟨sent, raw, sentSame, -, -, -, -, rfl⟩ := validatePayload_eq_ok.mp valid
    obtain rfl := Option.some.inj sentSame
    rw [entry narrow, getElem?_canonicalPayload (by simp_all), Option.bind_none, Option.or_none]
  · intro id named
    obtain ⟨sent, sentSame, idSame⟩ := validatePayload_id valid
    obtain rfl := Option.some.inj sentSame
    have given : incoming.get "id" = .str id := idSame.trans named
    simp only [ Session.freshAnnotation, given, Json.string?_str, Option.isSome_some, if_true, Annotation.get]
    split
    · exact given
    · rw [Dict.get_insert, if_neg (by decide), given]
  · intro t listed typed
    refine annotationTypeOf_of_type listed ?_
    rw [Dict.get, entry (by decide)]
    exact get_type_of_valid valid listed typed

/-- A checked payload merged onto the annotation under its id. -/
theorem createdFrom_merge {incoming : Dict Json} {existing : Annotation}
    (valid : validatePayload (some built) false = .ok incoming) (held : existing.get "id" = incoming.get "id")
    (same : existing.get "type" = incoming.get "type") (stamp : ℕ) :
    CreatedFrom built (some existing) (existing.merge stamp incoming) := by
  constructor
  · intro key outside
    obtain ⟨sent, raw, sentSame, -, -, -, -, rfl⟩ := validatePayload_eq_ok.mp valid
    obtain rfl := Option.some.inj sentSame
    rw [ Annotation.merge, Std.ExtTreeMap.getElem?_union, getElem?_canonicalPayload (by simp_all), Option.bind_some]
  · intro id named
    obtain ⟨sent, sentSame, idSame⟩ := validatePayload_id valid
    obtain rfl := Option.some.inj sentSame
    rw [ Annotation.merge, Annotation.get, Dict.get_union]
    split
    · exact idSame.trans named
    · exact held.trans (idSame.trans named)
  · intro t listed typed
    refine annotationTypeOf_of_type listed ?_
    have incomingType := get_type_of_valid valid listed typed
    rw [ Annotation.merge, Dict.get_union]
    split
    · exact incomingType
    · exact same.trans incomingType

/-- A creation merges a checked payload onto the annotation under its id, or appends it. -/
def Creates (s : Session Annotation) (env : Env) (client : String) (payload : Option (Dict Json)) (e : Effect) : Prop :=
  ∃ incoming, validatePayload payload false = .ok incoming ∧
    ((∃ id target, incoming.get "id" = .str id ∧ s.state.find id = some target ∧
        target.get "type" = incoming.get "type" ∧ e = s.mergeEffect env id target incoming .annotationCreated) ∨
      ((incoming.get "id").string?.bind s.state.find = none ∧ e.edit = .append ( Session.freshAnnotation env client incoming) ∧
        e.applied = .annotationCreated s.state.annotations.length))

theorem planAnnotationCreated_creates (env : Env) (client : String) (trusted : Bool) (payload : Option (Dict Json)) :
    (s.planAnnotationCreated cfg env client trusted payload).Satisfies (Creates s env client payload) fun _ _ => True := by
  refine Session.validated_satisfies trivial fun incoming valid => ?_
  dsimp only
  split
  · trivial
  split
  · trivial
  split
  · rename_i id target named found
    rw [named, Option.bind_some] at found
    split
    · trivial
    · rename_i same
      exact ⟨incoming, valid, .inl ⟨id, target, Json.string?_eq_some.mp named, found, not_not.mp same, rfl⟩⟩
  · rename_i absent
    split
    · trivial
    · refine ⟨incoming, valid, .inr ⟨?_, rfl, rfl⟩⟩
      cases named : (incoming.get "id").string? with
      | none => rfl
      | some id =>
        rw [Option.bind_some]
        cases found : s.state.find id with
        | none => rfl
        | some target => exact (absent id target named (by rw [named, Option.bind_some, found])).elim

/-- What a creation that the store applies makes of the payload. -/
theorem createdFrom_of_applied (asked : call.op = .annotationCreated (some built))
    (applied : s.applyStateOp cfg call = .applied done after) (result : written? done.op = some created) :
    CreatedFrom built ((built.get "id").string?.bind s.state.find) created := by
  obtain ⟨e, accepted, rfl, -⟩ := Session.applyStateOp_applied applied
  have creates := @planAnnotationCreated_creates cfg s call.env call.client call.trustedReplay (some built)
  rw [Session.judge, asked, Session.plan] at accepted
  rw [accepted] at creates
  obtain ⟨incoming, valid, ⟨id, target, named, found, same, rfl⟩ | ⟨absent, edit, op⟩⟩ := creates
  · obtain ⟨sent, sentSame, idSame⟩ := validatePayload_id valid
    obtain rfl := Option.some.inj sentSame
    have read := @getD_replaceFirst (·.hasId id) s.state.annotations target (target.merge call.env.stamp incoming) found
    have shared : some ((replaceFirst (·.hasId id) (target.merge call.env.stamp incoming) s.state.annotations).getD
      (s.state.annotations.findIdx (·.hasId id)) default) = some created := result
    rw [read] at shared
    obtain rfl := Option.some.inj shared
    rw [← idSame, named, Json.string?_str, Option.bind_some, found]
    have held := State.hasId_of_find found
    exact createdFrom_merge valid (( Annotation.hasId_iff.mp held).trans named.symm) same call.env.stamp
  · obtain ⟨sent, sentSame, idSame⟩ := validatePayload_id valid
    obtain rfl := Option.some.inj sentSame
    dsimp only at result
    rw [op, edit] at result
    have shared : some ((s.state.annotations ++ [ Session.freshAnnotation call.env call.client incoming]).getD
      s.state.annotations.length default) = some created := result
    rw [List.getD_eq_getElem?_getD, List.getElem?_append_right (le_refl _), Nat.sub_self] at shared
    obtain rfl := Option.some.inj shared
    rw [← idSame, absent]
    exact createdFrom_fresh valid call.env call.client

end Created

section Gives

/-- A new note shows what it was created with. -/
structure NoteView.Gives (args : NoteCreation) (view : NoteView) : Prop where
  id : ∀ id, args.annotationId = some id → view.id = .str id
  text : view.text = .str args.text
  x : view.x = .num args.x
  y : view.y = .num args.y
  w : view.w = (given args.w).getD defaultNoteW
  h : view.h = (given args.h).getD defaultNoteH
  color : ∀ color, args.color = some color → view.color = .str color
  fontSize : ∀ size, args.fontSize = some size → view.fontSize = .num size
  rotation : view.rotation = (given args.rotation).getD (.num 0)
  z : view.z = (given args.z).getD (.num 0)
  locked : view.locked = args.locked

/-- The arguments that both other creations have. -/
structure Placement where
  type : String
  x : ℚ
  y : ℚ
  w : Json
  h : Json
  rotation : Json
  z : Json
  style : Option Json
  locked : Bool
  annotationId : Option String

def GroupCreation.placement (args : GroupCreation) : Placement where
  type := "group"
  x := args.x
  y := args.y
  w := (given args.w).getD defaultGroupW
  h := (given args.h).getD defaultGroupH
  rotation := .num 0
  z := (given args.z).getD (.num 0)
  style := args.color.map fun color => record (.of [("color", .str color)])
  locked := args.locked
  annotationId := args.annotationId

def AnnotationCreation.placement (args : AnnotationCreation) : Placement where
  type := args.type
  x := args.x
  y := args.y
  w := (given args.w).getD (.num 0)
  h := (given args.h).getD (.num 0)
  rotation := (given args.rotation).getD (.num 0)
  z := (given args.z).getD (.num (defaultAnnotationZ args.type))
  style := args.style.map record
  locked := args.locked
  annotationId := args.annotationId

def Placement.geometry (p : Placement) : List (String × Json) :=
  [("x", .num p.x), ("y", .num p.y), ("w", p.w), ("h", p.h), ("rotation", p.rotation)]

theorem Placement.distinct_geometry (p : Placement) : (p.geometry.map Prod.fst).Nodup := by simp [geometry]

/-- What is built carries the placement. -/
structure Placement.BuiltAs (p : Placement) (built : Dict Json) : Prop where
  type : built["type"]? = some (.str p.type)
  position : built["position"]? = some (record (pair "x" "y" (.num p.x) (.num p.y)))
  geometry : built["geometry"]? = some (record (.of p.geometry))
  style : built["style"]? = p.style
  z : built["z"]? = some p.z
  locked : built["locked"]? = some (.bool p.locked)
  id : built["id"]? = p.annotationId.map .str

/-- A new annotation shows the placement. -/
structure Envelope.Gives (p : Placement) (view : Envelope) : Prop where
  id : ∀ id, p.annotationId = some id → view.id = .str id
  type : view.type = some p.type
  x : view.x = .num p.x
  y : view.y = .num p.y
  w : view.w = p.w
  h : view.h = p.h
  rotation : view.rotation = p.rotation
  style : ∀ style, p.style = some style → view.style = style.orElse (.obj [])
  z : view.z = p.z
  locked : view.locked = p.locked

variable {built : Dict Json} {old : Option Annotation} {created : Annotation} {p : Placement}

theorem CreatedFrom.get (from' : CreatedFrom built old created) {key : String} {value : Json}
    (outside : key ∉ ["id", "type", "kind", "version", "field_versions", "updated_at", "created_by"])
    (entry : built[key]? = some value) : created.get key = value := by
  have same := from'.fields key outside
  rw [entry, Option.some_or] at same
  exact Dict.get_eq_of_getElem? same

theorem CreatedFrom.getOr (from' : CreatedFrom built old created) {key : String} {value : Json}
    (outside : key ∉ ["id", "type", "kind", "version", "field_versions", "updated_at", "created_by"])
    (entry : built[key]? = some value) (default : Json) : getOr created.fields key default = value := by
  have same := from'.fields key outside
  rw [entry, Option.some_or] at same
  rw [Annotations.getOr, same, Option.getD_some]

theorem recordOr_of (default : Dict Json) {key : String} {value : Json} {rest : List (String × Json)}
    (distinct : (((key, value) :: rest).map Prod.fst).Nodup) :
    recordOr default (record (.of ((key, value) :: rest))) = some (.of ((key, value) :: rest)) := by
  have present : key ∈ Dict.of ((key, value) :: rest) := by
    rw [Std.ExtTreeMap.mem_iff_isSome_getElem?, Dict.getElem?_of distinct List.mem_cons_self, Option.isSome_some]
  exact recordOr_record default present

theorem getOr_of {entries : List (String × Json)} (distinct : (entries.map Prod.fst).Nodup) {key : String} {value : Json}
    (member : (key, value) ∈ entries) (default : Json) : getOr (.of entries) key default = value := by
  rw [getOr, Dict.getElem?_of distinct member, Option.getD_some]

/-- A created annotation is shown, with its placement, where its size is a dict. -/
theorem gives_of_created (from' : CreatedFrom built old created) (placed : p.BuiltAs built) (listed : p.type ∈ annotationTypes)
    {size : Dict Json} (readSize : recordOr {} (created.get "size") = some size) :
    ∃ view, projectAnnotation created = some view ∧ view.toEnvelope.Gives p ∧
      view.content = created.fields.filter fun key _ => key ∉ reservedAnnotationKeys := by
  have geometry : recordOr {} (created.get "geometry") = some (.of p.geometry) := by
    rw [from'.get (by decide) placed.geometry]
    exact recordOr_of {} p.distinct_geometry
  have position : ∀ default, recordOr default (created.get "position") = some (pair "x" "y" (.num p.x) (.num p.y)) := by
    intro default
    rw [from'.get (by decide) placed.position]
    exact recordOr_of default (by simp)
  have w : getOr (Dict.of p.geometry) "w" (getOr size "w" (.num 0)) = p.w :=
    getOr_of p.distinct_geometry (by simp [Placement.geometry]) _
  have h : getOr (Dict.of p.geometry) "h" (getOr size "h" (.num 0)) = p.h :=
    getOr_of p.distinct_geometry (by simp [Placement.geometry]) _
  have rotation : getOr (Dict.of p.geometry) "rotation" (.num 0) = p.rotation :=
    getOr_of p.distinct_geometry (by simp [Placement.geometry]) _
  have shown := Eq.refl ( projectAnnotation created)
  conv_rhs at shown => rw [ projectAnnotation]
  simp only [Option.bind_eq_bind, geometry, position, readSize, Option.bind_some, Option.pure_def] at shown
  refine ⟨_, shown, ⟨?_, ?_, ?_, ?_, w, h, rotation, ?_, ?_, ?_⟩, rfl⟩
  · intro id named
    exact from'.id id (Dict.get_eq_of_getElem? (by rw [placed.id, named, Option.map_some]))
  · exact from'.type p.type listed (Dict.get_eq_of_getElem? placed.type)
  · exact getOr_pair_fst "x" "y" (by decide) (.num p.x) (.num p.y) (.num 0)
  · exact getOr_pair_snd "x" "y" (by decide) (.num p.x) (.num p.y) (.num 0)
  · intro style styled
    exact congrArg (Json.orElse · (.obj [])) (from'.get (by decide) (placed.style.trans styled))
  · exact from'.getOr (by decide) placed.z (.num 0)
  · exact congrArg Json.truthy (from'.getOr (by decide) placed.locked (.bool false))

theorem lookup_cons_eq (key other : String) (value : Json) (rest : List (String × Json)) :
    ((key, value) :: rest).lookup other = if other = key then some value else rest.lookup other := by
  rw [List.lookup_cons]
  by_cases same : other = key
  · rw [if_pos same, beq_iff_eq.mpr same]
  · rw [if_neg same, beq_eq_false_iff_ne.mpr same]

theorem buildGroupAnnotation_placed (args : GroupCreation) : args.placement.BuiltAs ( buildGroupAnnotation args) := by
  constructor <;>
    simp [ buildGroupAnnotation, GroupCreation.placement, Placement.geometry, getElem?_put, Dict.getElem?_of_eq_lookup, lookup_cons_eq]

/-- What a generic annotation is built from. -/
def AnnotationCreation.envelope (args : AnnotationCreation) : Dict Json :=
  put "style" args.placement.style
    (put "size" (if args.w.isSome || args.h.isSome then some (record (pair "w" "h" args.placement.w args.placement.h)) else none)
      (.of [("type", .str args.type), ("kind", .str args.type),
        ("position", record (pair "x" "y" (.num args.x) (.num args.y))),
        ("geometry", record (.of args.placement.geometry)), ("z", args.placement.z), ("locked", .bool args.locked)]))

theorem buildAnnotation_entries {b : Builtins} {args : AnnotationCreation} (made : buildAnnotation b args = .ok built) :
    built["id"]? = args.annotationId.map .str ∧
      (∀ key ∈ reservedAnnotationKeys, (args.content.getD {})[key]? = none) ∧
      (∀ key ∈ reservedAnnotationKeys, key ≠ "id" → built[key]? = args.envelope[key]?) ∧
      ∀ key ∉ reservedAnnotationKeys, built[key]? = (args.content.getD {})[key]? := by
  have same : buildAnnotation b args = (applyContent b (some args.type) args.content args.envelope).map
    (put "id" (args.annotationId.map .str)) := rfl
  rw [same] at made
  cases applied : applyContent b (some args.type) args.content args.envelope with
  | error failure =>
    rw [applied] at made
    cases made
  | ok target =>
    rw [applied] at made
    obtain rfl := Except.ok.inj made
    obtain ⟨free, entries⟩ := applyContent_ok applied
    have plain : ∀ key ∈ reservedAnnotationKeys, (args.content.getD {})[key]? = none := fun key reserved =>
      Std.ExtTreeMap.getElem?_eq_none (free key reserved)
    refine ⟨?_, plain, fun key reserved other => ?_, fun key outside => ?_⟩
    · rw [getElem?_put_self, entries, plain "id" (by decide), AnnotationCreation.envelope]
      simp [getElem?_put, Dict.getElem?_of_eq_lookup, lookup_cons_eq]
    · rw [getElem?_put_of_ne (Ne.symm other), entries, plain key reserved, Option.none_or]
    · simp only [reservedAnnotationKeys, List.mem_cons, List.not_mem_nil, or_false, not_or] at outside
      have absent : args.envelope[key]? = none := by
        rw [AnnotationCreation.envelope, getElem?_put_of_ne (by simp [Ne.symm, outside]),
          getElem?_put_of_ne (by simp [Ne.symm, outside])]
        exact Dict.getElem?_of_eq_none (by simp [outside])
      rw [getElem?_put_of_ne (by simp [Ne.symm, outside]), entries, absent, Option.or_none]

theorem buildAnnotation_placed {b : Builtins} {args : AnnotationCreation} (made : buildAnnotation b args = .ok built) :
    args.placement.BuiltAs built := by
  obtain ⟨id, -, reserved, -⟩ := buildAnnotation_entries made
  refine ⟨?_, ?_, ?_, ?_, ?_, ?_, id⟩
  all_goals
    rw [reserved _ (by decide) (by decide)]
    simp [AnnotationCreation.envelope, AnnotationCreation.placement, getElem?_put, Dict.getElem?_of_eq_lookup, lookup_cons_eq]

/-- A generic annotation has a size of its own if a side is given. -/
theorem buildAnnotation_size {b : Builtins} {args : AnnotationCreation} (made : buildAnnotation b args = .ok built) :
    built["size"]? = if args.w.isSome || args.h.isSome then some (record (pair "w" "h" args.placement.w args.placement.h))
      else none := by
  rw [(buildAnnotation_entries made).2.2.1 _ (by decide) (by decide), AnnotationCreation.envelope,
    getElem?_put_of_ne (by decide), getElem?_put_self, Dict.getElem?_of_eq_lookup (by simp)]
  simp [lookup_cons_eq]

theorem str_orElse (text : String) : (Json.str text).orElse (.str "") = .str text := by
  rw [Json.orElse]
  split
  · rfl
  · rename_i blank
    rw [Json.truthy, decide_eq_true_iff, not_not] at blank
    rw [blank]

/-- The geometry of a new note. -/
def NoteCreation.geometry (args : NoteCreation) : List (String × Json) :=
  [("x", .num args.x), ("y", .num args.y), ("w", (given args.w).getD defaultNoteW), ("h", (given args.h).getD defaultNoteH),
    ("rotation", (given args.rotation).getD (.num 0))]

/-- The entries of a new note. -/
structure NoteCreation.BuiltAs (args : NoteCreation) (built : Dict Json) : Prop where
  id : built["id"]? = args.annotationId.map .str
  text : built["text"]? = some (.str args.text)
  position : built["position"]? = some (record (pair "x" "y" (.num args.x) (.num args.y)))
  geometry : built["geometry"]? = some (record (.of args.geometry))
  size : built["size"]? =
    some (record (pair "w" "h" ((given args.w).getD defaultNoteW) ((given args.h).getD defaultNoteH)))
  color : built["color"]? = args.color.map .str
  fontSize : built["fontSize"]? = given args.fontSize
  z : built["z"]? = some ((given args.z).getD (.num 0))
  locked : built["locked"]? = some (.bool args.locked)

theorem buildNoteAnnotation_built (args : NoteCreation) : args.BuiltAs ( buildNoteAnnotation args) := by
  constructor <;>
    simp [ buildNoteAnnotation, NoteCreation.geometry, getElem?_put, Dict.getElem?_of_eq_lookup, lookup_cons_eq]

/-- A created note is shown with what it was created with. -/
theorem note_gives {args : NoteCreation} (from' : CreatedFrom ( buildNoteAnnotation args) old created) :
    ∃ view, projectNote created = some view ∧ view.Gives args := by
  have made := buildNoteAnnotation_built args
  have distinct : (args.geometry.map Prod.fst).Nodup := by simp [NoteCreation.geometry]
  have geometry : recordOr {} (created.get "geometry") = some (.of args.geometry) := by
    rw [from'.get (by decide) made.geometry]
    exact recordOr_of {} distinct
  have position : ∀ default, recordOr default (created.get "position") =
      some (pair "x" "y" (.num args.x) (.num args.y)) := by
    intro default
    rw [from'.get (by decide) made.position]
    exact recordOr_of default (by simp)
  have size : ∀ default, recordOr default (created.get "size") =
      some (pair "w" "h" ((given args.w).getD defaultNoteW) ((given args.h).getD defaultNoteH)) := by
    intro default
    rw [from'.get (by decide) made.size]
    exact recordOr_of default (by simp)
  have rotation : getOr (Dict.of args.geometry) "rotation" (.num 0) = (given args.rotation).getD (.num 0) :=
    getOr_of distinct (by simp [NoteCreation.geometry]) _
  have shown := Eq.refl (projectNote created)
  conv_rhs at shown => rw [projectNote]
  simp only [Option.bind_eq_bind, geometry, position, size, Option.bind_some, Option.pure_def] at shown
  refine ⟨_, shown, ⟨?_, ?_, ?_, ?_, ?_, ?_, ?_, ?_, rotation, ?_, ?_⟩⟩
  · intro id named
    exact from'.id id (Dict.get_eq_of_getElem? (by rw [made.id, named, Option.map_some]))
  · exact (congrArg (Json.orElse · (.str "")) (from'.get (by decide) made.text)).trans (str_orElse args.text)
  · exact getOr_pair_fst "x" "y" (by decide) (.num args.x) (.num args.y) (.num 0)
  · exact getOr_pair_snd "x" "y" (by decide) (.num args.x) (.num args.y) (.num 0)
  · exact getOr_pair_fst "w" "h" (by decide) ((given args.w).getD defaultNoteW)
      ((given args.h).getD defaultNoteH) defaultNoteW
  · exact getOr_pair_snd "w" "h" (by decide) ((given args.w).getD defaultNoteW)
      ((given args.h).getD defaultNoteH) defaultNoteH
  · intro color colored
    exact from'.get (by decide) (made.color.trans (by rw [colored, Option.map_some]))
  · intro fontSize sized
    exact from'.get (by decide) (made.fontSize.trans (by rw [sized, given, Option.map_some]))
  · exact from'.getOr (by decide) made.z (.num 0)
  · exact congrArg Json.truthy (from'.getOr (by decide) made.locked (.bool false))

/-- What a group shows of its content. -/
structure AnnotationView.GivesGroup (args : GroupCreation) (view : AnnotationView) : Prop where
  placement : view.toEnvelope.Gives args.placement
  label : view.content["label"]? = some (.str args.label)
  description : view.content["description"]? = some (.str args.description)
  color : ∀ color, args.color = some color → view.content["color"]? = some (.str color)
  members : ∀ members, args.memberNodeIds = some members → view.content["member_node_ids"]? = some (.ofStrings members)

/-- A created group is shown with what it was created with. -/
theorem group_gives {args : GroupCreation} (from' : CreatedFrom ( buildGroupAnnotation args) old created) :
    ∃ view, projectAnnotation created = some view ∧ view.GivesGroup args := by
  have size : recordOr {} (created.get "size") = some (pair "w" "h" args.placement.w args.placement.h) := by
    have entry : ( buildGroupAnnotation args)["size"]? = some (record (pair "w" "h" args.placement.w args.placement.h)) := by
      simp [ buildGroupAnnotation, GroupCreation.placement, getElem?_put, Dict.getElem?_of_eq_lookup, lookup_cons_eq]
    rw [from'.get (by decide) entry]
    exact recordOr_of {} (by simp)
  obtain ⟨view, shown, gives, content⟩ := gives_of_created from' (buildGroupAnnotation_placed args)
    (show "group" ∈ annotationTypes by decide) size
  have read : ∀ {key : String} {value : Json}, key ∉ reservedAnnotationKeys →
      ( buildGroupAnnotation args)[key]? = some value → view.content[key]? = some value := by
    intro key value outside entry
    have fields := from'.fields key fun member => outside (by
      simp only [List.mem_cons, List.not_mem_nil, or_false] at member
      rcases member with rfl | rfl | rfl | rfl | rfl | rfl | rfl <;> decide)
    rw [content, getElem?_content, if_neg outside, fields, entry, Option.some_or]
  refine ⟨view, shown, gives, ?_, ?_, fun color colored => ?_, fun members listed => ?_⟩
  · exact read (by decide) (by simp [ buildGroupAnnotation, getElem?_put, Dict.getElem?_of_eq_lookup, lookup_cons_eq])
  · exact read (by decide) (by simp [ buildGroupAnnotation, getElem?_put, Dict.getElem?_of_eq_lookup, lookup_cons_eq])
  · exact read (by decide) (by simp [ buildGroupAnnotation, getElem?_put, colored])
  · exact read (by decide) (by simp [ buildGroupAnnotation, getElem?_put, listed])

/-- What a generic annotation shows of its content: what was given, and in a new one nothing else. -/
structure AnnotationView.GivesAnnotation (args : AnnotationCreation) (fresh : Prop) (view : AnnotationView) : Prop where
  placement : view.toEnvelope.Gives args.placement
  content : ∀ (key : String) value, (args.content.getD {})[key]? = some value → view.content[key]? = some value
  nothingElse : fresh → ∀ key : String, view.content[key]? = (args.content.getD {})[key]?

/-- A created annotation is shown with what it was created with, if its size can be read. -/
theorem annotation_gives {b : Builtins} {args : AnnotationCreation} (made : buildAnnotation b args = .ok built)
    (listed : args.type ∈ annotationTypes) (from' : CreatedFrom built old created) {size : Dict Json}
    (readSize : recordOr {} (created.get "size") = some size) :
    ∃ view, projectAnnotation created = some view ∧ view.GivesAnnotation args (old = none) := by
  obtain ⟨-, plain, -, others⟩ := buildAnnotation_entries made
  obtain ⟨view, shown, gives, content⟩ := gives_of_created from' (buildAnnotation_placed made) listed readSize
  have read : ∀ key ∉ reservedAnnotationKeys, view.content[key]? =
      ((args.content.getD {})[key]?).or (old.bind fun existing => existing.fields[key]?) := by
    intro key outside
    have fields := from'.fields key fun member => outside (by
      simp only [List.mem_cons, List.not_mem_nil, or_false] at member
      rcases member with rfl | rfl | rfl | rfl | rfl | rfl | rfl <;> decide)
    rw [content, getElem?_content, if_neg outside, fields, others key outside]
  have hidden : ∀ key ∈ reservedAnnotationKeys, view.content[key]? = none := fun key member => by
    rw [content, getElem?_content, if_pos member]
  refine ⟨view, shown, gives, fun key value supplied => ?_, fun fresh key => ?_⟩
  · have outside : key ∉ reservedAnnotationKeys := fun member => by
      rw [plain key member] at supplied
      cases supplied
    rw [read key outside, supplied, Option.some_or]
  · by_cases member : key ∈ reservedAnnotationKeys
    · rw [hidden key member, plain key member]
    · rw [read key member, fresh, Option.bind_none, Option.or_none]

end Gives

theorem toOption_eq_some {ε α : Type} {attempt : Except ε α} {value : α} :
    attempt.toOption = some value ↔ attempt = .ok value := by
  cases attempt with
  | error failure => exact iff_of_false (by simp [Except.toOption]) (by simp)
  | ok value' => exact ⟨fun same => congrArg Except.ok (Option.some.inj same), fun same => congrArg some (Except.ok.inj same)⟩

section Exact

variable {b : Builtins} {cfg : StoreConfig} {s after : Session Annotation} {call : Call} {done : Applied Annotation}
variable {result : Annotation}

namespace AgentEdit

/-- What was asked is shown as it was given, and all else of what the annotation showed as before but
for the stamps of the write. -/
def Exact (s : Session Annotation) (stamp : ℕ) (result : Annotation) : AgentEdit → Prop
  | .createNote args => ∃ view, projectNote result = some view ∧ view.Gives args
  | .createGroup args => ∃ view, projectAnnotation result = some view ∧ view.GivesGroup args
  | .createGeneric args => ∃ view, projectAnnotation result = some view ∧
      view.GivesAnnotation { args with type := canonicalType args.type } (args.annotationId.bind s.state.find = none)
  | .updateNote id args _ => ∀ existing before, s.state.find id = some existing → projectNote existing = some before →
      projectNote result = some (before.edited args (existing.priorVersion + 1) stamp)
  | .updateGeneric id args _ => ∀ existing before, s.state.find id = some existing →
      projectAnnotation existing = some before → ∃ after, projectAnnotation result = some after ∧
        before.Edited args (existing.priorVersion + 1) stamp after

/-- The edits that do not take the untouched half of a size or a coordinate from the wrong copy. -/
def Keeps (b : Builtins) (s : Session Annotation) : AgentEdit → Prop
  | .createNote _ => True
  | .createGroup _ => True
  | .createGeneric args => (args.w.isSome || args.h.isSome) = true ∨ ∀ existing,
      args.annotationId.bind s.state.find = some existing → (recordOr {} (existing.get "size")).isSome = true
  | .updateNote id args _ => ∀ existing, s.state.find id = some existing → (projectNote existing).isSome = true →
      KeepsNote args existing
  | .updateGeneric id args _ => ∀ existing, s.state.find id = some existing →
      ( projectAnnotation existing).isSome = true → KeepsAnnotation b args existing

end AgentEdit

theorem createNote_exact {args : NoteCreation} (asked : (AgentEdit.createNote args).op b s = some call.op)
    (applied : s.applyStateOp cfg call = .applied done after) (written : written? done.op = some result) :
    (AgentEdit.createNote args).Exact s call.env.stamp result :=
  note_gives (createdFrom_of_applied (Option.some.inj asked).symm applied written)

theorem createGroup_exact {args : GroupCreation} (asked : (AgentEdit.createGroup args).op b s = some call.op)
    (applied : s.applyStateOp cfg call = .applied done after) (written : written? done.op = some result) :
    (AgentEdit.createGroup args).Exact s call.env.stamp result :=
  group_gives (createdFrom_of_applied (Option.some.inj asked).symm applied written)

theorem createGeneric_exact_iff {args : AnnotationCreation}
    (asked : ( AgentEdit.createGeneric args).op b s = some call.op)
    (applied : s.applyStateOp cfg call = .applied done after) (written : written? done.op = some result) :
    ( AgentEdit.createGeneric args).Exact s call.env.stamp result ↔ ( AgentEdit.createGeneric args).Keeps b s := by
  obtain ⟨type, normal, asked⟩ := Option.bind_eq_some_iff.mp asked
  obtain ⟨built, made, same⟩ := Option.map_eq_some_iff.mp asked
  rw [normalizeGenericType] at normal
  split at normal
  swap
  · cases normal
  rename_i listed
  obtain rfl := Option.some.inj normal
  have made := toOption_eq_some.mp made
  have known : canonicalType args.type ∈ annotationTypes := (List.mem_filter.mp listed).1
  have from' := createdFrom_of_applied same.symm applied written
  have named : (built.get "id").string?.bind s.state.find = args.annotationId.bind s.state.find := by
    rw [Dict.get, (buildAnnotation_entries made).1]
    cases args.annotationId <;> rfl
  rw [named] at from'
  have size := from'.fields "size" (by decide)
  rw [buildAnnotation_size made] at size
  have readable : (recordOr {} (result.get "size")).isSome = true ↔ ( AgentEdit.createGeneric args).Keeps b s := by
    rw [AgentEdit.Keeps]
    cases sized : args.w.isSome || args.h.isSome with
    | true =>
      rw [if_pos sized, Option.some_or] at size
      rw [ Annotation.get, Dict.get_eq_of_getElem? size, pair, recordOr_of {} (by simp)]
      exact iff_of_true rfl (.inl rfl)
    | false =>
      rw [if_neg (by rw [sized]; exact Bool.false_ne_true), Option.none_or] at size
      rw [ Annotation.get, Dict.get, size]
      cases args.annotationId.bind s.state.find with
      | none => exact iff_of_true rfl (.inr fun existing found => by cases found)
      | some existing =>
        refine ⟨fun readable => .inr fun other found => ?_, fun keeps => ?_⟩
        · obtain rfl := Option.some.inj found
          exact readable
        · rcases keeps with no | readable
          · cases no
          · exact readable existing rfl
  rw [← readable]
  constructor
  · rintro ⟨view, shown, -⟩
    simp only [ projectAnnotation, Option.bind_eq_bind, Option.bind_eq_some_iff] at shown
    obtain ⟨-, -, -, -, size, readSize, -⟩ := shown
    rw [readSize, Option.isSome_some]
  · intro isSome
    obtain ⟨size, readSize⟩ := Option.isSome_iff_exists.mp isSome
    exact annotation_gives made known from' readSize

theorem updateNote_exact_iff {id : String} {args : NoteUpdate} {base : Json}
    (asked : (AgentEdit.updateNote id args base).op b s = some call.op)
    (applied : s.applyStateOp cfg call = .applied done after) (written : written? done.op = some result) :
    (AgentEdit.updateNote id args base).Exact s call.env.stamp result ↔ (AgentEdit.updateNote id args base).Keeps b s := by
  obtain ⟨existing, found, asked⟩ := Option.bind_eq_some_iff.mp asked
  obtain ⟨patch, built, same⟩ := Option.map_eq_some_iff.mp asked
  have held : existing.get "id" = .str id := Annotation.hasId_iff.mp (State.hasId_of_find found)
  have named : patch.get "id" = .str id := by
    obtain ⟨-, -, idEntry, -⟩ := buildNotePatch_entries built
    exact (Dict.get_eq_of_getElem? idEntry).trans held
  have merge := mergedFrom_of_applied found named same.symm applied written
  constructor
  · intro exact' other found' shown
    obtain rfl := Option.some.inj (found.symm.trans found')
    obtain ⟨before, shown⟩ := Option.isSome_iff_exists.mp shown
    exact (note_exact_iff shown built merge).mp (exact' existing before found shown)
  · intro keeps other before found' shown
    obtain rfl := Option.some.inj (found.symm.trans found')
    exact (note_exact_iff shown built merge).mpr (keeps existing found (by rw [shown, Option.isSome_some]))

theorem updateGeneric_exact_iff {id : String} {args : AnnotationUpdate} {base : Json}
    (asked : ( AgentEdit.updateGeneric id args base).op b s = some call.op)
    (applied : s.applyStateOp cfg call = .applied done after) (written : written? done.op = some result) :
    ( AgentEdit.updateGeneric id args base).Exact s call.env.stamp result ↔
      ( AgentEdit.updateGeneric id args base).Keeps b s := by
  obtain ⟨existing, found, asked⟩ := Option.bind_eq_some_iff.mp asked
  obtain ⟨patch, made, same⟩ := Option.map_eq_some_iff.mp asked
  have built := toOption_eq_some.mp made
  have held : existing.get "id" = .str id := Annotation.hasId_iff.mp (State.hasId_of_find found)
  have named : patch.get "id" = .str id := by
    obtain ⟨-, -, -, idEntry, -⟩ := buildAnnotationPatch_entries built
    exact (Dict.get_eq_of_getElem? idEntry).trans held
  have merge := mergedFrom_of_applied found named same.symm applied written
  constructor
  · intro exact' other found' shown
    obtain rfl := Option.some.inj (found.symm.trans found')
    obtain ⟨before, shown⟩ := Option.isSome_iff_exists.mp shown
    exact (annotation_exact_iff shown built merge).mp (exact' existing before found shown)
  · intro keeps other before found' shown
    obtain rfl := Option.some.inj (found.symm.trans found')
    exact (annotation_exact_iff shown built merge).mpr (keeps existing found (by rw [shown, Option.isSome_some]))

/-- An agent's edit that the store accepts is exact precisely when it keeps the untouched halves. -/
theorem agent_edit_exact_iff {edit : AgentEdit} (asked : edit.op b s = some call.op)
    (applied : s.applyStateOp cfg call = .applied done after) (written : written? done.op = some result) :
    edit.Exact s call.env.stamp result ↔ edit.Keeps b s := by
  cases edit with
  | createNote args => exact iff_of_true (createNote_exact asked applied written) trivial
  | createGroup args => exact iff_of_true (createGroup_exact asked applied written) trivial
  | createGeneric args => exact createGeneric_exact_iff asked applied written
  | updateNote id args base => exact updateNote_exact_iff asked applied written
  | updateGeneric id args base => exact updateGeneric_exact_iff asked applied written

def noteBuiltins : Builtins := { dict := fun _ => none, strip := id }

/-- A browser has stored a note with a geometry and no size. -/
def storedNote : Call where
  env := ⟨1000000, "new"⟩
  client := "ada"
  op := .annotationCreated (some (.of [("type", .str "note"), ("id", .str "a"), ("text", .str "hello"),
    ("geometry", record (.of [("w", .num 300), ("h", .num 200)]))]))

/-- The session with the note, and an edit of the note with what it makes of it. -/
def editNote (args : NoteUpdate) : Option (Session Annotation × Call × Applied Annotation × Session Annotation) := do
  let (s, _) ← ({} : Session Annotation).edit {} (.op storedNote)
  let op ← (AgentEdit.updateNote "a" args .null).op noteBuiltins s
  let call : Call := { env := ⟨2000000, "new"⟩, client := "agent", op := op }
  let (after, done) ← s.edit {} (.op call)
  return (s, call, done, after)

/-- The height that is shown before and after. -/
def heights (args : NoteUpdate) : Option (Option Json × Option Json) := (editNote args).map fun made =>
  (((made.1.state.find "a").bind projectNote).map (·.h), ((written? made.2.2.1.op).bind projectNote).map (·.h))

theorem heights_facts :
    heights { w := some 400 } = some (some (.num 200), some (.num 96)) ∧
      heights { text := some "bye" } = some (some (.num 200), some (.num 200)) := by
  decide +kernel

theorem editNote_eq {args : NoteUpdate} {s after : Session Annotation} {call : Call} {done : Applied Annotation}
    (made : editNote args = some (s, call, done, after)) :
    (∃ created, ({} : Session Annotation).edit {} (.op storedNote) = some (s, created)) ∧
      (AgentEdit.updateNote "a" args .null).op noteBuiltins s = some call.op ∧
      s.applyStateOp {} call = .applied done after := by
  simp only [editNote, Option.bind_eq_bind, Option.bind_eq_some_iff, Option.pure_def, Option.some.injEq, Prod.mk.injEq]
    at made
  obtain ⟨⟨s', created⟩, first, op, asked, ⟨after', done'⟩, second, rfl, rfl, rfl, rfl⟩ := made
  exact ⟨⟨created, first⟩, asked, Session.edit_op.mp second⟩

/-- A note that was stored with a geometry only loses its height when it is made wider. -/
theorem widened_note_loses_height : ∃ s call done after result created edit,
    ({} : Session Annotation).edit {} (.op storedNote) = some (s, created) ∧
      AgentEdit.op noteBuiltins s edit = some call.op ∧ s.applyStateOp {} call = .applied done after ∧
      written? done.op = some result ∧ ¬ edit.Exact s call.env.stamp result := by
  have shown := heights_facts.1
  obtain ⟨⟨s, call, done, after⟩, made, same⟩ := Option.map_eq_some_iff.mp shown
  obtain ⟨⟨created, stored⟩, asked, applied⟩ := editNote_eq made
  obtain ⟨before, after'⟩ := Prod.mk.inj same
  obtain ⟨view, read, height⟩ := Option.map_eq_some_iff.mp before
  obtain ⟨existing, found, projected⟩ := Option.bind_eq_some_iff.mp read
  obtain ⟨view', read', height'⟩ := Option.map_eq_some_iff.mp after'
  obtain ⟨result, written, projected'⟩ := Option.bind_eq_some_iff.mp read'
  refine ⟨s, call, done, after, result, created, .updateNote "a" { w := some 400 } .null, stored, asked, applied, written,
    fun exact' => ?_⟩
  have edited := exact' existing view found projected
  rw [projected'] at edited
  obtain rfl := Option.some.inj edited
  have kept : view.h = .num 96 := height'
  rw [height] at kept
  revert kept
  decide

/-- Its text can be changed. -/
theorem agent_edit_exact_iff_sample : ∃ s call done after result created edit,
    ({} : Session Annotation).edit {} (.op storedNote) = some (s, created) ∧
      AgentEdit.op noteBuiltins s edit = some call.op ∧ s.applyStateOp {} call = .applied done after ∧
      written? done.op = some result ∧ edit.Exact s call.env.stamp result := by
  have shown := heights_facts.2
  obtain ⟨⟨s, call, done, after⟩, made, same⟩ := Option.map_eq_some_iff.mp shown
  obtain ⟨⟨created, stored⟩, asked, applied⟩ := editNote_eq made
  obtain ⟨view', read', -⟩ := Option.map_eq_some_iff.mp (Prod.mk.inj same).2
  obtain ⟨result, written, -⟩ := Option.bind_eq_some_iff.mp read'
  refine ⟨s, call, done, after, result, created, .updateNote "a" { text := some "bye" } .null, stored, asked, applied,
    written, (agent_edit_exact_iff asked applied written).mpr fun existing _ _ => .inr ⟨fun no => ?_, fun no => ?_⟩⟩
  · cases no
  · cases no

end Exact

end MetadataGraph.Annotations
