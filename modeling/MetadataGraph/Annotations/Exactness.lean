import MetadataGraph.Annotations.Builders
import MetadataGraph.Session.Edits

namespace MetadataGraph.Annotations

section Dicts

variable {d : Dict Json} {key other : String}

theorem getElem?_put (key : String) (value : Option Json) (d : Dict Json) (other : String) :
    (put key value d)[other]? = if key = other then value.or d[other]? else d[other]? := by
  cases value with
  | none => rw [put, Option.none_or, ite_self]
  | some value =>
    simp only [put, Std.ExtTreeMap.getElem?_insert, Std.LawfulEqCmp.compare_eq_iff_eq, Option.some_or]

theorem getElem?_put_self (value : Option Json) (d : Dict Json) : (put key value d)[key]? = value.or d[key]? := by
  rw [getElem?_put, if_pos rfl]

theorem getElem?_put_of_ne (differ : key ≠ other) (value : Option Json) (d : Dict Json) :
    (put key value d)[other]? = d[other]? := by
  rw [getElem?_put, if_neg differ]

theorem getElem?_insert (d : Dict Json) (key other : String) (value : Json) :
    (d.insert key value)[other]? = if key = other then some value else d[other]? := by
  simp only [Std.ExtTreeMap.getElem?_insert, Std.LawfulEqCmp.compare_eq_iff_eq]

/-- A dict with an entry is true, and is read back as it is. -/
theorem recordOr_record (default : Dict Json) (present : key ∈ d) : recordOr default (record d) = some d := by
  have nonempty : d.toList ≠ [] := by
    intro empty
    have lookup := Std.ExtTreeMap.mem_toList_iff_getElem?_eq_some.mpr
      (Std.ExtTreeMap.getElem?_eq_some_getElem present)
    rw [empty] at lookup
    cases lookup
  rw [recordOr, record, Json.truthy, decide_eq_true nonempty, if_pos rfl, object?, Dict.of_toList]

theorem record_orElse (d : Dict Json) : (record d).orElse (.obj []) = record d := by
  rw [Json.orElse]
  split
  · rfl
  · rename_i blank
    rw [record, Json.truthy, decide_eq_true_iff, not_not] at blank
    rw [record, blank]

theorem dictOr_of_recordOr (b : Builtins) {default : Dict Json} {value : Json} (read : recordOr default value = some d) :
    dictOr b default value = some d := by
  rw [recordOr] at read
  rw [dictOr]
  split at read
  · rename_i true
    rw [if_pos true, read, Option.some_or]
  · rename_i false
    rw [if_neg false, read]

/-- Where two defaults differ, a value that is read differently is no true one. -/
theorem recordOr_cases (default : Dict Json) {value : Json} (read : recordOr default value = some d) (other : Dict Json) :
    value.truthy = true ∧ recordOr other value = some d ∨
      value.truthy = false ∧ d = default ∧ recordOr other value = some other := by
  rw [recordOr] at read ⊢
  cases true : value.truthy with
  | true =>
    rw [true, if_pos rfl] at read
    exact .inl ⟨rfl, read⟩
  | false =>
    rw [true, if_neg Bool.false_ne_true] at read
    exact .inr ⟨rfl, (Option.some.inj read).symm, rfl⟩

theorem getOr_of_getElem? {e : Dict Json} (same : e[other]? = d[key]?) (default : Json) :
    getOr e other default = getOr d key default := by
  rw [getOr, getOr, same]

@[simp] theorem getOr_pair_fst (first second : String) (differ : first ≠ second) (a b default : Json) :
    getOr (pair first second a b) first default = a := by
  have found : (pair first second a b)[first]? = some a := Dict.getElem?_of (by simpa using differ) (by simp)
  rw [getOr, found, Option.getD_some]

@[simp] theorem getOr_pair_snd (first second : String) (differ : first ≠ second) (a b default : Json) :
    getOr (pair first second a b) second default = b := by
  have found : (pair first second a b)[second]? = some b := Dict.getElem?_of (by simpa using differ) (by simp)
  rw [getOr, found, Option.getD_some]

end Dicts

/-- The annotation that an applied op carries. -/
def written? : AppliedOp Annotation → Option Annotation
  | .annotationCreated a => some a
  | .annotationUpdated a => some a
  | _ => none

/-- The annotation after the store has merged a patch onto it. -/
structure MergedFrom (existing : Annotation) (patch : Dict Json) (stamp : ℕ) (merged : Annotation) : Prop where
  fields : ∀ key ∉ ["type", "kind", "version", "field_versions", "updated_at"],
    merged.fields[key]? = (patch[key]?).or existing.fields[key]?
  type : annotationTypeOf merged.fields = annotationTypeOf existing.fields
  version : merged.version = some (existing.priorVersion + 1)
  updatedAt : merged.updatedAt = some stamp

theorem getElem?_canonicalPayload {ann : Dict Json} {annType key : String}
    (outside : key ∉ ["type", "kind", "version", "field_versions", "updated_at"]) :
    (canonicalPayload ann annType)[key]? = ann[key]? := by
  simp only [List.mem_cons, List.not_mem_nil, or_false, not_or] at outside
  obtain ⟨type, kind, version, fieldVersions, updatedAt⟩ := outside
  simp only [canonicalPayload, Std.ExtTreeMap.getElem?_erase, Std.ExtTreeMap.getElem?_insert,
    Std.LawfulEqCmp.compare_eq_iff_eq, Ne.symm type, Ne.symm kind, Ne.symm version, Ne.symm fieldVersions,
    Ne.symm updatedAt, if_false]

section Merge

variable {cfg : StoreConfig} {s after : Session Annotation} {call : Call} {done : Applied Annotation}
variable {existing merged : Annotation} {id : String} {patch : Dict Json} {base : Json}

/-- The merge of a checked payload onto the annotation with the payload's id, which has the same type. -/
def MergesUpdate (s : Session Annotation) (env : Env) (payload : Option (Dict Json)) (e : Effect) : Prop :=
  ∃ incoming id target, validatePayload payload true = .ok incoming ∧ incoming.get "id" = .str id ∧
    s.state.find id = some target ∧ target.get "type" = incoming.get "type" ∧
      e = s.mergeEffect env id target incoming .annotationUpdated

/-- Every update that the store accepts is such a merge. -/
theorem planAnnotationUpdated_merges (env : Env) (trusted : Bool) (payload : Option (Dict Json)) (baseVersion : Json) :
    (s.planAnnotationUpdated env trusted payload baseVersion).Satisfies (MergesUpdate s env payload) fun _ _ => True := by
  refine Session.validated_satisfies trivial fun incoming valid => ?_
  dsimp only
  split
  · trivial
  · rename_i id named
    split
    · trivial
    · rename_i target found
      split
      · trivial
      · rename_i same
        have merged : MergesUpdate s env payload (s.mergeEffect env id target incoming .annotationUpdated) :=
          ⟨incoming, id, target, valid, Json.string?_eq_some.mp named, found, not_not.mp same, rfl⟩
        repeat' split
        all_goals first | exact merged | trivial

theorem annotationTypeOf_of_type {ann : Dict Json} {t : String} (listed : t ∈ annotationTypes)
    (typed : ann.get "type" = .str t) : annotationTypeOf ann = some t := by
  have true : (Json.str t).truthy = true := by
    rw [Json.truthy, decide_eq_true]
    rintro rfl
    revert listed
    decide
  have canonical : canonicalType t = t := by
    rw [canonicalType, if_neg]
    rintro rfl
    revert listed
    decide
  rw [annotationTypeOf, typed, Json.orElse, if_pos true, Json.string?_str, Option.map_some, canonical]

/-- A checked payload merged onto an annotation. -/
theorem mergedFrom_merge {payload incoming : Dict Json} (valid : validatePayload (some payload) true = .ok incoming)
    (same : existing.get "type" = incoming.get "type") (stamp : ℕ) :
    MergedFrom existing payload stamp (existing.merge stamp incoming) := by
  obtain ⟨sent, raw, sentSame, -, listed, -, -, rfl⟩ := validatePayload_eq_ok.mp valid
  obtain rfl := Option.some.inj sentSame
  have typed : (canonicalPayload payload (canonicalType raw)).get "type" = .str (canonicalType raw) := by
    simp [canonicalPayload, Dict.get_insert, Dict.get_erase]
  have present : "type" ∈ canonicalPayload payload (canonicalType raw) :=
    mem_canonicalPayload.mpr ⟨by decide, .inl rfl⟩
  refine ⟨fun key outside => ?_, ?_, rfl, rfl⟩
  · rw [ Annotation.merge, Std.ExtTreeMap.getElem?_union, getElem?_canonicalPayload outside]
  · rw [annotationTypeOf_of_type listed (same.trans typed), annotationTypeOf_of_type listed]
    rw [ Annotation.merge, Dict.get_union, if_pos present, typed]

/-- What an update that the store applies makes of the annotation. -/
theorem mergedFrom_of_applied (found : s.state.find id = some existing) (named : patch.get "id" = .str id)
    (asked : call.op = .annotationUpdated (some patch) base) (applied : s.applyStateOp cfg call = .applied done after)
    (result : written? done.op = some merged) : MergedFrom existing patch call.env.stamp merged := by
  obtain ⟨e, accepted, rfl, -⟩ := Session.applyStateOp_applied applied
  have merges := planAnnotationUpdated_merges (s := s) call.env call.trustedReplay (some patch) base
  rw [Session.judge, asked, Session.plan] at accepted
  rw [accepted] at merges
  obtain ⟨incoming, id', target, valid, given, found', same, rfl⟩ := merges
  obtain ⟨sent, sentSame, idSame⟩ := validatePayload_id valid
  obtain rfl := Option.some.inj sentSame
  obtain rfl : id = id' := Json.str.inj (named.symm.trans (idSame.symm.trans given))
  obtain rfl : existing = target := Option.some.inj (found.symm.trans found')
  have read := @getD_replaceFirst (·.hasId id) s.state.annotations existing (existing.merge call.env.stamp incoming) found
  have shared : some ((replaceFirst (·.hasId id) (existing.merge call.env.stamp incoming) s.state.annotations).getD
      (s.state.annotations.findIdx (·.hasId id)) default) = some merged := result
  rw [read] at shared
  rw [← Option.some.inj shared]
  exact mergedFrom_merge valid same call.env.stamp

end Merge

namespace Reshape

variable {w h : Json} {r : Reshape} {frame : Frame} {d : Dict Json}

/-- Whether the patch carries a geometry. -/
def touched (r : Reshape) : Bool := r.moved || r.resized || r.rotation.isSome

theorem getElem?_position_x : (r.position frame)["x"]? = some ((given r.x).getD (getOr frame.position "x" (.num 0))) := by
  rw [position, getElem?_insert, if_neg (by decide), getElem?_insert, if_pos rfl]

theorem getElem?_position_y : (r.position frame)["y"]? = some ((given r.y).getD (getOr frame.position "y" (.num 0))) := by
  rw [position, getElem?_insert, if_pos rfl]

theorem getElem?_size_w : (r.size w h frame)["w"]? = some ((given r.w).getD (getOr frame.size "w" w)) := by
  rw [size, getElem?_insert, if_neg (by decide), getElem?_insert, if_pos rfl]

theorem getElem?_size_h : (r.size w h frame)["h"]? = some ((given r.h).getD (getOr frame.size "h" h)) := by
  rw [size, getElem?_insert, if_pos rfl]

theorem some_or_ite (c : Bool) (a : Json) (o : Option Json) :
    (if c = true then some a else none).or o = if c = true then some a else o := by
  split
  · exact Option.some_or
  · exact Option.none_or

theorem getElem?_geometry_x : (r.geometry w h frame)["x"]? =
    if r.moved then some ((given r.x).getD (getOr frame.position "x" (.num 0))) else frame.geometry["x"]? := by
  rw [geometry, getElem?_put_of_ne (by decide), getElem?_put_of_ne (by decide), getElem?_put_of_ne (by decide),
    getElem?_put_of_ne (by decide), getElem?_put_self, getElem?_position_x, some_or_ite]

theorem getElem?_geometry_y : (r.geometry w h frame)["y"]? =
    if r.moved then some ((given r.y).getD (getOr frame.position "y" (.num 0))) else frame.geometry["y"]? := by
  rw [geometry, getElem?_put_of_ne (by decide), getElem?_put_of_ne (by decide), getElem?_put_of_ne (by decide),
    getElem?_put_self, getElem?_position_y, some_or_ite, getElem?_put_of_ne (by decide)]

theorem getElem?_geometry_w : (r.geometry w h frame)["w"]? =
    if r.resized then some ((given r.w).getD (getOr frame.size "w" w)) else frame.geometry["w"]? := by
  rw [geometry, getElem?_put_of_ne (by decide), getElem?_put_of_ne (by decide), getElem?_put_self, getElem?_size_w,
    some_or_ite, getElem?_put_of_ne (by decide), getElem?_put_of_ne (by decide)]

theorem getElem?_geometry_h : (r.geometry w h frame)["h"]? =
    if r.resized then some ((given r.h).getD (getOr frame.size "h" h)) else frame.geometry["h"]? := by
  rw [geometry, getElem?_put_of_ne (by decide), getElem?_put_self, getElem?_size_h, some_or_ite,
    getElem?_put_of_ne (by decide), getElem?_put_of_ne (by decide), getElem?_put_of_ne (by decide)]

theorem getElem?_geometry_rotation : (r.geometry w h frame)["rotation"]? =
    (given r.rotation).or frame.geometry["rotation"]? := by
  rw [geometry, getElem?_put_self, getElem?_put_of_ne (by decide), getElem?_put_of_ne (by decide),
    getElem?_put_of_ne (by decide), getElem?_put_of_ne (by decide)]

theorem geometry_of_untouched (untouched : r.touched = false) : r.geometry w h frame = frame.geometry := by
  rw [touched, Bool.or_eq_false_iff, Bool.or_eq_false_iff, Option.isSome_eq_false_iff, Option.isNone_iff_eq_none]
    at untouched
  obtain ⟨⟨unmoved, unresized⟩, unrotated⟩ := untouched
  simp only [geometry, unmoved, unresized, unrotated, Bool.false_eq_true, if_false, put, given, Option.map_none]

/-- A patch with a geometry has something in it. -/
theorem exists_mem_geometry (changed : r.touched = true) : ∃ key, key ∈ r.geometry w h frame := by
  have present {key : String} {value : Json} (found : (r.geometry w h frame)[key]? = some value) :
      ∃ key, key ∈ r.geometry w h frame :=
    ⟨key, Std.ExtTreeMap.mem_iff_isSome_getElem?.mpr (by rw [found, Option.isSome_some])⟩
  rw [touched, Bool.or_eq_true, Bool.or_eq_true] at changed
  rcases changed with (moved | resized) | rotated
  · exact present (by rw [getElem?_geometry_x, if_pos moved])
  · exact present (by rw [getElem?_geometry_w, if_pos resized])
  · obtain ⟨rotation, same⟩ := Option.isSome_iff_exists.mp rotated
    exact present (by rw [getElem?_geometry_rotation, same, given, Option.map_some, Option.some_or])

theorem getElem?_patch_geometry (w h : Json) (r : Reshape) (frame : Frame) (d : Dict Json) :
    (r.patch w h frame d)["geometry"]? =
      (if r.touched then some (record (r.geometry w h frame)) else none).or d["geometry"]? := by
  rw [patch, getElem?_put_self, getElem?_put_of_ne (by decide), getElem?_put_of_ne (by decide), touched]

theorem getElem?_patch_size (w h : Json) (r : Reshape) (frame : Frame) (d : Dict Json) :
    (r.patch w h frame d)["size"]? = (if r.resized then some (record (r.size w h frame)) else none).or d["size"]? := by
  rw [patch, getElem?_put_of_ne (by decide), getElem?_put_self, getElem?_put_of_ne (by decide)]

theorem getElem?_patch_position (w h : Json) (r : Reshape) (frame : Frame) (d : Dict Json) :
    (r.patch w h frame d)["position"]? = (if r.moved then some (record (r.position frame)) else none).or d["position"]? := by
  rw [patch, getElem?_put_of_ne (by decide), getElem?_put_of_ne (by decide), getElem?_put_self]

theorem getElem?_patch_other {key : String} (other : key ∉ ["geometry", "size", "position"]) (w h : Json) (r : Reshape)
    (frame : Frame) (d : Dict Json) : (r.patch w h frame d)[key]? = d[key]? := by
  simp only [List.mem_cons, List.not_mem_nil, or_false, not_or] at other
  rw [patch, getElem?_put_of_ne (Ne.symm other.1), getElem?_put_of_ne (Ne.symm other.2.1),
    getElem?_put_of_ne (Ne.symm other.2.2)]

end Reshape

section Place

variable {w h : Json} {r : Reshape} {frame : Frame} {existing merged : Annotation}

theorem get_of_getElem?_or {a b : Annotation} {key : String} {value : Json}
    (same : a.fields[key]? = (some value).or b.fields[key]?) : a.get key = value := by
  rw [Option.some_or] at same
  exact Dict.get_eq_of_getElem? same

theorem get_of_getElem?_none {a b : Annotation} {key : String}
    (same : a.fields[key]? = (none : Option Json).or b.fields[key]?) : a.get key = b.get key := by
  rw [Option.none_or] at same
  rw [ Annotation.get, Annotation.get, Dict.get, Dict.get, same]

/-- A side of the merged size is the given one, or else the one that the patch started from. -/
theorem getOr_size_w (default : Json) (size : Dict Json) :
    getOr (if r.resized then r.size w h frame else size) "w" default =
      if r.resized then (given r.w).getD (getOr frame.size "w" w) else getOr size "w" default := by
  split
  · rw [getOr, Reshape.getElem?_size_w, Option.getD_some]
  · rfl

theorem getOr_size_h (default : Json) (size : Dict Json) :
    getOr (if r.resized then r.size w h frame else size) "h" default =
      if r.resized then (given r.h).getD (getOr frame.size "h" h) else getOr size "h" default := by
  split
  · rw [getOr, Reshape.getElem?_size_h, Option.getD_some]
  · rfl

/-- A side that is shown from the geometry first. -/
theorem getOr_geometry_w (default : Json) (size : Dict Json) :
    getOr (r.geometry w h frame) "w" (getOr (if r.resized then r.size w h frame else size) "w" default) =
      if r.resized then (given r.w).getD (getOr frame.size "w" w) else getOr frame.geometry "w" (getOr size "w" default) := by
  rw [getOr, Reshape.getElem?_geometry_w]
  split <;> rfl

theorem getOr_geometry_h (default : Json) (size : Dict Json) :
    getOr (r.geometry w h frame) "h" (getOr (if r.resized then r.size w h frame else size) "h" default) =
      if r.resized then (given r.h).getD (getOr frame.size "h" h) else getOr frame.geometry "h" (getOr size "h" default) := by
  rw [getOr, Reshape.getElem?_geometry_h]
  split <;> rfl

/-- A side is shown as an edit asks for it unless the edit resizes without naming it and starts
from another value than was shown. -/
theorem side_iff {resized : Bool} {side : Option ℚ} {started shown : Json} (named : side.isSome = true → resized = true) :
    (if resized then (given side).getD started else shown) = (given side).getD shown ↔
      (resized = true ∧ side = none → started = shown) := by
  cases side with
  | some q =>
    rw [named rfl, if_pos rfl]
    exact iff_of_true rfl fun no => by cases no.2
  | none =>
    cases resized with
    | true => exact ⟨fun same _ => same, fun same => same ⟨rfl, rfl⟩⟩
    | false => exact iff_of_true rfl fun no => by cases no.1

theorem Reshape.resized_and_w (r : Reshape) : r.resized = true ∧ r.w = none ↔ r.h.isSome = true ∧ r.w = none := by
  refine and_congr_left fun absent => ?_
  rw [resized, absent, Option.isSome_none, Bool.false_or]

theorem Reshape.resized_and_h (r : Reshape) : r.resized = true ∧ r.h = none ↔ r.w.isSome = true ∧ r.h = none := by
  refine and_congr_left fun absent => ?_
  rw [resized, absent, Option.isSome_none, Bool.or_false]

theorem Reshape.resized_of_w (r : Reshape) (named : r.w.isSome = true) : r.resized = true := by
  rw [resized, named, Bool.true_or]

theorem Reshape.resized_of_h (r : Reshape) (named : r.h.isSome = true) : r.resized = true := by
  rw [resized, named, Bool.or_true]

/-- The geometry and the position that are read after a merged change of place and size. -/
theorem place_of_merged (geometry : recordOr {} (existing.get "geometry") = some frame.geometry)
    (position : recordOr (geometryPosition frame.geometry) (existing.get "position") = some frame.position)
    (mergedGeometry : merged.fields["geometry"]? =
      (if r.touched then some (record (r.geometry w h frame)) else none).or existing.fields["geometry"]?)
    (mergedPosition : merged.fields["position"]? =
      (if r.moved then some (record (r.position frame)) else none).or existing.fields["position"]?) :
    recordOr {} (merged.get "geometry") = some (r.geometry w h frame) ∧
      ∃ position', recordOr (geometryPosition (r.geometry w h frame)) (merged.get "position") = some position' ∧
        getOr position' "x" (.num 0) = (given r.x).getD (getOr frame.position "x" (.num 0)) ∧
        getOr position' "y" (.num 0) = (given r.y).getD (getOr frame.position "y" (.num 0)) := by
  constructor
  · cases changed : r.touched with
    | true =>
      rw [changed, if_pos rfl] at mergedGeometry
      obtain ⟨key, present⟩ : ∃ key, key ∈ r.geometry w h frame := Reshape.exists_mem_geometry changed
      rw [get_of_getElem?_or mergedGeometry, recordOr_record {} present]
    | false =>
      rw [changed, if_neg Bool.false_ne_true] at mergedGeometry
      rw [get_of_getElem?_none mergedGeometry, geometry, Reshape.geometry_of_untouched changed]
  · cases moved : r.moved with
    | true =>
      rw [moved, if_pos rfl] at mergedPosition
      have present : "x" ∈ r.position frame := Std.ExtTreeMap.mem_iff_isSome_getElem?.mpr
        (by rw [Reshape.getElem?_position_x, Option.isSome_some])
      refine ⟨r.position frame, by rw [get_of_getElem?_or mergedPosition, recordOr_record _ present], ?_, ?_⟩
      · rw [getOr, Reshape.getElem?_position_x, Option.getD_some]
      · rw [getOr, Reshape.getElem?_position_y, Option.getD_some]
    | false =>
      rw [moved, if_neg Bool.false_ne_true] at mergedPosition
      have same : geometryPosition (r.geometry w h frame) = geometryPosition frame.geometry := by
        rw [geometryPosition, geometryPosition, getOr, getOr, Reshape.getElem?_geometry_x, Reshape.getElem?_geometry_y,
          if_neg (by rw [moved]; decide), if_neg (by rw [moved]; decide)]
        rfl
      rw [Reshape.moved, Bool.or_eq_false_iff, Option.isSome_eq_false_iff, Option.isNone_iff_eq_none,
        Option.isSome_eq_false_iff, Option.isNone_iff_eq_none] at moved
      exact ⟨frame.position, by rw [get_of_getElem?_none mergedPosition, same, position], by rw [moved.1]; rfl,
        by rw [moved.2]; rfl⟩

/-- Nothing but the size is read as the size, which a merged change of sides has. -/
theorem size_of_merged {default : Dict Json} {size : Dict Json} (unresized : r.resized = false →
      recordOr default (existing.get "size") = some size)
    (mergedSize : merged.fields["size"]? =
      (if r.resized then some (record (r.size w h frame)) else none).or existing.fields["size"]?) :
    recordOr default (merged.get "size") = some (if r.resized then r.size w h frame else size) := by
  cases resized : r.resized with
  | true =>
    rw [resized, if_pos rfl] at mergedSize
    have present : "w" ∈ r.size w h frame := Std.ExtTreeMap.mem_iff_isSome_getElem?.mpr
      (by rw [Reshape.getElem?_size_w, Option.isSome_some])
    rw [get_of_getElem?_or mergedSize, recordOr_record _ present, if_pos rfl]
  | false =>
    rw [resized, if_neg Bool.false_ne_true] at mergedSize
    rw [get_of_getElem?_none mergedSize, unresized resized, if_neg Bool.false_ne_true]

end Place

section Note

/-- What a note shows after an edit: what was given, and all else as before but for the stamps of
the write. -/
def NoteView.edited (args : NoteUpdate) (version stamp : ℕ) (view : NoteView) : NoteView :=
  { view with
    text := (args.text.map .str).getD view.text
    x := (given args.x).getD view.x
    y := (given args.y).getD view.y
    w := (given args.w).getD view.w
    h := (given args.h).getD view.h
    color := (args.color.map .str).getD view.color
    fontSize := (given args.fontSize).getD view.fontSize
    rotation := (given args.rotation).getD view.rotation
    z := (given args.z).getD view.z
    locked := args.locked.getD view.locked
    version := version
    updatedAt := some stamp }

/-- The geometry of an annotation, as far as it is a dict. -/
def geometryOf (a : Annotation) : Dict Json := (recordOr {} (a.get "geometry")).getD {}

/-- A note that has no size of its own keeps the side that an edit does not name only if its
geometry does not say otherwise than the default. -/
def KeepsNote (args : NoteUpdate) (existing : Annotation) : Prop :=
  (existing.get "size").truthy = true ∨
    (args.w.isSome = true → args.h = none → getOr (geometryOf existing) "h" defaultNoteH = defaultNoteH) ∧
    (args.h.isSome = true → args.w = none → getOr (geometryOf existing) "w" defaultNoteW = defaultNoteW)

variable {b : Builtins} {existing merged : Annotation} {args : NoteUpdate} {patch : Dict Json} {stamp : ℕ}
variable {w h : Json} {size start : Dict Json}

/-- The entries of the patch of a note. -/
theorem buildNotePatch_entries (built : buildNotePatch b existing args = some patch) :
    ∃ frame, noteFrame b existing = some frame ∧
      patch["id"]? = some (existing.get "id") ∧
      patch["text"]? = args.text.map .str ∧ patch["color"]? = args.color.map .str ∧
      patch["fontSize"]? = given args.fontSize ∧ patch["z"]? = given args.z ∧ patch["locked"]? = args.locked.map .bool ∧
      patch["geometry"]? = (if args.reshape.touched then
        some (record (args.reshape.geometry defaultNoteW defaultNoteH frame)) else none) ∧
      patch["size"]? = (if args.reshape.resized then
        some (record (args.reshape.size defaultNoteW defaultNoteH frame)) else none) ∧
      patch["position"]? = (if args.reshape.moved then some (record (args.reshape.position frame)) else none) ∧
      patch["created_at"]? = none ∧ patch["created_by"]? = none ∧ patch["updated_by"]? = none := by
  simp only [buildNotePatch, Option.bind_eq_bind, Option.bind_eq_some_iff] at built
  obtain ⟨style, -, frame, framed, same⟩ := built
  obtain rfl := Option.some.inj same
  have head : ∀ {key value}, (key, value) ∈ [("id", existing.get "id"), ("type", Json.str "note"), ("kind", Json.str "note")] →
      (Dict.of [("id", existing.get "id"), ("type", Json.str "note"), ("kind", Json.str "note")])[key]? = some value :=
    fun member => Dict.getElem?_of (by simp) member
  have rest : ∀ {key}, key ∉ ["id", "type", "kind"] →
      (Dict.of [("id", existing.get "id"), ("type", Json.str "note"), ("kind", Json.str "note")])[key]? = none :=
    fun absent => Dict.getElem?_of_eq_none absent
  refine ⟨frame, framed, ?_, ?_, ?_, ?_, ?_, ?_, ?_, ?_, ?_, ?_, ?_, ?_⟩
  case refine_1 => simp [getElem?_put, Reshape.getElem?_patch_other, head]
  all_goals
    simp [getElem?_put, Reshape.getElem?_patch_other, Reshape.getElem?_patch_geometry, Reshape.getElem?_patch_size,
      Reshape.getElem?_patch_position, rest]

theorem noteFrame_of_reads (b : Builtins) {geometry position size : Dict Json}
    (readGeometry : recordOr {} (existing.get "geometry") = some geometry)
    (readPosition : recordOr (geometryPosition geometry) (existing.get "position") = some position)
    (readSize : recordOr (pair "w" "h" defaultNoteW defaultNoteH) (existing.get "size") = some size) :
    noteFrame b existing = some ⟨geometry, size, position⟩ := by
  simp only [noteFrame, Option.bind_eq_bind, dictOr_of_recordOr b readGeometry, dictOr_of_recordOr b readSize,
    dictOr_of_recordOr b readPosition, Option.bind_some, Option.pure_def]

theorem get_merged (merge : MergedFrom existing patch stamp merged) {key : String} {value : Option Json}
    (outside : key ∉ ["type", "kind", "version", "field_versions", "updated_at"]) (entry : patch[key]? = value) :
    merged.get key = value.getD (existing.get key) := by
  have same := merge.fields key outside
  rw [entry] at same
  rw [ Annotation.get, Annotation.get, Dict.get, Dict.get, same]
  cases value <;> rfl

theorem getOr_merged (merge : MergedFrom existing patch stamp merged) {key : String} {value : Option Json}
    (outside : key ∉ ["type", "kind", "version", "field_versions", "updated_at"]) (entry : patch[key]? = value)
    (default : Json) : getOr merged.fields key default = value.getD (getOr existing.fields key default) := by
  have same := merge.fields key outside
  rw [entry] at same
  rw [getOr, getOr, same]
  cases value <;> rfl

/-- The sizes that a patch starts from and that are shown differ in a note without a size only. -/
theorem noteSizes (readSize : recordOr (pair "w" "h" w h) (existing.get "size") = some size)
    (framed : recordOr (pair "w" "h" defaultNoteW defaultNoteH) (existing.get "size") = some start) :
    (existing.get "size").truthy = true ∧ start = size ∨ (existing.get "size").truthy = false ∧
      (∀ default, getOr size "w" default = w) ∧ (∀ default, getOr size "h" default = h) ∧
      (∀ default, getOr start "w" default = defaultNoteW) ∧ ∀ default, getOr start "h" default = defaultNoteH := by
  rcases recordOr_cases _ readSize (pair "w" "h" defaultNoteW defaultNoteH) with ⟨true, read⟩ | ⟨false, rfl, read⟩
  · exact .inl ⟨true, Option.some.inj (framed.symm.trans read)⟩
  · obtain rfl := Option.some.inj (framed.symm.trans read)
    exact .inr ⟨false, by simp, by simp, by simp, by simp⟩

/-- An edit of a note shows what was given and keeps the rest exactly when it keeps the size. -/
theorem note_exact_iff {view : NoteView} (before : projectNote existing = some view)
    (built : buildNotePatch b existing args = some patch) (merge : MergedFrom existing patch stamp merged) :
    projectNote merged = some (view.edited args (existing.priorVersion + 1) stamp) ↔ KeepsNote args existing := by
  simp only [projectNote, Option.bind_eq_bind, Option.bind_eq_some_iff] at before
  obtain ⟨geometry, readGeometry, position, readPosition, size, readSize, same⟩ := before
  obtain rfl := Option.some.inj same
  obtain ⟨frame, framed, id, text, color, fontSize, z, locked, patchGeometry, patchSize, patchPosition, createdAt, createdBy,
    updatedBy⟩ := buildNotePatch_entries built
  obtain ⟨start, readStart⟩ : ∃ start, recordOr (pair "w" "h" defaultNoteW defaultNoteH) (existing.get "size") = some start := by
    rcases recordOr_cases _ readSize (pair "w" "h" defaultNoteW defaultNoteH) with ⟨-, read⟩ | ⟨-, -, read⟩ <;>
      exact ⟨_, read⟩
  obtain rfl : frame = ⟨geometry, start, position⟩ :=
    Option.some.inj (framed.symm.trans (noteFrame_of_reads b readGeometry readPosition readStart))
  have mergedGeometry := merge.fields "geometry" (by decide)
  have mergedPosition := merge.fields "position" (by decide)
  have mergedSize := merge.fields "size" (by decide)
  rw [patchGeometry] at mergedGeometry
  rw [patchPosition] at mergedPosition
  rw [patchSize] at mergedSize
  obtain ⟨readGeometry', position', readPosition', x', y'⟩ :=
    place_of_merged readGeometry readPosition mergedGeometry mergedPosition
  change _ = (given args.x).getD (getOr position "x" (.num 0)) at x'
  change _ = (given args.y).getD (getOr position "y" (.num 0)) at y'
  have readSize' : recordOr (pair "w" "h"
        (getOr (args.reshape.geometry defaultNoteW defaultNoteH ⟨geometry, start, position⟩) "w" defaultNoteW)
        (getOr (args.reshape.geometry defaultNoteW defaultNoteH ⟨geometry, start, position⟩) "h" defaultNoteH))
      (merged.get "size") = some (if args.reshape.resized then
        args.reshape.size defaultNoteW defaultNoteH ⟨geometry, start, position⟩ else size) := by
    refine size_of_merged (fun unresized => ?_) mergedSize
    rw [getOr, getOr, Reshape.getElem?_geometry_w, Reshape.getElem?_geometry_h, unresized, if_neg Bool.false_ne_true,
      if_neg Bool.false_ne_true]
    exact readSize
  have text' : ((args.text.map Json.str).getD (existing.get "text")).orElse (.str "") =
      (args.text.map .str).getD ((existing.get "text").orElse (.str "")) := by
    cases args.text with
    | none => rfl
    | some text =>
      rw [Option.map_some, Option.getD_some, Option.getD_some, Json.orElse]
      split
      · rfl
      · rename_i blank
        rw [Json.truthy, decide_eq_true_iff, not_not] at blank
        rw [blank]
  have rotation' : getOr (args.reshape.geometry defaultNoteW defaultNoteH ⟨geometry, start, position⟩) "rotation" (.num 0) =
      (given args.rotation).getD (getOr geometry "rotation" (.num 0)) := by
    rw [getOr, Reshape.getElem?_geometry_rotation, NoteUpdate.reshape]
    cases args.rotation <;> rfl
  have locked' : ((args.locked.map Json.bool).getD (getOr existing.fields "locked" (.bool false))).truthy =
      args.locked.getD (getOr existing.fields "locked" (.bool false)).truthy := by
    cases args.locked <;> rfl
  simp only [projectNote, Option.bind_eq_bind, readGeometry', readPosition', readSize', Option.bind_some, Option.pure_def,
    NoteView.edited, Option.some.injEq, NoteView.mk.injEq, x', y', get_merged merge (by decide) id,
    get_merged merge (by decide) color, get_merged merge (by decide) fontSize, getOr_merged merge (by decide) z,
    getOr_merged merge (by decide) locked, get_merged merge (by decide) text, get_merged merge (by decide) createdAt,
    get_merged merge (by decide) createdBy, get_merged merge (by decide) updatedBy, merge.version, merge.updatedAt,
    Option.getD_some, Option.getD_none, Annotation.versionOrInitial, text', rotation', locked', true_and, and_true]
  rw [getOr_size_w, getOr_size_h]
  refine (and_congr (side_iff args.reshape.resized_of_w) (side_iff args.reshape.resized_of_h)).trans ?_
  rw [Reshape.resized_and_w, Reshape.resized_and_h, KeepsNote, geometryOf, readGeometry, Option.getD_some]
  rcases noteSizes readSize readStart with ⟨true, rfl⟩ | ⟨false, shownW, shownH, startW, startH⟩
  · exact iff_of_true ⟨fun _ => rfl, fun _ => rfl⟩ (.inl true)
  · rw [false, shownW, shownH, startW, startH, or_iff_right Bool.false_ne_true, and_comm]
    exact and_congr ⟨fun keeps w h => (keeps ⟨w, h⟩).symm, fun keeps both => (keeps both.1 both.2).symm⟩
      ⟨fun keeps h w => (keeps ⟨h, w⟩).symm, fun keeps both => (keeps both.1 both.2).symm⟩

end Note

section Generic

variable {b : Builtins} {existing merged : Annotation} {args : AnnotationUpdate} {patch target d : Dict Json} {stamp : ℕ}

theorem applyContent_ok {annType : Option String} {content : Option (Dict Json)}
    (applied : applyContent b annType content target = .ok d) :
    (∀ key ∈ reservedAnnotationKeys, key ∉ content.getD {}) ∧
      ∀ key : String, d[key]? = ((content.getD {})[key]?).or target[key]? := by
  cases content with
  | none =>
    obtain rfl := Except.ok.inj applied
    exact ⟨fun key _ member => by simp at member, fun key => by simp⟩
  | some content =>
    rw [applyContent] at applied
    split at applied
    · cases applied
    · rename_i free
      split at applied
      · cases applied
      · obtain rfl := Except.ok.inj applied
        refine ⟨fun key reserved member => ?_, fun key => by rw [Std.ExtTreeMap.getElem?_union, Option.getD_some]⟩
        have listed : key ∈ (reservedAnnotationKeys.filter (· ∈ content)).insertionSort (· ≤ ·) := by
          rw [List.mem_insertionSort, List.mem_filter, decide_eq_true_iff]
          exact ⟨reserved, member⟩
        rw [not_not.mp free] at listed
        cases listed

/-- The coordinates that a line or a stroke has besides its place. -/
def ownCoordinates : Option String → List String
  | some "line" => ["from", "to"]
  | some "freehand" => ["points"]
  | _ => []

/-- What an offset makes of a coordinate field; a field without a point stays. -/
def slid (existing : Annotation) (offset : ℚ × ℚ) (key : String) : Option Json :=
  if offset = (0, 0) then none
  else if key = "from" ∨ key = "to" then translatePoint offset.1 offset.2 (existing.get key)
  else if key = "points" then translatedPoints offset.1 offset.2 (existing.get key)
  else none

/-- What a patch does to a coordinate field. -/
def slides (existing : Annotation) (args : AnnotationUpdate) (frame : Frame) (key : String) : Option Json :=
  if args.reshape.moved then (args.reshape.offset frame).bind fun offset => slid existing offset key else none

theorem getElem?_slide {frame : Frame} (moved : args.reshape.slide existing frame d = some target) {key : String}
    (absent : d[key]? = none) : target[key]? = slides existing args frame key := by
  rw [Reshape.slide] at moved
  rw [slides]
  split at moved
  · rename_i asked
    rw [if_pos asked]
    obtain ⟨offset, found, rfl⟩ := Option.map_eq_some_iff.mp moved
    rw [found, Option.bind_some, slid]
    split
    · exact absent
    · simp only [translateFreehandPoints, translateLineEndpoints, getElem?_put, absent, Option.or_none]
      by_cases isFrom : key = "from"
      · subst isFrom
        simp [ Annotation.get]
      by_cases isTo : key = "to"
      · subst isTo
        simp [ Annotation.get]
      by_cases isPoints : key = "points"
      · subst isPoints
        simp [ Annotation.get]
      · simp only [Ne.symm isFrom, Ne.symm isTo, Ne.symm isPoints, isFrom, isTo, isPoints, or_self, if_false]
  · rename_i asked
    rw [if_neg asked, ← Option.some.inj moved, absent]

/-- A field that is no coordinate is left alone. -/
theorem getElem?_slide_of_ne {frame : Frame} (moved : args.reshape.slide existing frame d = some target) {key : String}
    (other : key ∉ ["from", "to", "points"]) : target[key]? = d[key]? := by
  simp only [List.mem_cons, List.not_mem_nil, or_false, not_or] at other
  rw [Reshape.slide] at moved
  split at moved
  · obtain ⟨offset, -, rfl⟩ := Option.map_eq_some_iff.mp moved
    split
    · rfl
    · simp only [translateFreehandPoints, translateLineEndpoints, getElem?_put, Ne.symm other.1, Ne.symm other.2.1,
        Ne.symm other.2.2, if_false]
  · rw [← Option.some.inj moved]

/-- The entries of the patch of a generic annotation. -/
theorem buildAnnotationPatch_entries (built : buildAnnotationPatch b existing args = .ok patch) :
    ∃ frame, annotationFrame b existing = some frame ∧
      (∀ key ∈ reservedAnnotationKeys, key ∉ args.content.getD {}) ∧
      patch["id"]? = some (existing.get "id") ∧
      patch["style"]? = args.style.map record ∧ patch["z"]? = given args.z ∧ patch["locked"]? = args.locked.map .bool ∧
      patch["geometry"]? = (if args.reshape.touched then
        some (record (args.reshape.geometry (.num 0) (.num 0) frame)) else none) ∧
      patch["size"]? = (if args.reshape.resized then some (record (args.reshape.size (.num 0) (.num 0) frame)) else none) ∧
      patch["position"]? = (if args.reshape.moved then some (record (args.reshape.position frame)) else none) ∧
      patch["created_at"]? = none ∧ patch["created_by"]? = none ∧ patch["updated_by"]? = none ∧
      ∀ key ∉ reservedAnnotationKeys, patch[key]? = ((args.content.getD {})[key]?).or (slides existing args frame key) := by
  rw [buildAnnotationPatch] at built
  split at built
  · cases built
  rename_i frame framed
  split at built
  · cases built
  rename_i moved slid
  obtain ⟨free, entries⟩ := applyContent_ok built
  have plain : ∀ key ∈ reservedAnnotationKeys, (args.content.getD {})[key]? = none := fun key reserved =>
    Std.ExtTreeMap.getElem?_eq_none (free key reserved)
  have head : moved["id"]? = some (existing.get "id") := by
    rw [getElem?_slide_of_ne slid (by decide)]
    exact Dict.getElem?_of (by simp) List.mem_cons_self
  have rest : ∀ {key}, key ∉ ["id", "type", "kind", "from", "to", "points"] → moved[key]? = none := by
    intro key outside
    simp only [List.mem_cons, List.not_mem_nil, or_false, not_or] at outside
    rw [getElem?_slide_of_ne slid (by simp [outside])]
    exact Dict.getElem?_of_eq_none (by simp [outside])
  refine ⟨frame, framed, free, ?_, ?_, ?_, ?_, ?_, ?_, ?_, ?_, ?_, ?_, fun key outside => ?_⟩
  case refine_11 =>
    have absent : key ∉ ["id", "type", "kind"] := fun member => outside (by
      simp only [List.mem_cons, List.not_mem_nil, or_false] at member
      rcases member with rfl | rfl | rfl <;> decide)
    simp only [reservedAnnotationKeys, List.mem_cons, List.not_mem_nil, or_false, not_or] at outside
    rw [entries, getElem?_put_of_ne (by simp [Ne.symm, outside]), getElem?_put_of_ne (by simp [Ne.symm, outside]),
      getElem?_put_of_ne (by simp [Ne.symm, outside]), Reshape.getElem?_patch_other (by simp [outside]),
      getElem?_slide slid (Dict.getElem?_of_eq_none absent)]
  all_goals
    rw [entries, plain _ (by decide), Option.none_or]
    simp [getElem?_put, Reshape.getElem?_patch_other, Reshape.getElem?_patch_geometry, Reshape.getElem?_patch_size,
      Reshape.getElem?_patch_position, rest, head]

/-- A point that is moved by something is not where it was. -/
theorem translatePoint_ne {offset : ℚ × ℚ} (moves : offset ≠ (0, 0)) (value : Json) :
    translatePoint offset.1 offset.2 value ≠ some value := by
  intro same
  cases value with
  | obj entries =>
    rw [translatePoint] at same
    split at same
    · rename_i x y atX atY
      have entriesSame : entries = (((Dict.of entries).insert "x" (.num (x + offset.1))).insert "y"
          (.num (y + offset.2))).toList := (Json.obj.inj (Option.some.inj same)).symm
      have whole : Dict.of entries = ((Dict.of entries).insert "x" (.num (x + offset.1))).insert "y"
          (.num (y + offset.2)) := by
        conv_lhs => rw [entriesSame]
        exact Dict.of_toList _
      have shiftedX : (Dict.of entries).get "x" = .num (x + offset.1) := by
        rw [whole, Dict.get_insert, if_neg (by decide), Dict.get_insert, if_pos rfl]
      have shiftedY : (Dict.of entries).get "y" = .num (y + offset.2) := by
        rw [whole, Dict.get_insert, if_pos rfl]
      rw [shiftedX] at atX
      rw [shiftedY] at atY
      have stillX : x + offset.1 = x := Option.some.inj atX
      have stillY : y + offset.2 = y := Option.some.inj atY
      exact moves (Prod.ext (by simpa using stillX) (by simpa using stillY))
    · cases same
  | null | bool | num | str | arr => cases same

theorem translatedPoints_ne {offset : ℚ × ℚ} (moves : offset ≠ (0, 0)) (value : Json) :
    translatedPoints offset.1 offset.2 value ≠ some value := by
  intro same
  cases value with
  | arr points =>
    rw [translatedPoints] at same
    split at same
    · rename_i pointed
      obtain ⟨point, member, translated⟩ := List.any_eq_true.mp pointed
      obtain ⟨moved, found⟩ := Option.isSome_iff_exists.mp translated
      have kept : points.map (fun point => (translatePoint offset.1 offset.2 point).getD point) = points.map id :=
        (Json.arr.inj (Option.some.inj same)).trans (List.map_id points).symm
      have still : (translatePoint offset.1 offset.2 point).getD point = point := List.map_inj_left.mp kept point member
      rw [found, Option.getD_some] at still
      exact translatePoint_ne moves point (still ▸ found)
    · cases same
  | null | bool | num | str | obj => cases same

/-- What a coordinate field becomes is never what it was. -/
theorem slides_ne {frame : Frame} {key : String} {value : Json} (moved : slides existing args frame key = some value) :
    existing.fields[key]? ≠ some value := by
  intro stored
  have held : existing.get key = value := Dict.get_eq_of_getElem? stored
  rw [slides] at moved
  split at moved
  · obtain ⟨offset, -, slid'⟩ := Option.bind_eq_some_iff.mp moved
    rw [slid, held] at slid'
    split at slid'
    · cases slid'
    · rename_i moves
      split at slid'
      · exact translatePoint_ne moves value slid'
      · split at slid'
        · exact translatedPoints_ne moves value slid'
        · cases slid'
  · cases moved

/-- What an annotation shows after an edit besides its content. -/
def Envelope.edited (args : AnnotationUpdate) (version stamp : ℕ) (view : Envelope) : Envelope :=
  { view with
    x := (given args.x).getD view.x
    y := (given args.y).getD view.y
    w := (given args.w).getD view.w
    h := (given args.h).getD view.h
    rotation := (given args.rotation).getD view.rotation
    style := (args.style.map record).getD view.style
    z := (given args.z).getD view.z
    locked := args.locked.getD view.locked
    version := version
    updatedAt := some stamp }

/-- An exact edit: the content keys that were given are replaced and all others kept, the coordinates
of a moved line or stroke aside. -/
structure AnnotationView.Edited (args : AnnotationUpdate) (version stamp : ℕ) (before after : AnnotationView) : Prop where
  envelope : after.toEnvelope = before.toEnvelope.edited args version stamp
  replaced : ∀ (key : String) value, (args.content.getD {})[key]? = some value → after.content[key]? = some value
  kept : ∀ key : String, (args.content.getD {})[key]? = none →
    ¬ (args.reshape.moved = true ∧ key ∈ ownCoordinates before.type) → after.content[key]? = before.content[key]?

/-- The size of an annotation, as far as it is a dict. -/
def sizeOf (a : Annotation) : Dict Json := (recordOr {} (a.get "size")).getD {}

/-- A resized annotation keeps the side that is not named if both copies of its size agree on it. A
moved one keeps its content if it has no point under a coordinate field of another type. -/
structure KeepsAnnotation (b : Builtins) (args : AnnotationUpdate) (existing : Annotation) : Prop where
  width : (existing.get "size").truthy = true → args.h.isSome = true → args.w = none →
    getOr (sizeOf existing) "w" (.num 0) = getOr (geometryOf existing) "w" (getOr (sizeOf existing) "w" (.num 0))
  height : (existing.get "size").truthy = true → args.w.isSome = true → args.h = none →
    getOr (sizeOf existing) "h" (.num 0) = getOr (geometryOf existing) "h" (getOr (sizeOf existing) "h" (.num 0))
  coordinates : ∀ frame, annotationFrame b existing = some frame → ∀ key ∈ ["from", "to", "points"],
    key ∉ ownCoordinates (annotationTypeOf existing.fields) → (args.content.getD {})[key]? = none →
      slides existing args frame key = none

theorem getElem?_content (a : Annotation) (key : String) :
    (a.fields.filter fun key _ => key ∉ reservedAnnotationKeys)[key]? =
      if key ∈ reservedAnnotationKeys then none else a.fields[key]? := by
  rw [Std.ExtTreeMap.getElem?_filter']
  cases a.fields[key]? with
  | none => rw [Option.filter_none, ite_self]
  | some value =>
    rw [Option.filter_some]
    by_cases reserved : key ∈ reservedAnnotationKeys <;> simp [reserved]

theorem annotationFrame_of_reads (b : Builtins) {geometry position size : Dict Json}
    (readGeometry : recordOr {} (existing.get "geometry") = some geometry)
    (readPosition : recordOr (geometryPosition geometry) (existing.get "position") = some position)
    (readSize : recordOr (pair "w" "h" (getOr geometry "w" (.num 0)) (getOr geometry "h" (.num 0))) (existing.get "size") =
      some size) : annotationFrame b existing = some ⟨geometry, size, position⟩ := by
  simp only [annotationFrame, Option.bind_eq_bind, dictOr_of_recordOr b readGeometry, dictOr_of_recordOr b readSize,
    dictOr_of_recordOr b readPosition, Option.bind_some, Option.pure_def]

/-- The sides that a patch starts from and that are shown differ only where the annotation has a size. -/
theorem annotationSizes {geometry size start : Dict Json} (readSize : recordOr {} (existing.get "size") = some size)
    (framed : recordOr (pair "w" "h" (getOr geometry "w" (.num 0)) (getOr geometry "h" (.num 0))) (existing.get "size") =
      some start) :
    (existing.get "size").truthy = true ∧ start = size ∨ (existing.get "size").truthy = false ∧
      getOr start "w" (.num 0) = getOr geometry "w" (getOr size "w" (.num 0)) ∧
      getOr start "h" (.num 0) = getOr geometry "h" (getOr size "h" (.num 0)) := by
  rcases recordOr_cases _ readSize (pair "w" "h" (getOr geometry "w" (.num 0)) (getOr geometry "h" (.num 0))) with
    ⟨true, read⟩ | ⟨false, rfl, read⟩
  · exact .inl ⟨true, Option.some.inj (framed.symm.trans read)⟩
  · obtain rfl := Option.some.inj (framed.symm.trans read)
    refine .inr ⟨false, ?_, ?_⟩
    · rw [getOr_pair_fst "w" "h" (by decide)]
      rfl
    · rw [getOr_pair_snd "w" "h" (by decide)]
      rfl

/-- The content that is kept is the content that no offset changes. -/
theorem content_kept_iff (merge : MergedFrom existing patch stamp merged) {frame : Frame}
    (others : ∀ key ∉ reservedAnnotationKeys, patch[key]? = ((args.content.getD {})[key]?).or (slides existing args frame key)) :
    (∀ key : String, (args.content.getD {})[key]? = none →
      ¬ (args.reshape.moved = true ∧ key ∈ ownCoordinates (annotationTypeOf existing.fields)) →
        (merged.fields.filter fun key _ => key ∉ reservedAnnotationKeys)[key]? =
          (existing.fields.filter fun key _ => key ∉ reservedAnnotationKeys)[key]?) ↔
      ∀ key ∈ ["from", "to", "points"], key ∉ ownCoordinates (annotationTypeOf existing.fields) →
        (args.content.getD {})[key]? = none → slides existing args frame key = none := by
  have becomes : ∀ key ∉ reservedAnnotationKeys, (args.content.getD {})[key]? = none →
      merged.fields[key]? = (slides existing args frame key).or existing.fields[key]? := by
    intro key free absent
    have outside : key ∉ ["type", "kind", "version", "field_versions", "updated_at"] := by
      intro member
      simp only [List.mem_cons, List.not_mem_nil, or_false] at member
      rcases member with rfl | rfl | rfl | rfl | rfl <;> exact free (by decide)
    rw [merge.fields key outside, others key free, absent, Option.none_or]
  constructor
  · intro kept key member foreign absent
    have free : key ∉ reservedAnnotationKeys := by
      simp only [List.mem_cons, List.not_mem_nil, or_false] at member
      rcases member with rfl | rfl | rfl <;> decide
    have same := kept key absent fun both => foreign both.2
    rw [getElem?_content, getElem?_content, if_neg free, if_neg free, becomes key free absent] at same
    cases moved : slides existing args frame key with
    | none => rfl
    | some value =>
      rw [moved, Option.some_or] at same
      exact absurd same.symm (slides_ne moved)
  · intro still key absent outside
    rw [getElem?_content, getElem?_content]
    by_cases free : key ∈ reservedAnnotationKeys
    · rw [if_pos free, if_pos free]
    rw [if_neg free, if_neg free, becomes key free absent]
    suffices none : slides existing args frame key = none by rw [none, Option.none_or]
    by_cases moved : args.reshape.moved = true
    · by_cases coordinate : key ∈ ["from", "to", "points"]
      · exact still key coordinate (fun own => outside ⟨moved, own⟩) absent
      · simp only [List.mem_cons, List.not_mem_nil, or_false, not_or] at coordinate
        rw [slides, if_pos moved]
        cases args.reshape.offset frame with
        | none => rfl
        | some offset =>
          rw [Option.bind_some, slid, if_neg (not_or.mpr ⟨coordinate.1, coordinate.2.1⟩), if_neg coordinate.2.2, ite_self]
    · rw [slides, if_neg moved]

theorem content_replaced (merge : MergedFrom existing patch stamp merged) {frame : Frame}
    (free : ∀ key ∈ reservedAnnotationKeys, key ∉ args.content.getD {})
    (others : ∀ key ∉ reservedAnnotationKeys, patch[key]? = ((args.content.getD {})[key]?).or (slides existing args frame key))
    {key : String} {value : Json} (supplied : (args.content.getD {})[key]? = some value) :
    (merged.fields.filter fun key _ => key ∉ reservedAnnotationKeys)[key]? = some value := by
  have plain : key ∉ reservedAnnotationKeys := fun reserved => free key reserved
    (Std.ExtTreeMap.mem_iff_isSome_getElem?.mpr (by rw [supplied, Option.isSome_some]))
  have outside : key ∉ ["type", "kind", "version", "field_versions", "updated_at"] := by
    intro member
    simp only [List.mem_cons, List.not_mem_nil, or_false] at member
    rcases member with rfl | rfl | rfl | rfl | rfl <;> exact plain (by decide)
  rw [getElem?_content, if_neg plain, merge.fields key outside, others key plain, supplied]
  rfl

/-- An edit of a generic annotation is exact precisely when it keeps the size and the content. -/
theorem annotation_exact_iff {before : AnnotationView} (shown : projectAnnotation existing = some before)
    (built : buildAnnotationPatch b existing args = .ok patch) (merge : MergedFrom existing patch stamp merged) :
    (∃ after, projectAnnotation merged = some after ∧
      before.Edited args (existing.priorVersion + 1) stamp after) ↔ KeepsAnnotation b args existing := by
  simp only [ projectAnnotation, Option.bind_eq_bind, Option.bind_eq_some_iff] at shown
  obtain ⟨geometry, readGeometry, position, readPosition, size, readSize, same⟩ := shown
  obtain rfl := Option.some.inj same
  obtain ⟨frame, framed, free, id, style, z, locked, patchGeometry, patchSize, patchPosition, createdAt, createdBy, updatedBy,
    others⟩ := buildAnnotationPatch_entries built
  obtain ⟨start, readStart⟩ : ∃ start, recordOr (pair "w" "h" (getOr geometry "w" (.num 0)) (getOr geometry "h" (.num 0)))
      (existing.get "size") = some start := by
    rcases recordOr_cases _ readSize (pair "w" "h" (getOr geometry "w" (.num 0)) (getOr geometry "h" (.num 0))) with
      ⟨-, read⟩ | ⟨-, -, read⟩ <;> exact ⟨_, read⟩
  obtain rfl : frame = ⟨geometry, start, position⟩ :=
    Option.some.inj (framed.symm.trans (annotationFrame_of_reads b readGeometry readPosition readStart))
  have mergedGeometry := merge.fields "geometry" (by decide)
  have mergedPosition := merge.fields "position" (by decide)
  have mergedSize := merge.fields "size" (by decide)
  rw [patchGeometry] at mergedGeometry
  rw [patchPosition] at mergedPosition
  rw [patchSize] at mergedSize
  obtain ⟨readGeometry', position', readPosition', x', y'⟩ :=
    place_of_merged readGeometry readPosition mergedGeometry mergedPosition
  change _ = (given args.x).getD (getOr position "x" (.num 0)) at x'
  change _ = (given args.y).getD (getOr position "y" (.num 0)) at y'
  have readSize' : recordOr {} (merged.get "size") = some (if args.reshape.resized then
      args.reshape.size (.num 0) (.num 0) ⟨geometry, start, position⟩ else size) :=
    size_of_merged (fun _ => readSize) mergedSize
  have rotation' : getOr (args.reshape.geometry (.num 0) (.num 0) ⟨geometry, start, position⟩) "rotation" (.num 0) =
      (given args.rotation).getD (getOr geometry "rotation" (.num 0)) := by
    rw [getOr, Reshape.getElem?_geometry_rotation, AnnotationUpdate.reshape]
    cases args.rotation <;> rfl
  have locked' : ((args.locked.map Json.bool).getD (getOr existing.fields "locked" (.bool false))).truthy =
      args.locked.getD (getOr existing.fields "locked" (.bool false)).truthy := by
    cases args.locked <;> rfl
  have style' : ((args.style.map record).getD (existing.get "style")).orElse (.obj []) =
      (args.style.map record).getD ((existing.get "style").orElse (.obj [])) := by
    cases args.style with
    | none => rfl
    | some style => exact record_orElse style
  have view' := Eq.refl ( projectAnnotation merged)
  conv_rhs at view' => rw [ projectAnnotation]
  simp only [Option.bind_eq_bind, readGeometry', readPosition', readSize', Option.bind_some, Option.pure_def, x', y',
    get_merged merge (by decide) id, get_merged merge (by decide) style, getOr_merged merge (by decide) z,
    getOr_merged merge (by decide) locked, get_merged merge (by decide) createdAt, get_merged merge (by decide) createdBy,
    get_merged merge (by decide) updatedBy, merge.version, merge.type, merge.updatedAt, Option.getD_some, Option.getD_none,
    Annotation.versionOrInitial, rotation', locked', style'] at view'
  rw [view']
  simp only [Option.some.injEq, exists_eq_left']
  have kept := content_kept_iff merge others
  have width := (@side_iff _ _ (getOr start "w" (.num 0)) (getOr geometry "w" (getOr size "w" (.num 0)))
    args.reshape.resized_of_w).trans (imp_congr_left args.reshape.resized_and_w)
  have height := (@side_iff _ _ (getOr start "h" (.num 0)) (getOr geometry "h" (getOr size "h" (.num 0)))
    args.reshape.resized_of_h).trans (imp_congr_left args.reshape.resized_and_h)
  have sizes := annotationSizes readSize readStart
  have isGeometry : geometryOf existing = geometry := by rw [geometryOf, readGeometry, Option.getD_some]
  have isSize : sizeOf existing = size := by rw [sizeOf, readSize, Option.getD_some]
  constructor
  · intro edited
    have sameW := congrArg Envelope.w edited.envelope
    have sameH := congrArg Envelope.h edited.envelope
    dsimp only [Envelope.edited] at sameW sameH
    rw [getOr_geometry_w] at sameW
    rw [getOr_geometry_h] at sameH
    refine ⟨fun true named absent => ?_, fun true named absent => ?_, fun frame' framed' => ?_⟩
    · rw [isSize, isGeometry, ← width.mp sameW ⟨named, absent⟩]
      rcases sizes with ⟨-, rfl⟩ | ⟨false, -⟩
      · rfl
      · cases true.symm.trans false
    · rw [isSize, isGeometry, ← height.mp sameH ⟨named, absent⟩]
      rcases sizes with ⟨-, rfl⟩ | ⟨false, -⟩
      · rfl
      · cases true.symm.trans false
    · obtain rfl := Option.some.inj (framed.symm.trans framed')
      exact kept.mp edited.kept
  · intro keeps
    refine ⟨?_, fun key value supplied => content_replaced merge free others supplied, kept.mpr (keeps.coordinates _ framed)⟩
    simp only [Envelope.edited, Envelope.mk.injEq, true_and, and_true]
    rw [getOr_geometry_w, getOr_geometry_h]
    refine ⟨width.mpr fun named => ?_, height.mpr fun named => ?_⟩
    · rcases sizes with ⟨true, rfl⟩ | ⟨-, sameW, -⟩
      · have same := keeps.width true named.1 named.2
        rwa [isSize, isGeometry] at same
      · exact sameW
    · rcases sizes with ⟨true, rfl⟩ | ⟨-, -, sameH⟩
      · have same := keeps.height true named.1 named.2
        rwa [isSize, isGeometry] at same
      · exact sameH

end Generic

end MetadataGraph.Annotations
