import MetadataGraph.Session.Content

namespace MetadataGraph

open Runs

/-! ### Position maps -/

theorem forIn_all {α : Type} (p : α → Bool) (l : List α) :
    (Id.run do
      for a in l do
        if p a = false then return false
      return true) = l.all p := by
  induction l with
  | nil => rfl
  | cons a l ih =>
    cases held : p a with
    | false => simp [held]
    | true => simpa [held] using ih

theorem Dict.all_eq {β : Type} (d : Dict β) (p : String → β → Bool) :
    d.all p = d.toList.all fun entry => p entry.1 entry.2 := by
  rw [← forIn_all, ← Std.ExtTreeMap.forIn_eq_forIn_toList]
  obtain ⟨⟨t⟩⟩ := d
  induction t using Quotient.inductionOn with
  | _ t =>
    change Std.DTreeMap.Internal.Impl.all t.inner p = _
    unfold Std.DTreeMap.Internal.Impl.all
    rfl

theorem Dict.all_iff {β : Type} {d : Dict β} {p : String → β → Bool} :
    d.all p = true ↔ ∀ (key : String) (value : β), d[key]? = some value → p key value = true := by
  rw [Dict.all_eq, List.all_eq_true]
  constructor
  · intro all key value atKey
    exact all (key, value) (Std.ExtTreeMap.mem_toList_iff_getElem?_eq_some.mpr atKey)
  · intro all entry member
    exact all entry.1 entry.2 (Std.ExtTreeMap.mem_toList_iff_getElem?_eq_some.mp member)

/-- A position map that is accepted has a position for each of its keys. -/
theorem mem_of_validatePositions {positions : Option (Dict Json)} {normalised : Dict Position}
    (valid : validatePositions positions = .ok normalised) :
    ∃ entries, positions = some entries ∧ ∀ nid, nid ∈ normalised ↔ nid ∈ entries := by
  cases positions with
  | none => cases valid
  | some entries =>
    rw [validatePositions] at valid
    split at valid
    · rename_i all
      cases valid
      refine ⟨entries, rfl, fun nid => ?_⟩
      rw [Std.ExtTreeMap.mem_iff_isSome_getElem?, Std.ExtTreeMap.mem_iff_isSome_getElem?,
        Std.ExtTreeMap.getElem?_filterMap']
      cases atNid : entries[nid]? with
      | none => rfl
      | some value => simpa [atNid] using Dict.all_iff.mp all nid value atNid
    · cases valid

theorem validatePositions_toJson {β : Type} (d : Dict β) (f : String → β → Position) :
    validatePositions (some (d.map fun nid value => (f nid value).toJson)) = .ok (d.map f) := by
  rw [validatePositions, if_pos]
  · congr 1
    apply Std.ExtTreeMap.ext_getElem?
    intro nid
    rw [Std.ExtTreeMap.getElem?_filterMap', Std.ExtTreeMap.getElem?_map, Std.ExtTreeMap.getElem?_map]
    cases d[nid]? <;> rfl
  · refine Dict.all_iff.mpr fun nid value atNid => ?_
    rw [Std.ExtTreeMap.getElem?_map] at atNid
    obtain ⟨held, -, rfl⟩ := Option.map_eq_some_iff.mp atNid
    rfl

/-- Setting entries back to what they were, or to the origin, undoes setting them exactly when
each was there. -/
theorem union_back_iff {d set : Dict Position} :
    (d ∪ set) ∪ (set.map fun nid _ => d[nid]?.getD .origin) = d ↔ ∀ nid ∈ set, nid ∈ d := by
  constructor
  · intro same nid member
    rw [← same]
    exact Std.ExtTreeMap.mem_union_iff.mpr (Or.inl (Std.ExtTreeMap.mem_union_iff.mpr (Or.inr member)))
  · intro present
    apply Std.ExtTreeMap.ext_getElem?
    intro nid
    rw [Std.ExtTreeMap.getElem?_union, Std.ExtTreeMap.getElem?_map, Std.ExtTreeMap.getElem?_union]
    cases atNid : set[nid]? with
    | none => simp
    | some p =>
      have old := present nid (Std.ExtTreeMap.mem_iff_isSome_getElem?.mpr (by rw [atNid]; rfl))
      obtain ⟨q, was⟩ := Option.isSome_iff_exists.mp (Std.ExtTreeMap.mem_iff_isSome_getElem?.mp old)
      simp [was]

theorem insert_back_iff {d : Dict Position} {id : String} {p : Position} :
    (d.insert id p).insert id (d[id]?.getD .origin) = d ↔ id ∈ d := by
  constructor
  · intro same
    rw [← same]
    exact Std.ExtTreeMap.mem_insert_self
  · intro present
    obtain ⟨q, was⟩ := Option.isSome_iff_exists.mp (Std.ExtTreeMap.mem_iff_isSome_getElem?.mp present)
    apply Std.ExtTreeMap.ext_getElem?
    intro nid
    rw [Std.ExtTreeMap.getElem?_insert, Std.ExtTreeMap.getElem?_insert, was, Option.getD_some]
    split
    · rename_i same
      rw [← Std.LawfulEqCmp.compare_eq_iff_eq.mp same, was]
    · rfl

/-! ### Id sets -/

theorem removeAll_added {existing requested : List String} (distinct : existing.Nodup) :
    (removeAll (union existing requested) (sortedSet requested (· ∉ existing))).Perm existing := by
  refine (List.perm_ext_iff_of_nodup (removeAll_nodup (union_nodup distinct requested) _) distinct).mpr fun i => ?_
  simp only [mem_removeAll, mem_union, mem_sortedSet, decide_eq_true_eq, not_and, not_not]
  constructor
  · rintro ⟨old | new, known⟩
    · exact old
    · exact known new
  · exact fun old => ⟨Or.inl old, fun _ => old⟩

theorem union_dropped {existing requested : List String} (distinct : existing.Nodup) :
    (union (removeAll existing requested) (sortedSet requested (· ∈ existing))).Perm existing := by
  refine (List.perm_ext_iff_of_nodup (union_nodup (removeAll_nodup distinct requested) _) distinct).mpr fun i => ?_
  simp only [mem_removeAll, mem_union, mem_sortedSet, decide_eq_true_eq]
  constructor
  · rintro (⟨old, -⟩ | ⟨-, old⟩) <;> exact old
  · intro old
    by_cases asked : i ∈ requested
    · exact Or.inr ⟨asked, old⟩
    · exact Or.inl ⟨old, asked⟩

theorem removeAll_perm {ids others : List String} (same : ids.Perm others) (removals : List String) :
    (removeAll ids removals).Perm (removeAll others removals) := same.filter _

theorem union_perm {ids others : List String} (same : ids.Perm others) (distinct : others.Nodup) (incoming : List String) :
    (union ids incoming).Perm (union others incoming) := by
  refine (List.perm_ext_iff_of_nodup (union_nodup (same.nodup_iff.mpr distinct) _) (union_nodup distinct _)).mpr fun i => ?_
  rw [mem_union, mem_union, same.mem_iff]

/-! ### Annotations by their id -/

/-- `fields` in place of the fields that belong to the annotation with this id. -/
def putFields (id : String) (fields old : Dict Json) : Dict Json :=
  if old.get "id" = .str id then fields else old

/-- Replacing the one annotation with an id replaces its fields among the fields of all. -/
theorem map_fields_replaceFirst {id : String} {replacement : Annotation} {old : List Annotation}
    (unique : (old.map (·.get "id")).Nodup) :
    (replaceFirst (·.hasId id) replacement old).map (·.fields) =
      (old.map (·.fields)).map (putFields id replacement.fields) := by
  induction old with
  | nil => rfl
  | cons a old ih =>
    rw [List.map_cons, List.nodup_cons] at unique
    rw [replaceFirst, List.map_cons, List.map_cons, putFields]
    by_cases here : a.hasId id = true
    · have absent : ∀ fields ∈ old.map (·.fields), putFields id replacement.fields fields = fields := by
        intro fields member
        refine if_neg fun same => unique.1 ?_
        obtain ⟨b, later, rfl⟩ := List.mem_map.mp member
        rw [ Annotation.hasId_iff.mp here, ← same]
        exact List.mem_map.mpr ⟨b, later, rfl⟩
      rw [if_pos here, List.map_cons, if_pos (show a.fields.get "id" = .str id from Annotation.hasId_iff.mp here)]
      rw [List.map_congr_left absent, List.map_id']
    · have other : ¬a.fields.get "id" = .str id := fun same => here ( Annotation.hasId_iff.mpr same)
      rw [if_neg here, List.map_cons, if_neg other, ih unique.2]

theorem putFields_putFields {id : String} {fields : Dict Json} (named : fields.get "id" = .str id)
    (last old : Dict Json) : putFields id last (putFields id fields old) = putFields id last old := by
  unfold putFields
  split <;> simp_all

/-- The one annotation with an id is replaced in one list, and then in another with the same
contents: this gives back the old contents exactly when it gives back the old fields. -/
theorem replaceFirst_back_iff {id : String} {old current : List Annotation} {target merged last : Annotation}
    (unique : (old.map (·.get "id")).Nodup) (unique' : (current.map (·.get "id")).Nodup)
    (found : old.find? (·.hasId id) = some target) (named : merged.hasId id = true) (again : last.hasId id = true)
    (same : (current.map (·.fields)).Perm ((replaceFirst (·.hasId id) merged old).map (·.fields))) :
    ((replaceFirst (·.hasId id) last current).map (·.fields)).Perm (old.map (·.fields)) ↔
      last.fields = target.fields := by
  have held := List.find?_some found
  have is : ∀ b ∈ old, b.hasId id = true → b = target := fun b member here =>
    List.inj_on_of_nodup_map unique member (List.mem_of_find?_eq_some found)
      (( Annotation.hasId_iff.mp here).trans ( Annotation.hasId_iff.mp held).symm)
  have replaced : ((replaceFirst (·.hasId id) last current).map (·.fields)).Perm
      ((old.map (·.fields)).map (putFields id last.fields)) := by
    rw [map_fields_replaceFirst unique] at same
    rw [map_fields_replaceFirst unique']
    refine (same.map _).trans (.of_eq ?_)
    rw [List.map_map]
    exact List.map_congr_left fun fields _ => putFields_putFields ( Annotation.hasId_iff.mp named) _ fields
  constructor
  · intro back
    have here : last.fields ∈ (old.map (·.fields)).map (putFields id last.fields) := by
      refine List.mem_map.mpr ⟨target.fields, List.mem_map.mpr ⟨target, List.mem_of_find?_eq_some found, rfl⟩, ?_⟩
      exact if_pos ( Annotation.hasId_iff.mp held)
    obtain ⟨b, member, fields⟩ := List.mem_map.mp ((replaced.symm.trans back).subset here)
    have hasId : b.hasId id = true := by
      rw [ Annotation.hasId_iff, Annotation.get, fields]
      exact Annotation.hasId_iff.mp again
    rw [← fields, is b member hasId]
  · intro fields
    refine replaced.trans (.of_eq ?_)
    rw [List.map_map]
    refine List.map_congr_left fun b member => ?_
    rw [Function.comp_apply, putFields]
    split
    · rename_i here
      rw [fields, is b member ( Annotation.hasId_iff.mpr here)]
    · rfl

theorem filter_hasId_map (id : String) (annotations : List Annotation) :
    (annotations.filter fun a => !a.hasId id).map (·.fields) =
      (annotations.map (·.fields)).filter fun fields => fields.get "id" ≠ .str id := by
  rw [List.filter_map]
  congr 1
  apply List.filter_congr
  intro a _
  rw [ Annotation.hasId, Function.comp_apply, decide_not]
  exact congrArg not (decide_eq_decide.mpr Iff.rfl)

theorem find?_remove {id other : String} (differ : other ≠ id) (annotations : List Annotation) :
    (annotations.filter fun a => !a.hasId id).find? (·.hasId other) = annotations.find? (·.hasId other) := by
  rw [List.find?_filter]
  congr 1
  funext a
  by_cases held : a.hasId other = true
  · rw [ Annotation.hasId_iff] at held
    simp [ Annotation.hasId, held, differ]
  · simp [held]

theorem find?_replaceFirst_of_ne {id other : String} (differ : other ≠ id) {replacement : Annotation}
    (named : replacement.hasId id = true) (annotations : List Annotation) :
    (replaceFirst (·.hasId id) replacement annotations).find? (·.hasId other) =
      annotations.find? (·.hasId other) := by
  have apart : ∀ a : Annotation, a.hasId id = true → a.hasId other = false := by
    intro a held
    rw [ Annotation.hasId_iff] at held
    simp [ Annotation.hasId, held, Ne.symm differ]
  induction annotations with
  | nil => rfl
  | cons a annotations ih =>
    rw [replaceFirst]
    split
    · rename_i here
      rw [List.find?_cons, List.find?_cons, apart _ here, apart _ named]
    · rw [List.find?_cons, List.find?_cons, ih]

/-- A list that holds an annotation under its id, with the fields of that one taken out and put
at the end. -/
theorem perm_remove_append {id : String} {removed : Annotation} {annotations : List Annotation}
    (unique : (annotations.map (·.get "id")).Nodup) (found : annotations.find? (·.hasId id) = some removed) :
    ((annotations.filter fun a => !a.hasId id).map (·.fields) ++ [removed.fields]).Perm
      (annotations.map (·.fields)) := by
  induction annotations with
  | nil => cases found
  | cons a annotations ih =>
    rw [List.map_cons, List.nodup_cons] at unique
    rw [List.find?_cons] at found
    split at found
    · rename_i here
      cases found
      have kept : annotations.filter (fun b => !b.hasId id) = annotations := by
        refine List.filter_eq_self.mpr fun b later => ?_
        by_contra held
        rw [Bool.not_eq_true', Bool.not_eq_false, Annotation.hasId_iff] at held
        exact unique.1 (( Annotation.hasId_iff.mp here).trans held.symm ▸ List.mem_map.mpr ⟨b, later, rfl⟩)
      rw [List.filter_cons, here, Bool.not_true, if_neg Bool.false_ne_true, kept, List.map_cons]
      exact List.perm_append_singleton _ _
    · rename_i other
      rw [List.filter_cons, other, Bool.not_false, if_pos rfl, List.map_cons, List.cons_append, List.map_cons]
      exact (ih unique.2 found).cons _

/-! ### The inverse of one op -/

/-- The call of the store that an undo makes. -/
def replayCall (env : Env) (inverse : StateOp) : Call :=
  { env := env, client := undoReplayClientId, op := inverse, recordActivity := false, trustedReplay := true }

/-- Whether the inverse of the op can express the state before it: a node that is moved or laid
out has a position, and an annotation that is merged into has every key of the payload. -/
def StateOp.restorable (s : State Annotation) : StateOp → Bool
  | .nodeMoved nodeId _ => nodeId.string?.all (· ∈ s.positions)
  | .layoutApplied positions => positions.all fun entries => entries.keys.all (· ∈ s.positions)
  | .annotationCreated payload | .annotationUpdated payload _ =>
    payload.all fun ann => ((ann.get "id").string?.bind s.find).all fun target =>
      ann.keys.all fun key => key ∈ bookkeeping || key ∈ target.fields
  | _ => true

namespace Session

/-- What the replay of a recorded inverse in session `t` comes to: it is accepted, it gives the
state `target` exactly when `restorable`, and of the other annotations it changes none. -/
structure Reverts (cfg : StoreConfig) (replay : Env) (t : Session Annotation) (d : ActivityDraft)
    (target : State Annotation) (restorable : Bool) (e : Effect) : Prop where
  accepted : t.judge cfg (replayCall replay d.inverseOp) = .accept e
  name : e.name = t.name
  restored : (e.state t.state.annotations).Alike target ↔ restorable = true
  frame : ∀ id, d.affected ≠ .annotationId id → (e.state t.state.annotations).find id = t.state.find id
  remembered : e.deletedAnnotationIds = t.deletedAnnotationIds ∨ ∃ id a, t.state.find id = some a ∧
    e.deletedAnnotationIds = boundedAppend deletedIdsMax t.deletedAnnotationIds id

/-- The record of the effect can be reverted in every session that has the same contents as the
one the effect leads to, its own target unchanged. Only the creation of an annotation with the
empty id cannot: `annotation_deleted` takes an empty id for a missing one. -/
def Revertible (cfg : StoreConfig) (s : Session Annotation) (op : StateOp) (e : Effect) : Prop :=
  ∀ d, e.activity = some d → e.name = s.name ∧ ∀ (t : Session Annotation) (replay : Env), t.Steady cfg →
    t.state.Alike (e.state s.state.annotations) → currentSnapshotFor t.state d.affected = d.after →
      d.inverseOp ≠ .annotationDeleted (.str "") .null → (∀ ann id, d.inverseOp = .annotationCreated (some ann) → ann.get "id" = .str id →
        id ∉ t.deletedAnnotationIds) → ∃ e', Reverts cfg replay t d s.state (op.restorable s.state) e'

variable {cfg : StoreConfig} {env : Env} {client : String} {trusted : Bool} {s : Session Annotation}

theorem nodeMoved_revertible (nodeId position : Json) :
    (s.planNodeMoved nodeId position).Satisfies (s.Revertible cfg (.nodeMoved nodeId position)) fun _ _ => True := by
  unfold planNodeMoved
  split
  · rename_i id
    apply validated_satisfies trivial
    rintro p - d ⟨⟩
    refine ⟨rfl, fun t replay _ alike _ _ _ => ⟨_, rfl, rfl, ?_, fun _ _ => rfl, Or.inl rfl⟩⟩
    have positions : t.state.positions = s.state.positions.insert id p := alike.positions
    rw [StateOp.restorable, Json.string?_str, Option.all_some, decide_eq_true_eq, ← insert_back_iff (p := p), ← positions]
    constructor
    · exact fun restored => restored.positions
    · exact fun restored => ⟨alike.nodeRefs, restored, alike.sets, alike.intensity, alike.annotations⟩
  · trivial

theorem layoutApplied_revertible (positions : Option (Dict Json)) :
    (s.planLayoutApplied positions).Satisfies (s.Revertible cfg (.layoutApplied positions)) fun _ _ => True := by
  apply validated_satisfies trivial
  rintro normalised valid d ⟨⟩
  obtain ⟨entries, rfl, keys⟩ := mem_of_validatePositions valid
  refine ⟨rfl, fun t replay _ alike _ _ _ => ?_⟩
  have inverse := validatePositions_toJson normalised fun nid _ => s.state.positions[nid]?.getD .origin
  refine ⟨?effect, ?accepted, ?name, ?restored, ?frame, ?remembered⟩
  case accepted =>
    rw [judge, replayCall, plan, planLayoutApplied, inverse]
    rfl
  case restored =>
    have laid : t.state.positions = s.state.positions ∪ normalised := alike.positions
    have restorable : (StateOp.layoutApplied (some entries)).restorable s.state = true ↔
        ∀ nid ∈ normalised, nid ∈ s.state.positions := by
      rw [StateOp.restorable, Option.all_some, List.all_eq_true]
      simp only [Std.ExtTreeMap.mem_keys, decide_eq_true_eq, keys]
    rw [restorable, ← union_back_iff, ← laid]
    constructor
    · exact fun restored => restored.positions
    · exact fun restored => ⟨alike.nodeRefs, restored, alike.sets, alike.intensity, alike.annotations⟩
  case name => rfl
  case frame => exact fun _ _ => rfl
  case remembered => exact Or.inl rfl

theorem edgeIntensitySet_revertible (tidy : s.state.toCanvas.Tidy) (value : Json) :
    (s.planEdgeIntensitySet value).Satisfies (s.Revertible cfg (.edgeIntensitySet value)) fun _ _ => True := by
  apply validated_satisfies trivial
  rintro v - d drafted
  dsimp only at drafted
  split at drafted
  · cases drafted
  · cases drafted
    refine ⟨rfl, fun t replay _ alike _ _ _ => ⟨_, rfl, rfl, ?_, fun _ _ => rfl, Or.inl rfl⟩⟩
    have bounds : max 0 (min 1 s.state.edgeIntensity) = s.state.edgeIntensity := by
      rw [min_eq_right tidy.intensity.2, max_eq_right tidy.intensity.1]
    exact ⟨fun _ => rfl, fun _ => ⟨alike.nodeRefs, alike.positions, alike.sets, bounds, alike.annotations⟩⟩

/-- Setting one id set, seen by the others. -/
theorem alike_setIds {t u : State Annotation} {set : IdSet} {ids : List String} (alike : t.Alike u)
    {v : State Annotation} (others : ∀ other, other ≠ set → u.toCanvas.ids other = v.toCanvas.ids other)
    (same : ids.Perm (v.toCanvas.ids set)) (nodeRefs : u.nodeRefs = v.nodeRefs) (positions : u.positions = v.positions)
    (intensity : u.edgeIntensity = v.edgeIntensity) (annotations : u.annotations = v.annotations) :
    State.Alike { toCanvas := t.toCanvas.setIds set ids, annotations := t.annotations } v := by
  refine ⟨?_, ?_, fun other => ?_, ?_, annotations ▸ alike.annotations⟩
  · rw [Canvas.nodeRefs_setIds, ← nodeRefs]
    exact alike.nodeRefs
  · rw [Canvas.positions_setIds, ← positions]
    exact alike.positions
  · by_cases here : other = set
    · subst here
      rw [Canvas.ids_setIds_self]
      exact same
    · rw [Canvas.ids_setIds_of_ne _ here, ← others other here]
      exact alike.sets other
  · rw [Canvas.edgeIntensity_setIds, ← intensity]
    exact alike.intensity

theorem idsAdded_revertible (tidy : s.state.toCanvas.Tidy) (set : IdSet) (ids : Json) :
    (s.planIdsAdded set ids).Satisfies (s.Revertible cfg (.idsAdded set ids)) fun _ _ => True := by
  apply validated_satisfies trivial
  rintro requested - d drafted
  dsimp only at drafted
  split at drafted
  · cases drafted
  · cases drafted
    refine ⟨rfl, fun t replay _ alike _ _ _ => ?_⟩
    refine ⟨?effect, ?accepted, ?name, ⟨fun _ => rfl, fun _ => ?restored⟩, ?frame, ?remembered⟩
    case accepted =>
      rw [judge, replayCall, plan, planIdsDropped, requireIdList, Json.strings?_ofStrings]
      rfl
    case restored =>
      have union := alike.sets set
      rw [Effect.state, Canvas.ids_setIds_self] at union
      refine alike_setIds alike (fun other differs => Canvas.ids_setIds_of_ne _ differs _)
        ((removeAll_perm union _).trans (removeAll_added (tidy.sets set))) (Canvas.nodeRefs_setIds ..)
        (Canvas.positions_setIds ..) (Canvas.edgeIntensity_setIds ..) rfl
    case name => rfl
    case frame => exact fun _ _ => rfl
    case remembered => exact Or.inl rfl

theorem idsDropped_revertible (tidy : s.state.toCanvas.Tidy) (set : IdSet) (ids : Json) :
    (s.planIdsDropped set ids).Satisfies (s.Revertible cfg (.idsDropped set ids)) fun _ _ => True := by
  apply validated_satisfies trivial
  rintro requested - d drafted
  dsimp only at drafted
  split at drafted
  · cases drafted
  · cases drafted
    refine ⟨rfl, fun t replay _ alike _ _ _ => ?_⟩
    refine ⟨?effect, ?accepted, ?name, ⟨fun _ => rfl, fun _ => ?restored⟩, ?frame, ?remembered⟩
    case accepted =>
      rw [judge, replayCall, plan, planIdsAdded, requireIdList, Json.strings?_ofStrings]
      rfl
    case restored =>
      have removed := alike.sets set
      rw [Effect.state, Canvas.ids_setIds_self] at removed
      refine alike_setIds alike (fun other differs => Canvas.ids_setIds_of_ne _ differs _)
        ((union_perm removed (removeAll_nodup (tidy.sets set) _) _).trans (union_dropped (tidy.sets set)))
        (Canvas.nodeRefs_setIds ..) (Canvas.positions_setIds ..) (Canvas.edgeIntensity_setIds ..) rfl
    case name => rfl
    case frame => exact fun _ _ => rfl
    case remembered => exact Or.inl rfl


/-- Merging the old fields back over a payload takes away all that the payload changed exactly
when the payload has no key that the target had not. -/
theorem merge_back_iff {target : Annotation} (typed : target.Typed) {payload : Option (Dict Json)} {requireId : Bool}
    {ann : Dict Json} (valid : validatePayload payload requireId = .ok ann) :
    (target.fields ∪ ann) ∪ target.fields = target.fields ↔
      payload.all (fun sent => sent.keys.all fun key => key ∈ bookkeeping || key ∈ target.fields) = true := by
  obtain ⟨sent, raw, rfl, -, -, -, -, rfl⟩ := validatePayload_eq_ok.mp valid
  simp only [Option.all_some, List.all_eq_true, Std.ExtTreeMap.mem_keys, Bool.or_eq_true, decide_eq_true_eq]
  constructor
  · intro same key member
    by_cases own : key ∈ bookkeeping
    · exact Or.inl own
    · right
      rw [← same]
      have carried : key ∈ canonicalPayload sent (canonicalType raw) :=
        mem_canonicalPayload.mpr ⟨own, Or.inr (Or.inr member)⟩
      exact Std.ExtTreeMap.mem_union_iff.mpr (Or.inl (Std.ExtTreeMap.mem_union_iff.mpr (Or.inr carried)))
  · intro present
    obtain ⟨-, t, -, type, kind⟩ := typed
    have known : ∀ key ∈ canonicalPayload sent (canonicalType raw), key ∈ target.fields := by
      intro key member
      have stored : ∀ key, target.get key = .str t → key ∈ target.fields := fun key stored =>
        Std.ExtTreeMap.mem_iff_isSome_getElem?.mpr (by
          rw [Dict.getElem?_of_get_ne_null (by rw [show target.fields.get key = _ from stored]; simp)]
          rfl)
      obtain ⟨other, rfl | rfl | sentKey⟩ := mem_canonicalPayload.mp member
      · exact stored "type" type
      · exact stored "kind" kind
      · exact (present key sentKey).resolve_left other
    apply Std.ExtTreeMap.ext_getElem?
    intro key
    rw [Std.ExtTreeMap.getElem?_union, Std.ExtTreeMap.getElem?_union]
    by_cases member : key ∈ target.fields
    · obtain ⟨value, atKey⟩ := Option.isSome_iff_exists.mp (Std.ExtTreeMap.mem_iff_isSome_getElem?.mp member)
      rw [atKey, Option.some_or]
    · rw [Std.ExtTreeMap.getElem?_eq_none member, Std.ExtTreeMap.getElem?_eq_none fun carried => member (known key carried)]
      rfl

theorem get_id_of_typed_string {a : Annotation} {id : String} (held : a.hasId id = true) :
    (a.fields.get "id").string? = some id := Json.string?_eq_some.mpr ( Annotation.hasId_iff.mp held)

theorem mergeEffect_revertible (steady : s.Steady cfg) {op : StateOp} {payload : Option (Dict Json)} {requireId : Bool}
    {ann : Dict Json} {id : String} {target : Annotation} {applied : Nat → AppliedOp Nat}
    (valid : validatePayload payload requireId = .ok ann) (found : s.state.find id = some target)
    (type : target.get "type" = ann.get "type")
    (restorable : op.restorable s.state = payload.all fun sent =>
      sent.keys.all fun key => key ∈ bookkeeping || key ∈ target.fields) :
    s.Revertible cfg op (s.mergeEffect env id target ann applied) := by
  rintro d ⟨⟩
  refine ⟨rfl, fun t replay steadyT alike unchanged _ _ => ?_⟩
  have canonical := steady.canonical target (State.mem_of_find found)
  have held := State.hasId_of_find found
  have foundT : t.state.find id = some (target.merge env.stamp ann) := by
    simpa only [currentSnapshotFor, Snapshot.annotationValue.injEq] using unchanged
  have heldMerged := State.hasId_of_find foundT
  have sameType : (target.merge env.stamp ann).get "type" = target.fields.get "type" := by
    obtain ⟨-, -, -, -, present, -⟩ := validatePayload_typed valid
    rw [ Annotation.get, Annotation.merge, Dict.get_union, if_pos present, ← type]
    rfl
  have again : ((target.merge env.stamp ann).merge replay.stamp target.fields).hasId id = true := by
    rw [ Annotation.hasId_iff, Annotation.get_id_merge heldMerged ( Annotation.hasId_iff.mp held)]
    exact Annotation.hasId_iff.mp heldMerged
  refine ⟨?effect, ?accepted, ?name, ?restored, ?frame, ?remembered⟩
  case accepted =>
    rw [judge, replayCall, plan, planAnnotationUpdated, canonical.validatePayload_fields]
    dsimp only [validated]
    rw [get_id_of_typed_string held]
    dsimp only
    rw [foundT]
    dsimp only
    rw [if_neg (not_not.mpr sameType)]
    rfl
  case name => rfl
  case frame =>
    intro other differs
    have apart : other ≠ id := fun same => differs (by rw [same])
    exact find?_replaceFirst_of_ne apart again _
  case remembered => exact Or.inl rfl
  case restored =>
    rw [restorable, ← merge_back_iff canonical.toTyped valid]
    have back := replaceFirst_back_iff steady.annotations.unique steadyT.annotations.unique found heldMerged again
      alike.annotations
    exact ⟨fun restored => back.mp restored.annotations, fun same =>
      ⟨alike.nodeRefs, alike.positions, alike.sets, alike.intensity, back.mpr same⟩⟩

theorem fresh_revertible {op : StateOp} {ann : Dict Json} {id : String} {applied : Nat → AppliedOp Nat}
    (named : (Session.freshAnnotation env client ann).get "id" = .str id)
    (new : ∀ a ∈ s.state.annotations, a.get "id" ≠ .str id) (restorable : op.restorable s.state = true) :
    s.Revertible cfg op { s.fanOut (applied s.state.annotations.length) with
      edit := .append (Session.freshAnnotation env client ann)
      activity := some
        { affected := .annotationId id, before := .annotationValue none
          after := .annotationValue (some (Session.freshAnnotation env client ann))
          inverseOp := .annotationDeleted (.str id) .null } } := by
  rintro d ⟨⟩
  refine ⟨rfl, fun t replay steadyT alike unchanged nonempty _ => ?_⟩
  have foundT : t.state.find id = some (Session.freshAnnotation env client ann) := by
    simpa only [currentSnapshotFor, Snapshot.annotationValue.injEq] using unchanged
  have asked : (Json.str id).orElse .null = .str id := by
    rw [Json.orElse, if_pos]
    simpa [Json.truthy] using fun empty : id = "" => nonempty (by rw [empty])
  refine ⟨?effect, ?accepted, ?name, ?restored, ?frame, ?remembered⟩
  case accepted =>
    rw [judge, replayCall, plan, planAnnotationDeleted, asked]
  case name => rfl
  case frame =>
    intro other differs
    exact find?_remove (fun same => differs (by rw [same])) _
  case remembered =>
    refine Or.inr ⟨id, _, foundT, ?_⟩
    dsimp only
  case restored =>
    refine ⟨fun _ => restorable, fun _ => ⟨alike.nodeRefs, alike.positions, alike.sets, alike.intensity, ?_⟩⟩
    change ((t.state.annotations.filter fun a => !a.hasId id).map (·.fields)).Perm _
    have kept : s.state.annotations.filter (fun a => !a.hasId id) = s.state.annotations :=
      List.filter_eq_self.mpr fun a member => by simpa [ Annotation.hasId] using new a member
    have gone : (!(Session.freshAnnotation env client ann).hasId id) = false := by
      rw [ Annotation.hasId_iff.mpr named, Bool.not_true]
    rw [filter_hasId_map]
    refine (alike.annotations.filter _).trans (.of_eq ?_)
    rw [Effect.state, ← filter_hasId_map]
    dsimp only [AnnotationEdit.contents]
    rw [List.filter_append, kept, List.filter_cons, gone, if_neg Bool.false_ne_true, List.filter_nil, List.append_nil]

theorem annotationCreated_revertible (steady : s.Steady cfg) (fresh : s.Fresh env) (payload : Option (Dict Json)) :
    (s.planAnnotationCreated cfg env client trusted payload).Satisfies
      (s.Revertible cfg (.annotationCreated payload)) fun _ _ => True := by
  apply validated_satisfies trivial
  intro ann valid
  obtain ⟨t, listed, type, kind, -⟩ := validatePayload_typed valid
  obtain ⟨-, named⟩ := freshAnnotation_typed env client listed type kind
  obtain ⟨sent, rfl, sameId⟩ := validatePayload_id valid
  dsimp only
  split
  · trivial
  · split
    · trivial
    · split
      · rename_i id target incoming found
        split
        · trivial
        · rename_i sameType
          rw [incoming, Option.bind_some] at found
          refine mergeEffect_revertible steady valid found (not_not.mp sameType) ?_
          rw [StateOp.restorable, Option.all_some, ← sameId, incoming, Option.bind_some, found]
          rfl
      · rename_i unmatched
        split
        · trivial
        · have absent : (ann.get "id").string?.bind s.state.find = none := by
            cases incoming : (ann.get "id").string? with
            | none => rfl
            | some id =>
              rw [Option.bind_some]
              cases found : s.state.find id with
              | none => rfl
              | some target => exact absurd (by rw [incoming, Option.bind_some, found]) (unmatched id target incoming)
          refine fresh_revertible named ?_ ?_
          · cases incoming : (ann.get "id").string? with
            | none => exact fresh
            | some id =>
              rw [incoming, Option.bind_some] at absent
              exact id_ne_of_find_none absent
          · rw [StateOp.restorable, Option.all_some, ← sameId, absent]
            rfl

theorem annotationUpdated_revertible (steady : s.Steady cfg) (payload : Option (Dict Json)) (baseVersion : Json) :
    (s.planAnnotationUpdated env trusted payload baseVersion).Satisfies
      (s.Revertible cfg (.annotationUpdated payload baseVersion)) fun _ _ => True := by
  apply validated_satisfies trivial
  intro incoming valid
  obtain ⟨sent, rfl, sameId⟩ := validatePayload_id valid
  dsimp only
  split
  · trivial
  · rename_i id named
    split
    · trivial
    · rename_i target found
      split
      · trivial
      · rename_i sameType
        have revertible : s.Revertible cfg (.annotationUpdated (some sent) baseVersion)
            (s.mergeEffect env id target incoming .annotationUpdated) := by
          refine mergeEffect_revertible steady valid found (not_not.mp sameType) ?_
          rw [StateOp.restorable, Option.all_some, ← sameId, named, Option.bind_some, found]
          rfl
        repeat' split
        all_goals first | exact revertible | trivial

theorem annotationDeleted_revertible (steady : s.Steady cfg) (annotationId id : Json) :
    (s.planAnnotationDeleted annotationId id).Satisfies (s.Revertible cfg (.annotationDeleted annotationId id))
      fun _ _ => True := by
  unfold planAnnotationDeleted
  split
  · rename_i id _
    intro d drafted
    obtain ⟨removed, found, rfl⟩ := Option.map_eq_some_iff.mp drafted
    refine ⟨rfl, fun t replay steadyT alike unchanged _ remembered => ?_⟩
    have canonical := steady.canonical removed (State.mem_of_find found)
    have held := State.hasId_of_find found
    have foundT : t.state.find id = none := by
      simpa only [currentSnapshotFor, Snapshot.annotationValue.injEq] using unchanged
    have forgotten := remembered removed.fields id rfl ( Annotation.hasId_iff.mp held)
    have perm := perm_remove_append steady.annotations.unique found
    have room : t.state.annotations.length < cfg.maxAnnotations := by
      have length := alike.annotations.length_eq
      have whole := perm.length_eq
      have bounded := steady.annotations.bounded
      change (t.state.annotations.map _).length = ((s.state.annotations.filter _).map _).length at length
      rw [List.length_map, List.length_map] at length
      rw [List.length_append, List.length_map, List.length_map, List.length_singleton] at whole
      omega
    have fresh : (Session.freshAnnotation replay undoReplayClientId removed.fields).fields = removed.fields := by
      rw [Session.freshAnnotation]
      simp only [get_id_of_typed_string held, Option.isSome_some, if_true, canonical.created]
    refine ⟨?effect, ?accepted, ?name, ?restored, ?frame, ?remembered⟩
    case accepted =>
      rw [judge, replayCall, plan, planAnnotationCreated, canonical.validatePayload_fields]
      dsimp only [validated]
      rw [get_id_of_typed_string held, Option.any_some, if_neg (by simpa using forgotten), Option.bind_some, foundT]
      dsimp only
      rw [if_pos rfl]
      dsimp only
      rw [if_neg (by omega)]
    case name => rfl
    case frame =>
      intro other differs
      have apart : (Session.freshAnnotation replay undoReplayClientId removed.fields).hasId other = false := by
        have named : (Session.freshAnnotation replay undoReplayClientId removed.fields).get "id" = .str id := by
          rw [ Annotation.get, fresh]
          exact Annotation.hasId_iff.mp held
        rw [ Annotation.hasId, named, decide_eq_false_iff_not, Json.str.injEq]
        exact fun same => differs (by rw [same])
      change (t.state.annotations ++ [_]).find? _ = _
      rw [List.find?_append, List.find?_singleton, apart]
      simp [State.find]
    case remembered => exact Or.inl rfl
    case restored =>
      refine ⟨fun _ => rfl, fun _ => ⟨alike.nodeRefs, alike.positions, alike.sets, alike.intensity, ?_⟩⟩
      change ((t.state.annotations ++ [Session.freshAnnotation replay undoReplayClientId removed.fields]).map _).Perm _
      rw [List.map_append, List.map_singleton, fresh]
      exact (alike.annotations.append_right _).trans perm
  · trivial

/-- The record of every accepted op can be reverted. -/
theorem plan_revertible (steady : s.Steady cfg) (fresh : s.Fresh env) (op : StateOp) :
    (s.plan cfg env client trusted op).Satisfies (s.Revertible cfg op) fun _ _ => True := by
  cases op with
  | nodeMoved nodeId position => exact nodeMoved_revertible nodeId position
  | idsAdded set ids => exact idsAdded_revertible steady.canvas set ids
  | idsDropped set ids => exact idsDropped_revertible steady.canvas set ids
  | edgeIntensitySet value => exact edgeIntensitySet_revertible steady.canvas value
  | annotationCreated payload => exact annotationCreated_revertible steady fresh payload
  | annotationUpdated payload baseVersion => exact annotationUpdated_revertible steady payload baseVersion
  | annotationDeleted annotationId id => exact annotationDeleted_revertible steady annotationId id
  | layoutApplied positions => exact layoutApplied_revertible positions
  | nodesRemoved nodeIds =>
    apply validated_satisfies trivial
    intro removals valid
    dsimp only
    split
    · trivial
    · rintro d ⟨⟩
  | groupMembershipChanged groupId members =>
    simp only [plan, planGroupMembershipChanged]
    split
    · apply validated_satisfies trivial
      intro members valid
      split
      · trivial
      · rintro d ⟨⟩
    · trivial
  | sessionRenamed name =>
    simp only [plan, planSessionRenamed]
    split
    · rintro d ⟨⟩
    · rintro d ⟨⟩
    · trivial
  | _ =>
    apply validated_satisfies trivial
    rintro _ _ d ⟨⟩


theorem judge_revertible (steady : s.Steady cfg) {call : Call} (fresh : s.Fresh call.env) {e : Effect}
    (verdict : s.judge cfg call = .accept e) : s.Revertible cfg call.op e := by
  have revertible : (s.judge cfg call).Satisfies (s.Revertible cfg call.op) fun _ _ => True :=
    plan_revertible steady fresh call.op
  rw [verdict] at revertible
  exact revertible

end Session

/-! ### The log around an op and its undo -/

/-- The record of an op accepted as number `seq`. -/
def Call.record (call : Call) (seq : Nat) (d : ActivityDraft) : ActivityRecord :=
  { op := call.op.name, actor := call.client, seq := seq, occurredAt := call.env.stamp
    affected := d.affected, before := d.before, after := d.after, inverseOp := some d.inverseOp }

/-- Pruning drops nothing of the newest records, if they are young and few enough. -/
theorem pruneActivityLog_append {cfg : StoreConfig} {now : Nat} (older : List ActivityRecord) {newest : List ActivityRecord}
    (young : 0 < cfg.activityMaxAge → ∀ r ∈ newest, now ≤ r.occurredAt * 1000000 + cfg.activityMaxAge)
    (few : 0 < cfg.maxActivityRecords → newest.length ≤ cfg.maxActivityRecords) :
    ∃ kept, pruneActivityLog cfg now (older ++ newest) = kept ++ newest := by
  obtain ⟨kept, aged⟩ : ∃ kept, (if cfg.activityMaxAge > 0 then (older ++ newest).filter fun r =>
      now ≤ r.occurredAt * 1000000 + cfg.activityMaxAge else older ++ newest) = kept ++ newest := by
    split
    · rename_i limited
      rw [List.filter_append, List.filter_eq_self.mpr fun r member => decide_eq_true (young limited r member)]
      exact ⟨_, rfl⟩
    · exact ⟨_, rfl⟩
  unfold pruneActivityLog
  dsimp only
  rw [aged]
  split
  · rename_i limited
    have within := few limited
    rw [List.length_append, List.drop_append_of_le_length (by omega)]
    exact ⟨_, rfl⟩
  · exact ⟨_, rfl⟩

/-- An op whose number stands in the log after it has appended its record, and this is young. -/
theorem Call.log_recorded {cfg : StoreConfig} {call : Call} {seq : Nat} {log : List ActivityRecord}
    {activity : Option ActivityDraft} (sound : LogSound cfg seq log)
    (recorded : ∃ r ∈ call.log cfg (seq + 1) log activity, r.seq = seq + 1) :
    ∃ d, activity = some d ∧
      call.log cfg (seq + 1) log activity = pruneActivityLog cfg call.env.now (log ++ [call.record (seq + 1) d]) ∧
      (0 < cfg.activityMaxAge → call.env.now ≤ call.env.stamp * 1000000 + cfg.activityMaxAge) := by
  obtain ⟨r, member, number⟩ := recorded
  have new : r ∉ log := fun old => by
    have bound := sound.below r.seq (List.mem_map.mpr ⟨r, old, rfl⟩)
    omega
  cases activity with
  | none => exact absurd member new
  | some d =>
    rw [Call.log] at member ⊢
    split at member
    · rename_i records
      refine ⟨d, rfl, if_pos records, fun limited => ?_⟩
      have here : r = call.record (seq + 1) d :=
        (List.mem_append.mp ((pruneActivityLog_sublist ..).subset member)).elim (absurd · new) List.mem_singleton.mp
      unfold pruneActivityLog at member
      dsimp only at member
      rw [if_pos limited, here] at member
      split at member
      · exact of_decide_eq_true (List.mem_filter.mp (List.mem_of_mem_drop member)).2
      · exact of_decide_eq_true (List.mem_filter.mp member).2
    · exact absurd member new

theorem findLatestUndoable_append (older : List ActivityRecord) {r : ActivityRecord} (pending : r.undone = false)
    (stored : r.inverseOp.isSome = true) : findLatestUndoable (older ++ [r]) r.actor = some r := by
  rw [findLatestUndoable, List.reverse_append, List.reverse_singleton, List.singleton_append, List.find?_cons]
  simp [pending, stored]

theorem undoConflictReason_eq_none {state : State Annotation} {record : ActivityRecord} :
    undoConflictReason state record = none ↔ currentSnapshotFor state record.affected = record.after := by
  simp [undoConflictReason]

namespace Session

variable {cfg : StoreConfig} {s after : Session Annotation}

/-- The replay of an inverse is refused or dropped where it cannot be reverted. -/
theorem replay_accepted {t : Session Annotation} {replay : Env} {inverse : StateOp} {e : Effect}
    (verdict : t.judge cfg (replayCall replay inverse) = .accept e) :
    inverse ≠ .annotationDeleted (.str "") .null ∧ ∀ ann id, inverse = .annotationCreated (some ann) →
      ann.get "id" = .str id → id ∉ t.deletedAnnotationIds := by
  constructor
  · rintro rfl
    cases verdict
  · rintro ann id rfl named remembered
    rw [judge, replayCall, plan, planAnnotationCreated] at verdict
    cases valid : validatePayload (some ann) false with
    | error failure =>
      rw [valid] at verdict
      cases verdict
    | ok checked =>
      obtain ⟨sent, same, sameId⟩ := validatePayload_id valid
      cases same
      rw [valid] at verdict
      dsimp only [validated] at verdict
      rw [sameId, named, Json.string?_str, Option.any_some, if_pos (decide_eq_true remembered)] at verdict
      cases verdict

/-- An undo that succeeds right after a recorded op of the same actor puts the session back as it
was, up to the server's bookkeeping and list order, exactly when the inverse of the op can express
the state before it. -/
theorem undo_restores {name : Option String} {now : Nat} {history : List (Edit × Applied Annotation)}
    (run : Run (Session.edit cfg) (fun _ s edit => s.Fresh edit.env) { name := name, updatedAt := now } history s)
    {call : Call} (fresh : s.Fresh call.env) {op : Applied Annotation} (accepted : s.applyStateOp cfg call = .applied op after)
    (recorded : ∃ record ∈ after.activityLog, record.seq = after.seq) {env : Env} {inverse : Applied Annotation}
    {restored : Session Annotation} (undone : after.undoLast cfg env call.client = .applied inverse restored) :
    (restored.name = s.name ∧ restored.state.Alike s.state) ↔ call.op.restorable s.state = true := by
  have steady := run_steady run
  have steady' := steady.applied fresh accepted
  obtain ⟨e, verdict, -, rfl⟩ := applyStateOp_applied accepted
  obtain ⟨d, drafted, log, young⟩ := Call.log_recorded steady.log recorded
  obtain ⟨older, kept⟩ : ∃ older, pruneActivityLog cfg call.env.now (s.activityLog ++ [call.record (s.seq + 1) d]) =
      older ++ [call.record (s.seq + 1) d] :=
    pruneActivityLog_append _ (fun limited r only => List.mem_singleton.mp only ▸ young limited) fun limited => limited
  obtain ⟨record, stored, replayed, latest, unchanged, inverseOp, replay, rfl⟩ := undoLast_applied undone
  have own : findLatestUndoable (call.log cfg (s.seq + 1) s.activityLog e.activity) call.client =
      some (call.record (s.seq + 1) d) := by
    rw [log, kept]
    exact findLatestUndoable_append older rfl rfl
  obtain rfl : record = call.record (s.seq + 1) d := Option.some.inj (latest.symm.trans own)
  cases inverseOp
  obtain ⟨e', again, -, rfl⟩ := applyStateOp_applied replay
  obtain ⟨named, revertible⟩ := judge_revertible steady fresh verdict d drafted
  obtain ⟨nonempty, forgotten⟩ := replay_accepted again
  obtain ⟨e'', reverts⟩ := revertible _ env
    (steady'.forget (Server.forgetDeleted d.inverseOp e.deletedAnnotationIds)) (.refl _)
    (undoConflictReason_eq_none.mp unchanged) nonempty forgotten
  cases reverts.accepted.symm.trans again
  exact ⟨fun restored => reverts.restored.mp restored.2, fun restorable =>
    ⟨reverts.name.trans named, reverts.restored.mpr restorable⟩⟩


/-- A call by one client at a time in seconds. -/
def undoCallAt (second : Nat) (op : StateOp) : Call :=
  { env := { now := second * 1000000, freshId := "new" }, client := "ada", op := op }

/-- A note that one client makes. -/
def undoNote : Call := undoCallAt 1 (.annotationCreated (some (.of [("type", .str "note"), ("id", .str "a"), ("text", .str "old")])))

/-- What the session with the note is like after an op and its undo. -/
def undoneAfter {α : Type} (op : StateOp) (look : Session Annotation → Session Annotation → Session Annotation → α) : Option α :=
  (({} : Session Annotation).edit {} (.op undoNote)).bind fun made =>
    (made.1.edit {} (.op (undoCallAt 2 op))).bind fun changed =>
      (changed.1.edit {} (.undo { now := 3000000, freshId := "new" } "ada")).map fun undone =>
        look made.1 changed.1 undone.1

theorem undoneAfter_some {α : Type} {op : StateOp} {look : Session Annotation → Session Annotation → Session Annotation → α}
    {seen : α} (taken : undoneAfter op look = some seen) :
    ∃ s changed restored history op' inverse,
      Run (Session.edit {}) (fun _ s edit => s.Fresh edit.env) { name := none, updatedAt := 0 } history s ∧
      s.applyStateOp {} (undoCallAt 2 op) = .applied op' changed ∧
      changed.undoLast {} { now := 3000000, freshId := "new" } "ada" = .applied inverse restored ∧
      look s changed restored = seen := by
  obtain ⟨⟨s, _⟩, made, later⟩ := Option.bind_eq_some_iff.mp taken
  obtain ⟨⟨changed, op'⟩, accepted, last⟩ := Option.bind_eq_some_iff.mp later
  obtain ⟨⟨restored, inverse⟩, undone, looked⟩ := Option.map_eq_some_iff.mp last
  refine ⟨s, changed, restored, _, op', inverse, .next .start ?_ made, edit_op.mp accepted, edit_undo.mp undone, looked⟩
  intro a member
  cases member

/-- A new text for a note that has one, and its undo. -/
theorem undo_restores_sample :
    ∃ s restored : Session Annotation, s.state.annotations.map (·.get "text") = [.str "old"] ∧ restored.seq = 3 ∧
      restored.state.Alike s.state := by
  have taken : undoneAfter (.annotationUpdated (some (.of [("type", .str "note"), ("id", .str "a"), ("text", .str "new")])) .null)
      (fun s changed restored => (s.state.annotations.map (·.get "text"), restored.seq, decide (s.Fresh ⟨2000000, "new"⟩),
        decide (∃ r ∈ changed.activityLog, r.seq = changed.seq),
        (StateOp.annotationUpdated (some (.of [("type", .str "note"), ("id", .str "a"), ("text", .str "new")])) .null).restorable s.state)) =
      some ([.str "old"], 3, true, true, true) := by decide +kernel
  obtain ⟨s, changed, restored, history, op, inverse, run, accepted, undone, seen⟩ := undoneAfter_some taken
  simp only [Prod.mk.injEq, decide_eq_true_eq] at seen
  obtain ⟨text, number, fresh, recorded, restorable⟩ := seen
  exact ⟨s, restored, text, number, ((undo_restores run fresh accepted recorded undone).mpr restorable).2⟩

/-- A key that an update adds outlives the undo, and so does the position of a node that had none. -/
theorem undo_leaves_traces :
    (∃ s changed restored : Session Annotation, ∃ history op inverse,
      Run (Session.edit {}) (fun _ s edit => s.Fresh edit.env) { name := none, updatedAt := 0 } history s ∧
      s.applyStateOp {} (undoCallAt 2 (.annotationUpdated (some (.of [("type", .str "note"), ("id", .str "a"),
        ("color", .str "red")])) .null)) = .applied op changed ∧
      (∃ record ∈ changed.activityLog, record.seq = changed.seq) ∧
      changed.undoLast {} { now := 3000000, freshId := "new" } "ada" = .applied inverse restored ∧
      s.state.annotations.map (·.get "color") = [.null] ∧
      restored.state.annotations.map (·.get "color") = [.str "red"] ∧ ¬restored.state.Alike s.state) ∧
    ∃ s changed restored : Session Annotation, ∃ history op inverse,
      Run (Session.edit {}) (fun _ s edit => s.Fresh edit.env) { name := none, updatedAt := 0 } history s ∧
      s.applyStateOp {} (undoCallAt 2 (.nodeMoved (.str "n") (Position.toJson ⟨1, 2⟩))) = .applied op changed ∧
      (∃ record ∈ changed.activityLog, record.seq = changed.seq) ∧
      changed.undoLast {} { now := 3000000, freshId := "new" } "ada" = .applied inverse restored ∧
      s.state.positions["n"]? = none ∧ restored.state.positions["n"]? = some .origin ∧
      ¬restored.state.Alike s.state := by
  constructor
  · have taken : undoneAfter (.annotationUpdated (some (.of [("type", .str "note"), ("id", .str "a"), ("color", .str "red")])) .null)
        (fun s changed restored => (s.state.annotations.map (·.get "color"), restored.state.annotations.map (·.get "color"),
          decide (∃ r ∈ changed.activityLog, r.seq = changed.seq))) = some ([.null], [.str "red"], true) := by
      decide +kernel
    obtain ⟨s, changed, restored, history, op, inverse, run, accepted, undone, seen⟩ := undoneAfter_some taken
    simp only [Prod.mk.injEq, decide_eq_true_eq] at seen
    obtain ⟨before, kept, recorded⟩ := seen
    refine ⟨s, changed, restored, history, op, inverse, run, accepted, recorded, undone, before, kept, fun alike => ?_⟩
    have same := alike.annotations.map (Dict.get · "color")
    rw [List.map_map, List.map_map] at same
    change (restored.state.annotations.map (·.get "color")).Perm (s.state.annotations.map (·.get "color")) at same
    rw [before, kept] at same
    exact absurd (List.perm_singleton.mp same) (by decide)
  · have taken : undoneAfter (.nodeMoved (.str "n") (Position.toJson ⟨1, 2⟩))
        (fun s changed restored => (s.state.positions["n"]?, restored.state.positions["n"]?,
          decide (∃ r ∈ changed.activityLog, r.seq = changed.seq))) = some (none, some .origin, true) := by
      decide +kernel
    obtain ⟨s, changed, restored, history, op, inverse, run, accepted, undone, seen⟩ := undoneAfter_some taken
    simp only [Prod.mk.injEq, decide_eq_true_eq] at seen
    obtain ⟨before, kept, recorded⟩ := seen
    refine ⟨s, changed, restored, history, op, inverse, run, accepted, recorded, undone, before, kept, fun alike => ?_⟩
    rw [alike.positions, before] at kept
    cases kept

end Session

end MetadataGraph
