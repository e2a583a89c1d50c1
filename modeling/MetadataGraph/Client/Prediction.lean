import MetadataGraph.Client.Drift
import MetadataGraph.Session.Versions

namespace MetadataGraph

/-- The op makes something of the version under an id. -/
def StateOp.versions (id : String) (op : StateOp) : Bool :=
  match op with
  | .annotationCreated (some ann) | .annotationUpdated (some ann) _ => ann.get "id" = .str id
  | .annotationDeleted annotationId other => annotationId.orElse other = .str id
  | _ => false

/-- The op is about annotations. -/
def StateOp.annotates : StateOp → Bool
  | .annotationCreated _ | .annotationUpdated _ _ | .annotationDeleted _ _ | .groupMembershipChanged _ _ => true
  | _ => false

def AppliedOp.annotates {α : Type} : AppliedOp α → Bool
  | .annotationCreated _ | .annotationUpdated _ | .annotationDeleted _ | .groupMembershipChanged _ _ => true
  | _ => false

theorem StateOp.versions_of_annotates {op : StateOp} (quiet : op.annotates = false) (id : String) : op.versions id = false := by
  cases op with
  | annotationCreated _ => cases quiet
  | annotationUpdated _ _ => cases quiet
  | annotationDeleted _ _ => cases quiet
  | groupMembershipChanged _ _ => cases quiet
  | _ => rfl

theorem StateOp.bump_of_not {id : String} {op : StateOp} (other : op.versions id = false) (mark : Option Json) :
    op.bump id mark = mark := by
  cases op with
  | annotationCreated payload =>
    cases payload with
    | none => rfl
    | some ann => exact if_neg (by simpa [versions] using other)
  | annotationUpdated payload base =>
    cases payload with
    | none => rfl
    | some ann => exact if_neg (by simpa [versions] using other)
  | annotationDeleted annotationId second => exact if_neg (by simpa [versions] using other)
  | _ => rfl

namespace Client

/-- What ops make of the version under an id, one after the other. -/
def bumps (id : String) (ops : List LocalOp) (mark : Option Json) : Option Json :=
  ops.foldl (fun mark o => o.op.bump id mark) mark

theorem bumps_filter (id : String) (ops : List LocalOp) (mark : Option Json) :
    bumps id (ops.filter fun o => o.op.versions id) mark = bumps id ops mark := by
  rw [bumps, bumps]
  induction ops generalizing mark with
  | nil => rfl
  | cons o ops ih =>
    cases names : o.op.versions id with
    | true => rw [List.filter_cons, if_pos names, List.foldl_cons, List.foldl_cons, ih]
    | false =>
      rw [List.filter_cons, if_neg (by rw [names]; exact Bool.false_ne_true), List.foldl_cons,
        StateOp.bump_of_not names, ih]

/-- The annotation that the client has under an id. -/
def annotation? (m : Mirror) (id : String) : Option (Dict Json) := (annotationsById m.annotations).get? (.str id)

/-- The version that the client has under an id. -/
def mark? (m : Mirror) (id : String) : Option Json := ( annotation? m id).map (·.get "version")

theorem get?_annotationsById_append (front back : List (Dict Json)) (k : Json) :
    (annotationsById (front ++ back)).get? k = ((annotationsById back).get? k).or ((annotationsById front).get? k) := by
  rw [annotationsById, List.filter_append, List.map_append, OrderedDict.get?_ofList_append]
  rfl

theorem get?_annotationsById_map {f : Dict Json → Dict Json} (keeps : ∀ a, (f a).get "id" = a.get "id")
    (annotations : List (Dict Json)) (k : Json) :
    (annotationsById (annotations.map f)).get? k = ((annotationsById annotations).get? k).map f := by
  rw [annotationsById, annotationsById, OrderedDict.map_get?_ofList, List.filter_map, List.map_map, List.map_map]
  simp only [Function.comp_def, keeps]

/-- An annotation stands under its own id. -/
theorem id_of_get? {annotations : List (Dict Json)} {k : Json} {a : Dict Json}
    (found : (annotationsById annotations).get? k = some a) : a ∈ annotations ∧ a.get "id" = k ∧ k.truthy = true := by
  obtain ⟨b, member, same⟩ := List.mem_map.mp (OrderedDict.mem_of_get?_ofList found)
  obtain ⟨rfl, rfl⟩ := Prod.mk.inj same
  exact ⟨(List.mem_filter.mp member).1, rfl, (List.mem_filter.mp member).2⟩

section Named

variable {prev next : Mirror} {id : String}

theorem annotates_idsOp {op : Json → StateOp} (quiet : ∀ value, (op value).annotates = false) (ids : List String) :
    ∀ o ∈ idsOp op ids, o.annotates = false := by
  intro o member
  rw [idsOp] at member
  split at member
  · cases member
  · rw [List.mem_singleton.mp member]
    exact quiet _

theorem annotates_setOps (set : IdSet) : ∀ o ∈ setOps prev next set, o.annotates = false := by
  intro o member
  rcases List.mem_append.mp member with gained | lost
  · exact annotates_idsOp (fun _ => rfl) _ o gained
  · exact annotates_idsOp (fun _ => rfl) _ o lost

theorem annotates_canvasOps : ∀ o ∈ canvasOps prev next, o.annotates = false := by
  intro o member
  simp only [canvasOps, List.mem_append] at member
  rcases member with (((((added | moved) | set) | set) | set) | set) | intensity
  · exact annotates_idsOp (fun _ => rfl) _ o added
  · rw [positionOps] at moved
    split at moved
    · rw [List.mem_singleton.mp moved]
      rfl
    · obtain ⟨entry, -, rfl⟩ := List.mem_map.mp moved
      rfl
  · exact annotates_setOps _ o set
  · exact annotates_setOps _ o set
  · exact annotates_setOps _ o set
  · exact annotates_setOps _ o set
  · rw [intensityOps] at intensity
    split at intensity
    · rw [List.mem_singleton.mp intensity]
      rfl
    · cases intensity

theorem get_id_diffAnnotationFields (ignoreMembers : Bool) (before ann : Dict Json) :
    (diffAnnotationFields ignoreMembers before ann).get "id" = ann.get "id" := by
  rw [diffAnnotationFields, Dict.get, Dict.get, Std.ExtTreeMap.getElem?_filter']
  cases ann["id"]? with
  | none => rfl
  | some value => rw [Option.filter_some, if_pos (by simp)]

/-- The ops for an annotation that advance its version. -/
def versionOps (before : Option (Dict Json)) (ann : Dict Json) : List LocalOp :=
  match before with
  | none => [{ op := .annotationCreated (some ann), touched := ann.keys }]
  | some before => updateOps (ann.get "kind" = .str "group") before ann

theorem filter_updateOps {ignoreMembers : Bool} {before ann : Dict Json} (k : String) :
    (updateOps ignoreMembers before ann).filter (fun o => o.op.versions k) =
      if ann.get "id" = .str k then updateOps ignoreMembers before ann else [] := by
  rw [updateOps]
  split
  · exact (ite_self _).symm
  · simp only [List.filter_cons, List.filter_nil, StateOp.versions, get_id_diffAnnotationFields, decide_eq_true_eq]

theorem filter_annotationOps (before : Option (Dict Json)) (entryId : Json) (ann : Dict Json) (k : String) :
    (annotationOps before entryId ann).filter (fun o => o.op.versions k) =
      if ann.get "id" = .str k then versionOps before ann else [] := by
  cases before with
  | none => simp only [annotationOps, versionOps]; simp only [List.filter_cons, List.filter_nil, StateOp.versions, decide_eq_true_eq]
  | some before =>
    simp only [annotationOps, versionOps]
    by_cases group : ann.get "kind" = .str "group"
    · rw [if_pos group, List.filter_append, filter_updateOps, decide_eq_true group]
      have unversioned : (if (memberIds before).Perm (memberIds ann) then ([] : List LocalOp)
          else [{ op := .groupMembershipChanged entryId (.arr (memberIds ann)) }]).filter (fun o => o.op.versions k) = [] := by
        split <;> rfl
      rw [unversioned, List.nil_append]
    · rw [if_neg group, filter_updateOps, decide_eq_false group]

theorem filter_deletions (prevAnn nextAnn : OrderedDict Json (Dict Json))
    (truthy : ∀ k ∈ prevAnn.keys, k.truthy = true) (id : String) :
    ((prevAnn.keys.filter (· ∉ nextAnn.keys)).map fun k => ({ op := .annotationDeleted k .null } : LocalOp)).filter
      (fun o => o.op.versions id) =
      if (prevAnn.get? (.str id)).isSome && (nextAnn.get? (.str id)).isNone then
        [{ op := .annotationDeleted (.str id) .null }] else [] := by
  have named : ∀ k ∈ prevAnn.keys.filter (· ∉ nextAnn.keys),
      (StateOp.annotationDeleted k .null).versions id = decide (k = .str id) := by
    intro k member
    rw [StateOp.versions, Json.orElse, if_pos (truthy k (List.mem_filter.mp member).1)]
  rw [List.filter_map, Function.comp_def, List.filter_congr named, List.filter_eq]
  have member : Json.str id ∈ prevAnn.keys.filter (· ∉ nextAnn.keys) ↔
      ((prevAnn.get? (.str id)).isSome && (nextAnn.get? (.str id)).isNone) = true := by
    rw [List.mem_filter, decide_eq_true_eq, Bool.and_eq_true, OrderedDict.mem_keys, ← OrderedDict.get?_eq_none,
      Option.isSome_iff_exists, Option.isNone_iff_eq_none]
  have distinct : (prevAnn.keys.filter (· ∉ nextAnn.keys)).Nodup := prevAnn.distinct.filter _
  split
  · rename_i gone
    rw [List.count_eq_one_of_mem distinct (member.mpr gone)]
    rfl
  · rename_i there
    rw [List.count_eq_zero_of_not_mem (mt member.mp there)]
    rfl

/-- Of a diff, the ops that make something of the version under an id. -/
theorem computeOps_versions (prev next : Mirror) (id : String) :
    (computeOps prev next).filter (fun o => o.op.versions id) =
      match annotation? next id with
      | some ann => versionOps ( annotation? prev id) ann
      | none => if ( annotation? prev id).isSome then [{ op := .annotationDeleted (.str id) .null }] else [] := by
  have none_of : ∀ ops : List StateOp, (∀ o ∈ ops, o.annotates = false) →
      (ops.map (LocalOp.mk · [])).filter (fun o => o.op.versions id) = [] := by
    intro ops quiet
    rw [List.filter_eq_nil_iff]
    intro o member
    obtain ⟨op, inside, rfl⟩ := List.mem_map.mp member
    rw [StateOp.versions_of_annotates (quiet op inside)]
    exact Bool.false_ne_true
  have others : ∀ entry ∈ (annotationsById next.annotations).entries, entry.1 ≠ .str id →
      (annotationOps ((annotationsById prev.annotations).get? entry.1) entry.1 entry.2).filter
        (fun o => o.op.versions id) = [] := by
    intro entry member apart
    rw [filter_annotationOps, if_neg]
    rw [(id_of_get? (OrderedDict.get?_eq_some.mpr member)).2.1]
    exact apart
  have truthy : ∀ k ∈ (annotationsById prev.annotations).keys, k.truthy = true := by
    intro k member
    obtain ⟨a, found⟩ := OrderedDict.mem_keys.mp member
    exact (id_of_get? found).2.2
  rw [computeOps, List.filter_append, List.filter_append, none_of _ annotates_canvasOps,
    none_of (removalOps _ _) (annotates_idsOp (fun _ => rfl) _), List.nil_append, List.append_nil, annotationsOps]
  rw [show (normalizeMirror prev).annotations = prev.annotations from rfl,
    show (normalizeMirror next).annotations = next.annotations from rfl]
  rw [List.filter_append, List.filter_flatMap, OrderedDict.flatMap_entries others]
  refine (congrArg (_ ++ ·) (filter_deletions _ _ truthy id)).trans ?_
  rw [ annotation?, annotation?]
  cases now : (annotationsById next.annotations).get? (.str id) with
  | none => simp
  | some ann =>
    have own := (id_of_get? now).2.1
    rw [Option.map_some, Option.getD_some, filter_annotationOps, if_pos own]
    simp

end Named

section Predict

variable {number : Json → Option ℚ} {prev next : Mirror} {id : String}

/-- `Number` on the values that a version can have. -/
structure Numeral (number : Json → Option ℚ) : Prop where
  num : ∀ q, number (.num q) = some q
  null : (number .null).filter (fun q => q ≠ 0) = none

/-- A version that the store has set, or none. -/
def Sound (mark : Option Json) : Prop := ∀ j ∈ mark, j = .null ∨ ∃ q, j = .num q ∧ 1 ≤ q

theorem numberOr_sound (numeral : Numeral number) {j : Json} (sound : j = .null ∨ ∃ q, j = .num q ∧ 1 ≤ q) :
    numberOr number 1 j = rank j := by
  rcases sound with rfl | ⟨q, rfl, positive⟩
  · rw [numberOr, numeral.null]
    rfl
  · rw [numberOr, numeral.num, rank_num positive, Option.filter_some, if_pos, Option.getD_some]
    exact decide_eq_true (by rintro rfl; exact absurd positive (by norm_num))

theorem get_withVersions (version fieldVersions : Json) (ann : Dict Json) :
    (withVersions version fieldVersions ann).get "version" = version ∧
      (withVersions version fieldVersions ann).get "id" = ann.get "id" := by
  simp [withVersions, Dict.get_insert]

/-- The key of a prediction is the id under which its op makes something of the version. -/
theorem predicted_versions {baselineAnn : OrderedDict Json (Dict Json)} {o : LocalOp} {entry : Json × ℚ × Dict Json}
    (made : predicted number baselineAnn o = some entry) (key : entry.1 = .str id) : o.op.versions id = true := by
  obtain ⟨op, touched⟩ := o
  cases op with
  | annotationCreated payload =>
    cases payload with
    | none => cases made
    | some patch =>
      simp only [predicted] at made
      split at made
      · cases made
      · cases held : baselineAnn.get? (patch.get "id") with
        | none =>
          rw [held] at made
          cases made
          exact decide_eq_true key
        | some before =>
          rw [held] at made
          cases made
          exact decide_eq_true key
  | annotationUpdated payload base =>
    cases payload with
    | none => cases made
    | some patch =>
      simp only [predicted] at made
      split at made
      · cases made
      · cases made
        exact decide_eq_true key
  | _ => cases made

theorem predicted_filter (baselineAnn : OrderedDict Json (Dict Json)) (ops : List LocalOp) (id : String) :
    (OrderedDict.ofList (ops.filterMap (predicted number baselineAnn))).get? (.str id) =
      (OrderedDict.ofList ((ops.filter fun o => o.op.versions id).filterMap (predicted number baselineAnn))).get? (.str id) := by
  rw [← OrderedDict.get?_ofList_filter, ← OrderedDict.get?_ofList_filter (( ops.filter _).filterMap _)]
  congr 2
  induction ops with
  | nil => rfl
  | cons o ops ih =>
    rw [List.filter_cons]
    cases made : predicted number baselineAnn o with
    | none =>
      rw [List.filterMap_cons_none made, ih]
      split
      · rw [List.filterMap_cons_none made]
      · rfl
    | some entry =>
      rw [List.filterMap_cons_some made, List.filter_cons, ih]
      split
      · rename_i key
        rw [if_pos (predicted_versions made (by simpa using key)), List.filterMap_cons_some made, List.filter_cons,
          if_pos key]
      · rename_i other
        split
        · rw [List.filterMap_cons_some made, List.filter_cons, if_neg other]
        · rfl

theorem get_withKnownVersions (known a : Dict Json) : (withKnownVersions known a).get "version" = known.get "version" ∧
    (withKnownVersions known a).get "id" = a.get "id" := by
  constructor
  · rw [Dict.get, Dict.get, withKnownVersions, Std.ExtTreeMap.getElem?_union, Std.ExtTreeMap.getElem?_filter',
      Std.ExtTreeMap.getElem?_erase, Std.ExtTreeMap.getElem?_erase]
    cases known["version"]? with
    | none => simp
    | some version => simp [Option.filter_some]
  · rw [Dict.get, Dict.get, withKnownVersions, Std.ExtTreeMap.getElem?_union, Std.ExtTreeMap.getElem?_filter',
      Std.ExtTreeMap.getElem?_erase, Std.ExtTreeMap.getElem?_erase]
    cases known["id"]? <;> simp

theorem get_id_withPrediction (overrides : OrderedDict Json (ℚ × Dict Json)) (baselineAnn : OrderedDict Json (Dict Json))
    (a : Dict Json) : (withPrediction overrides baselineAnn a).get "id" = a.get "id" := by
  rw [withPrediction]
  split
  · cases overrides.get? (a.get "id") with
    | some prediction => exact (get_withVersions _ _ _).2
    | none => cases baselineAnn.get? (a.get "id") with
      | some known => exact (get_withKnownVersions known a).2
      | none => rfl
  · rfl

theorem annotation?_predict {baseline next : Mirror} {ops : List LocalOp} {id : String} :
    annotation? (predictAnnotationVersionsForSend number baseline next ops) id =
      ( annotation? next id).map (withPrediction
        (OrderedDict.ofList (ops.filterMap (predicted number (annotationsById baseline.annotations))))
        (annotationsById baseline.annotations)) :=
  get?_annotationsById_map (get_id_withPrediction _ _) _ _

/-- What a call of `syncState` makes of the versions is what its ops are expected to make of them. -/
theorem mark_syncState (numeral : Numeral number) (baseline state : Mirror) (sound : Sound (mark? baseline id)) :
    mark? (syncState number baseline state).1 id = bumps id (syncState number baseline state).2 (mark? baseline id) := by
  have next : annotation? (normalizeMirror state) id = annotation? state id := rfl
  rw [← bumps_filter, syncState, mark?, annotation?_predict]
  dsimp only
  rw [computeOps_versions, next]
  cases shown : annotation? state id with
  | none =>
    rw [mark?]
    cases known : annotation? baseline id with
    | none => rfl
    | some before =>
      rw [Option.map_none, Option.map_none]
      simp [bumps, StateOp.bump, Json.orElse, (id_of_get? known).2.2]
  | some ann =>
    have own := (id_of_get? shown).2
    have overrides := @predicted_filter number (annotationsById baseline.annotations)
      (computeOps baseline (normalizeMirror state)) id
    rw [computeOps_versions, next, shown] at overrides
    rw [Option.map_some, Option.map_some, withPrediction, own.1, if_pos own.2, overrides, mark?,
      show (annotationsById baseline.annotations).get? (.str id) = annotation? baseline id from rfl]
    cases known : annotation? baseline id with
    | none =>
      have first : predicted number (annotationsById baseline.annotations)
          { op := .annotationCreated (some ann), touched := ann.keys } = some (.str id, 1, ∅) := by
        have absent : (annotationsById baseline.annotations).get? (.str id) = none := known
        simp only [predicted, own.1, own.2, absent, Bool.not_true, Bool.false_eq_true, if_false]
      have override : (OrderedDict.ofList ((versionOps none ann).filterMap
          (predicted number (annotationsById baseline.annotations)))).get? (.str id) = some (1, ∅) := by
        rw [versionOps, List.filterMap_cons_some first, List.filterMap_nil, OrderedDict.ofList, List.foldl_cons, List.foldl_nil,
          OrderedDict.get?_set, if_pos rfl]
      rw [override]
      rw [(get_withVersions _ _ _).1]
      simp only [versionOps, bumps, List.foldl_cons, List.foldl_nil, StateOp.bump]
      rw [if_pos own.1, Option.map_none, Option.map_none, Option.getD_none, zero_add]
    | some before =>
      have ops : versionOps (some before) ann = updateOps (ann.get "kind" = .str "group") before ann := rfl
      dsimp only
      rw [ops, updateOps]
      by_cases same : annotationsEqual (ann.get "kind" = .str "group") before ann = true
      · rw [if_pos same, List.filterMap_nil, show (OrderedDict.ofList ([] : List (Json × ℚ × Dict Json))).get? (.str id) = none from rfl]
        dsimp only
        rw [(get_withKnownVersions before ann).1]
        rfl
      · have patchId := get_id_diffAnnotationFields (ann.get "kind" = .str "group") before ann
        have held : (annotationsById baseline.annotations).get? (.str id) = some before := known
        have version : numberOr number 1 (before.get "version") = rank (before.get "version") :=
          numberOr_sound numeral (sound _ (by rw [mark?, known]; rfl))
        have advanced : ∃ fieldVersions, predicted number (annotationsById baseline.annotations)
            { op := .annotationUpdated (some (diffAnnotationFields (ann.get "kind" = .str "group") before ann)) (before.get "version")
              touched := changedKeys (ann.get "kind" = .str "group") before ann } =
            some (.str id, rank (before.get "version") + 1, fieldVersions) := by
          simp only [predicted, patchId, own.1, own.2, held, Bool.not_true, Bool.false_eq_true, if_false, Option.map_some,
            Option.getD_some, version]
          exact ⟨_, rfl⟩
        obtain ⟨fieldVersions, advanced⟩ := advanced
        rw [if_neg same, List.filterMap_cons_some advanced, List.filterMap_nil, OrderedDict.ofList, List.foldl_cons, List.foldl_nil,
          OrderedDict.get?_set, if_pos rfl]
        rw [(get_withVersions _ _ _).1, bumps, List.foldl_cons, List.foldl_nil, StateOp.bump]
        rw [if_pos (patchId.trans own.1), Option.map_some, Option.map_some]

theorem sound_bump {op : StateOp} {mark : Option Json} (sound : Sound mark) : Sound (op.bump id mark) := by
  have counted : ∀ j, rank (.num (rank j + 1)) = rank j + 1 ∧ 1 ≤ rank j + 1 :=
    fun j => ⟨rank_num_succ j, (one_le_rank j).trans (le_add_of_nonneg_right zero_le_one)⟩
  by_cases other : op.versions id = true
  · intro j held
    cases op with
    | annotationCreated payload =>
      cases payload with
      | none => cases other
      | some ann =>
        rw [StateOp.bump, if_pos (by simpa [StateOp.versions] using other)] at held
        refine .inr ⟨_, (Option.some.inj held).symm, ?_⟩
        cases mark with
        | none => simp
        | some k => exact (counted k).2
    | annotationUpdated payload base =>
      cases payload with
      | none => cases other
      | some ann =>
        rw [StateOp.bump, if_pos (by simpa [StateOp.versions] using other)] at held
        obtain ⟨k, -, rfl⟩ := Option.map_eq_some_iff.mp held
        exact .inr ⟨_, rfl, (counted k).2⟩
    | annotationDeleted annotationId second =>
      rw [StateOp.bump, if_pos (by simpa [StateOp.versions] using other)] at held
      cases held
    | _ => cases other
  · rw [StateOp.bump_of_not (Bool.not_eq_true _ ▸ other)]
    exact sound

end Predict

end Client

end MetadataGraph
