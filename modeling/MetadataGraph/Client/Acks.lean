import MetadataGraph.Client.Prediction

namespace MetadataGraph

namespace Client

/-! ### Acknowledgements -/

section Acked

variable (number : Json → Option ℚ)

/-- The higher one of two versions, per annotation and per field. -/
def withAckedVersions (current ann : Dict Json) : Dict Json :=
  withVersions (.num (max (numberOr number 0 (current.get "version")) (numberOr number 0 (ann.get "version"))))
    (.obj ((fieldVersionsOf ann).foldl (fun versions field v =>
      if numberOr number 0 (versions.get field) < numberOr number 0 v then versions.insert field (.num (numberOr number 0 v))
      else versions) (fieldVersionsOf current)).toList) ann

/-- `foldAckedAnnotationOp`. -/
def foldAckedAnnotationOp (mirrorState : Mirror) (op : AppliedOp (Dict Json)) : Mirror :=
  let mirror := normalizeMirror mirrorState
  match op.shared? with
  | none => applyOpToMirror mirror op
  | some ann =>
    if (ann.get "id").truthy then match mirror.annotations.find? (·.get "id" = ann.get "id") with
      | none => applyOpToMirror mirror op
      | some current => applyOpToMirror mirror (op.map (withAckedVersions number current))
    else applyOpToMirror mirror op

/-- The acknowledged ops that are folded. -/
def foldAcked (baseline : Mirror) (entries : List (AppliedOp (Dict Json))) : Mirror :=
  entries.foldl (fun baseline entry => if entry.shared?.any fun ann => (ann.get "id").truthy then
    foldAckedAnnotationOp number baseline entry else baseline) baseline

variable {number} {m : Mirror} {id : String}

theorem get_id_union {current ann : Dict Json} (same : current.get "id" = ann.get "id") :
    Dict.get (current ∪ ann) "id" = ann.get "id" := by
  rw [Dict.get, Std.ExtTreeMap.getElem?_union]
  cases here : ann["id"]? with
  | none => rw [Option.none_or, ← same]; rfl
  | some value => rw [Option.some_or, Dict.get, here]

theorem get?_annotationsById_singleton (a : Dict Json) (k : Json) :
    (annotationsById [a]).get? k = if k = a.get "id" ∧ k.truthy then some a else none := by
  rw [annotationsById, List.filter_cons, List.filter_nil]
  split
  · rename_i truthy
    rw [List.map_singleton, OrderedDict.ofList, List.foldl_cons, List.foldl_nil, OrderedDict.get?_set]
    by_cases here : k = a.get "id"
    · rw [if_pos here, if_pos ⟨here, here ▸ truthy⟩]
    · rw [if_neg here, if_neg fun both => here both.1]
      rfl
  · rename_i falsy
    rw [if_neg]
    · rfl
    · rintro ⟨rfl, truthy⟩
      exact falsy truthy

/-- A merge onto the first annotation with its id leaves the last one with an id as it is, or is a merge onto that. -/
theorem get?_mergeFirst {ann current : Dict Json} {annotations : List (Dict Json)}
    (found : annotations.find? (·.get "id" = ann.get "id") = some current) (k : Json) :
    (annotationsById (mergeFirst ann annotations)).get? k = (annotationsById annotations).get? k ∨
      k = ann.get "id" ∧ (annotationsById annotations).get? k = some current ∧
        (annotationsById (mergeFirst ann annotations)).get? k = some (current ∪ ann) := by
  induction annotations with
  | nil => cases found
  | cons a rest ih =>
    rw [← List.singleton_append, get?_annotationsById_append, get?_annotationsById_singleton]
    rw [List.find?_cons] at found
    rw [List.singleton_append, mergeFirst]
    split
    · rename_i same
      rw [decide_eq_true same] at found
      obtain rfl := Option.some.inj found
      rw [← List.singleton_append, get?_annotationsById_append, get?_annotationsById_singleton,
        get_id_union same]
      cases (annotationsById rest).get? k with
      | some b => exact .inl rfl
      | none =>
        by_cases here : k = ann.get "id" ∧ k.truthy = true
        · rw [if_pos here, if_pos ⟨same ▸ here.1, here.2⟩]
          exact .inr ⟨here.1, rfl, rfl⟩
        · rw [if_neg here, if_neg fun both => here ⟨same ▸ both.1, both.2⟩]
          exact .inl rfl
    · rename_i apart
      rw [decide_eq_false apart] at found
      rw [← List.singleton_append, get?_annotationsById_append, get?_annotationsById_singleton]
      rcases ih found with same | ⟨named, last, merged⟩
      · exact .inl (by rw [same])
      · rw [last, merged]
        exact .inr ⟨named, rfl, rfl⟩

theorem annotations_put {op : AppliedOp (Dict Json)} {ann : Dict Json} (shared : op.shared? = some ann) (m : Mirror) :
    (applyOpToMirror m op).annotations = putAnnotation ann m.annotations := by
  cases op <;> cases shared <;> rfl

/-- What a folded acknowledgement makes of a version. -/
theorem mark_foldAckedAnnotationOp {op : AppliedOp (Dict Json)} {ann : Dict Json} (shared : op.shared? = some ann)
    (truthy : (ann.get "id").truthy = true) (m : Mirror) (id : String) :
    mark? (foldAckedAnnotationOp number m op) id = mark? m id ∨ ann.get "id" = .str id ∧
      (mark? m id = none ∧ mark? (foldAckedAnnotationOp number m op) id = some (ann.get "version") ∨
        ∃ j, mark? m id = some j ∧ mark? (foldAckedAnnotationOp number m op) id =
          some (.num (max (numberOr number 0 j) (numberOr number 0 (ann.get "version"))))) := by
  rw [foldAckedAnnotationOp, shared]
  dsimp only
  rw [if_pos truthy]
  cases found : (normalizeMirror m).annotations.find? (·.get "id" = ann.get "id") with
  | none =>
    have absent : m.annotations.any (fun a => a.get "id" = ann.get "id") = false := by
      rw [← Bool.not_eq_true, List.any_eq_true]
      rintro ⟨a, member, same⟩
      exact List.find?_eq_none.mp found a member same
    dsimp only
    rw [mark?, mark?, annotation?, annotation?, annotations_put shared, putAnnotation, if_pos truthy,
      show (normalizeMirror m).annotations = m.annotations from rfl, if_neg (by rw [absent]; exact Bool.false_ne_true),
      get?_annotationsById_append, get?_annotationsById_singleton]
    by_cases here : Json.str id = ann.get "id" ∧ (Json.str id).truthy = true
    · have unknown : (annotationsById m.annotations).get? (.str id) = none := by
        cases known : (annotationsById m.annotations).get? (.str id) with
        | none => rfl
        | some a =>
          obtain ⟨member, own, -⟩ := id_of_get? known
          rw [List.any_eq_false] at absent
          exact (absent a member (by simpa using own.trans here.1)).elim
      rw [if_pos here, unknown]
      exact .inr ⟨here.1.symm, .inl ⟨rfl, rfl⟩⟩
    · rw [if_neg here, Option.none_or]
      exact .inl rfl
  | some current =>
    dsimp only
    have version := get_withVersions (.num (max (numberOr number 0 (current.get "version")) (numberOr number 0 (ann.get "version"))))
      (.obj ((fieldVersionsOf ann).foldl (fun versions field v =>
        if numberOr number 0 (versions.get field) < numberOr number 0 v then versions.insert field (.num (numberOr number 0 v))
        else versions) (fieldVersionsOf current)).toList) ann
    rw [← withAckedVersions] at version
    have shared' : (op.map (withAckedVersions number current)).shared? = some (withAckedVersions number current ann) := by
      rw [AppliedOp.shared?_map, shared, Option.map_some]
    have found' : m.annotations.find? (·.get "id" = (withAckedVersions number current ann).get "id") = some current := by
      rw [version.2]
      exact found
    have present : m.annotations.any (fun a => a.get "id" = (withAckedVersions number current ann).get "id") = true :=
      List.any_eq_true.mpr ⟨current, List.mem_of_find?_eq_some found', by
        have same := List.find?_some found'
        exact same⟩
    rw [mark?, mark?, annotation?, annotation?, annotations_put shared', putAnnotation, version.2, if_pos truthy,
      show (normalizeMirror m).annotations = m.annotations from rfl, ← version.2, if_pos present]
    rcases get?_mergeFirst found' (.str id) with same | ⟨named, last, merged⟩
    · exact .inl (by rw [same])
    · refine .inr ⟨named.symm, .inr ⟨current.get "version", ?_, ?_⟩⟩
      · rw [last, Option.map_some]
      · have held := Dict.getElem?_of_get_ne_null (by rw [version.1]; exact Json.noConfusion)
        rw [merged, Option.map_some, Dict.get, Std.ExtTreeMap.getElem?_union, held, Option.some_or, Option.getD_some, version.1]

/-- A version is not lowered by an acknowledgement. -/
def Below (mark mark' : Option Json) : Prop := ∀ j ∈ mark, ∃ k ∈ mark', rank j ≤ rank k

/-- An acknowledgement with a version of the store. -/
def Acks (entry : AppliedOp (Dict Json)) : Prop :=
  ∀ ann ∈ entry.shared?, ∃ v : ℚ, ann.get "version" = .num v ∧ 1 ≤ v

/-- The baseline has the acknowledged annotation, at no lower version. -/
def UpToDate (m : Mirror) (entry : AppliedOp (Dict Json)) : Prop :=
  ∀ ann ∈ entry.shared?, ∀ id, ann.get "id" = .str id → id ≠ "" →
    ∃ q, mark? m id = some (.num q) ∧ rank (ann.get "version") ≤ q

theorem Below.refl (mark : Option Json) : Below mark mark := fun j held => ⟨j, held, le_refl _⟩

theorem Below.trans {a b c : Option Json} (first : Below a b) (second : Below b c) : Below a c := by
  intro j held
  obtain ⟨k, heldK, bound⟩ := first j held
  obtain ⟨l, heldL, bound'⟩ := second k heldK
  exact ⟨l, heldL, bound.trans bound'⟩

theorem numberOr_zero (numeral : Numeral number) {q : ℚ} (positive : 1 ≤ q) : numberOr number 0 (.num q) = q := by
  rw [numberOr, numeral.num, Option.filter_some, if_pos, Option.getD_some]
  exact decide_eq_true (by rintro rfl; exact absurd positive (by norm_num))

theorem foldAckedAnnotationOp_spec (numeral : Numeral number) {entry : AppliedOp (Dict Json)} (acks : Acks entry)
    {ann : Dict Json} (shared : entry.shared? = some ann) (truthy : (ann.get "id").truthy = true)
    (sound : Sound (mark? m id)) :
    Sound (mark? (foldAckedAnnotationOp number m entry) id) ∧
      Below (mark? m id) (mark? (foldAckedAnnotationOp number m entry) id) ∧
      (id ≠ "" → UpToDate m entry → mark? (foldAckedAnnotationOp number m entry) id = mark? m id) := by
  obtain ⟨v, version, positive⟩ := acks ann shared
  rcases @mark_foldAckedAnnotationOp number entry ann shared truthy m id with same | ⟨named, ⟨absent, put⟩ | ⟨j, held, merged⟩⟩
  · rw [same]
    exact ⟨sound, Below.refl _, fun _ _ => rfl⟩
  · rw [put, absent, version]
    refine ⟨?_, fun j none => (by cases none), fun nonempty current => ?_⟩
    · rintro _ ⟨⟩
      exact .inr ⟨v, rfl, positive⟩
    · obtain ⟨q, known, -⟩ := current ann shared id named nonempty
      rw [absent] at known
      cases known
  · have high : 1 ≤ max (numberOr number 0 j) v := positive.trans (le_max_right _ _)
    rw [merged, version, numberOr_zero numeral positive, held]
    refine ⟨?_, ?_, fun nonempty current => ?_⟩
    · rintro _ ⟨⟩
      exact .inr ⟨_, rfl, high⟩
    · rintro _ ⟨⟩
      refine ⟨_, rfl, ?_⟩
      rw [rank_num high]
      rcases sound j held with rfl | ⟨q, rfl, first⟩
      · exact high
      · rw [numberOr_zero numeral first, rank_num first]
        exact le_max_left _ _
    · obtain ⟨q, known, bound⟩ := current ann shared id named nonempty
      rw [held] at known
      obtain rfl := Option.some.inj known
      rcases sound _ held with none | ⟨r, same, first⟩
      · cases none
      · obtain rfl := Json.num.inj same
        rw [version, rank_num positive] at bound
        rw [numberOr_zero numeral first, max_eq_left bound]

/-- Acknowledgements lower no version, and leave those alone that are up to date. -/
theorem foldAcked_spec (numeral : Numeral number) {entries : List (AppliedOp (Dict Json))} (acks : ∀ entry ∈ entries, Acks entry)
    (sound : ∀ id, Sound (mark? m id)) : (∀ id, Sound (mark? (foldAcked number m entries) id)) ∧
      (∀ id, Below (mark? m id) (mark? (foldAcked number m entries) id)) ∧
      ((∀ entry ∈ entries, UpToDate m entry) → ∀ id ≠ "", mark? (foldAcked number m entries) id = mark? m id) := by
  induction entries generalizing m with
  | nil => exact ⟨sound, fun _ => Below.refl _, fun _ _ _ => rfl⟩
  | cons entry entries ih =>
    have later : ∀ e ∈ entries, Acks e := fun e member => acks e (List.mem_cons_of_mem _ member)
    rw [foldAcked, List.foldl_cons]
    split
    · rename_i named
      obtain ⟨ann, shared, truthy⟩ := (Option.any_eq_true _ _).mp named
      have spec := fun id => foldAckedAnnotationOp_spec numeral (acks entry List.mem_cons_self) shared truthy (sound id)
      obtain ⟨sound', below', same'⟩ := ih (m := foldAckedAnnotationOp number m entry) later fun id => (spec id).1
      refine ⟨sound', fun id => (spec id).2.1.trans (below' id), fun current id nonempty => ?_⟩
      have here := fun id nonempty => (spec id).2.2 nonempty (current entry List.mem_cons_self)
      refine (same' (fun e member => ?_) id nonempty).trans (here id nonempty)
      intro a sharedA other namedA otherNonempty
      rw [here other otherNonempty]
      exact current e (List.mem_cons_of_mem _ member) a sharedA other namedA otherNonempty
    · exact (ih later sound).imp_right fun both => both.imp_right fun same current =>
        same fun e member => current e (List.mem_cons_of_mem _ member)

end Acked

/-! ### What the ops on their way are based on -/

/-- An update of the annotation is based on its version, or on a later one. -/
def Based (id : String) (mark : Option Json) (o : LocalOp) : Prop :=
  ∀ patch base, o.op = .annotationUpdated (some patch) base → patch.get "id" = .str id →
    ∀ j ∈ mark, base = .null ∨ ∃ q, base = .num q ∧ rank j ≤ q

/-- The ops find the version of the annotation no later than what they are based on, and leave it no later than the
version that the client has. -/
def Covered (id : String) : Option Json → List LocalOp → Option Json → Prop
  | mark, [], known => Below mark known
  | mark, o :: ops, known => Based id mark o ∧ Covered id (o.op.bump id mark) ops known

/-- The op names the annotation that it creates or updates. -/
def LocalOp.Named (o : LocalOp) : Prop :=
  ∀ ann, (o.op = .annotationCreated (some ann) ∨ ∃ base, o.op = .annotationUpdated (some ann) base) →
    ∃ id, ann.get "id" = .str id ∧ id ≠ ""

section Covered

variable {id : String} {mark mark' known known' : Option Json} {ops new : List LocalOp}

theorem bump_mono (op : StateOp) (below : Below mark mark') : Below (op.bump id mark) (op.bump id mark') := by
  by_cases versions : op.versions id = true
  · cases op with
    | annotationCreated payload =>
      cases payload with
      | none => exact below
      | some ann =>
        have here : ann.get "id" = .str id := by simpa [StateOp.versions] using versions
        rw [StateOp.bump, StateOp.bump, if_pos here, if_pos here]
        rintro _ ⟨⟩
        refine ⟨_, rfl, ?_⟩
        cases mark with
        | none =>
          rw [Option.map_none, Option.getD_none, zero_add]
          exact one_le_rank _
        | some j =>
          obtain ⟨k, rfl, bound⟩ := below j rfl
          rw [Option.map_some, Option.map_some, Option.getD_some, Option.getD_some, rank_num_succ, rank_num_succ]
          exact add_le_add_left bound 1
    | annotationUpdated payload base =>
      cases payload with
      | none => exact below
      | some patch =>
        have here : patch.get "id" = .str id := by simpa [StateOp.versions] using versions
        rw [StateOp.bump, StateOp.bump, if_pos here, if_pos here]
        intro _ held
        obtain ⟨j, heldJ, rfl⟩ := Option.map_eq_some_iff.mp held
        obtain ⟨k, rfl, bound⟩ := below j heldJ
        refine ⟨_, rfl, ?_⟩
        rw [rank_num_succ, rank_num_succ]
        exact add_le_add_left bound 1
    | annotationDeleted annotationId other =>
      have here : annotationId.orElse other = .str id := by simpa [StateOp.versions] using versions
      rw [StateOp.bump, if_pos here]
      rintro _ ⟨⟩
    | _ => cases versions
  · have other := Bool.not_eq_true _ ▸ versions
    rw [StateOp.bump_of_not other, StateOp.bump_of_not other]
    exact below

/-- Only a deletion loses a version. -/
theorem below_bump {op : StateOp} (kept : ∀ a b, op ≠ .annotationDeleted a b) : Below mark (op.bump id mark) := by
  cases op with
  | annotationCreated payload =>
    cases payload with
    | none => exact Below.refl _
    | some ann =>
      rw [StateOp.bump]
      split
      · intro j held
        rw [Option.mem_def.mp held]
        exact ⟨_, rfl, by rw [Option.map_some, Option.getD_some, rank_num_succ]; exact le_add_of_nonneg_right zero_le_one⟩
      · exact Below.refl _
  | annotationUpdated payload base =>
    cases payload with
    | none => exact Below.refl _
    | some patch =>
      rw [StateOp.bump]
      split
      · intro j held
        rw [Option.mem_def.mp held]
        exact ⟨_, rfl, by rw [rank_num_succ]; exact le_add_of_nonneg_right zero_le_one⟩
      · exact Below.refl _
  | annotationDeleted a b => exact absurd rfl (kept a b)
  | _ => exact Below.refl _

theorem Based.mono (below : Below mark' mark) {o : LocalOp} (based : Based id mark o) : Based id mark' o := by
  intro patch base named here j held
  obtain ⟨k, heldK, bound⟩ := below j held
  exact (based patch base named here k heldK).imp_right fun ⟨q, same, later⟩ => ⟨q, same, bound.trans later⟩

theorem Covered.mono (below : Below mark' mark) (covered : Covered id mark ops known) : Covered id mark' ops known := by
  induction ops generalizing mark mark' with
  | nil => exact below.trans covered
  | cons o ops ih => exact ⟨covered.1.mono below, ih (bump_mono o.op below) covered.2⟩

theorem Covered.learn (covered : Covered id mark ops known) (below : Below known known') : Covered id mark ops known' := by
  induction ops generalizing mark with
  | nil => exact Below.trans covered below
  | cons o ops ih => exact ⟨covered.1, ih covered.2⟩

theorem Covered.append (covered : Covered id mark ops known) (more : Covered id known new known') :
    Covered id mark (ops ++ new) known' := by
  induction ops generalizing mark with
  | nil => exact more.mono covered
  | cons o ops ih => exact ⟨covered.1, ih covered.2⟩

/-- Ops that make nothing of the version under an id do not matter for it. -/
theorem covered_of_filter (covered : Covered id mark (ops.filter fun o => o.op.versions id) known) :
    Covered id mark ops known := by
  induction ops generalizing mark with
  | nil => exact covered
  | cons o ops ih =>
    rw [List.filter_cons] at covered
    split at covered
    · exact ⟨covered.1, ih covered.2⟩
    · rename_i other
      refine ⟨fun patch base named here => ?_, ?_⟩
      · rw [named, StateOp.versions, decide_eq_true here] at other
        exact absurd rfl other
      · rw [StateOp.bump_of_not (Bool.not_eq_true _ ▸ other)]
        exact ih covered

/-- The ops of a call of `syncState` are based on the baseline. -/
theorem covered_syncState {number : Json → Option ℚ} (numeral : Numeral number) {baseline : Mirror} (state : Mirror)
    (sound : Sound (mark? baseline id)) :
    Covered id (mark? baseline id) (syncState number baseline state).2 (mark? (syncState number baseline state).1 id) := by
  rw [mark_syncState numeral baseline state sound]
  apply covered_of_filter
  rw [← bumps_filter, syncState]
  dsimp only
  rw [computeOps_versions]
  split
  · rename_i ann shown
    cases known : annotation? baseline id with
    | none => exact ⟨fun patch base named => (by cases named), Below.refl _⟩
    | some before =>
      rw [versionOps, updateOps]
      split
      · exact Below.refl _
      · refine ⟨fun patch base named here j held => ?_, Below.refl _⟩
        have same : j = before.get "version" := by
          rw [mark?, known] at held
          exact (Option.some.inj held).symm
        obtain ⟨-, rfl⟩ := StateOp.annotationUpdated.inj named
        rw [← same]
        refine (sound j held).imp_right fun numbered => ?_
        obtain ⟨q, number, positive⟩ := numbered
        exact ⟨q, number, by rw [number, rank_num positive]⟩
  · split
    · exact ⟨fun patch base named => (by cases named), Below.refl _⟩
    · exact Below.refl _

end Covered

end Client

end MetadataGraph
