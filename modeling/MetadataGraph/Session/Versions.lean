import MetadataGraph.Session.Content
import MetadataGraph.Session.UndoChain

namespace MetadataGraph

open ObjectHeap

/-- The `version` key of an annotation. -/
def Annotation.mark (a : Annotation) : Json := (a.version.map fun v : Nat => Json.num v).getD .null

/-- A version as a number: what is no version yet counts as the first. -/
def rank : Json → ℚ
  | .num q => max 1 q
  | _ => 1

/-- The version of the annotation with this id, if there is one. -/
def Session.mark? (s : Session Annotation) (id : String) : Option Json := (s.state.find id).map Annotation.mark

/-- What an op that is applied makes of the version of the annotation with this id. -/
def StateOp.bump (id : String) (op : StateOp) (mark : Option Json) : Option Json :=
  match op with
  | .annotationCreated (some ann) =>
    if ann.get "id" = .str id then some (.num ((mark.map rank).getD 0 + 1)) else mark
  | .annotationUpdated (some patch) _ => if patch.get "id" = .str id then mark.map fun j => .num (rank j + 1) else mark
  | .annotationDeleted annotationId other => if annotationId.orElse other = .str id then none else mark
  | _ => mark

/-- The op names the annotation that it creates. -/
def StateOp.NamesCreated (op : StateOp) : Prop := ∀ ann, op = .annotationCreated (some ann) → ∃ id, ann.get "id" = .str id

/-- An annotation none of whose fields is newer than the annotation itself. -/
structure Annotation.Versioned (a : Annotation) : Prop where
  positive : a.version ≠ some 0
  fields : ∀ (f : String) (v : Nat), a.fieldVersions[f]? = some v → v ≤ a.priorVersion

theorem one_le_rank (j : Json) : 1 ≤ rank j := by
  cases j with
  | num q => exact le_max_left 1 q
  | _ => exact le_refl 1

theorem rank_num {q : ℚ} (positive : 1 ≤ q) : rank (.num q) = q := max_eq_right positive

theorem rank_num_succ (j : Json) : rank (.num (rank j + 1)) = rank j + 1 :=
  rank_num ((one_le_rank j).trans (le_add_of_nonneg_right zero_le_one))

namespace Annotation

theorem rank_mark (a : Annotation) : rank a.mark = a.priorVersion := by
  rw [mark, priorVersion]
  rcases a.version with _ | _ | v
  · exact Nat.cast_one.symm
  · exact max_eq_left (Nat.cast_zero.trans_le zero_le_one)
  · exact max_eq_right (by exact_mod_cast Nat.succ_pos v)

theorem priorVersion_pos (a : Annotation) : 1 ≤ a.priorVersion := by
  rw [priorVersion]
  rcases a.version with _ | _ | v
  · exact le_refl 1
  · exact le_refl 1
  · exact Nat.succ_pos v

theorem mark_merge (stamp : Nat) (target : Annotation) (incoming : Dict Json) :
    (target.merge stamp incoming).mark = .num (rank target.mark + 1) := by
  rw [rank_mark, mark, merge, Option.map_some, Option.getD_some, Nat.cast_succ]

theorem getElem?_foldl_insert {fields : List String} {versions : Dict Nat} {n v : Nat} {f : String}
    (found : (fields.foldl (fun versions field => versions.insert field n) versions)[f]? = some v) :
    v = n ∨ versions[f]? = some v := by
  induction fields generalizing versions with
  | nil => exact .inr found
  | cons field fields ih =>
    rcases ih found with new | old
    · exact .inl new
    · rw [Std.ExtTreeMap.getElem?_insert] at old
      split at old
      · exact .inl (Option.some.inj old).symm
      · exact .inr old

theorem versioned_upheld : Annotation.Upheld Versioned where
  fresh _ := by
    refine ⟨fun same => ?_, fun f v found => ?_⟩
    · cases same
    · cases found.symm.trans (Std.ExtTreeMap.getElem?_empty (a := f))
  merge := by
    intro stamp target payload requireId incoming id versioned _ _ _
    have prior : (target.merge stamp incoming).priorVersion = target.priorVersion + 1 := rfl
    refine ⟨fun same => ?_, fun f v found => ?_⟩
    · cases same
    · rw [prior]
      rcases getElem?_foldl_insert found with new | old
      · exact new.le
      · exact (versioned.fields f v old).trans (Nat.le_succ _)
  members _ versioned := ⟨versioned.positive, versioned.fields⟩
  stamped _ versioned := ⟨versioned.positive, versioned.fields⟩

end Annotation

/-! ### What an op does to a version -/

/-- A change that keeps the ids keeps what it keeps of each annotation under its id. -/
theorem find?_map_congr {β : Type} {f : Annotation → β} {old new : List Annotation}
    (same : List.Forall₂ (fun a b : Annotation => a.get "id" = b.get "id" ∧ f a = f b) old new) (id : String) :
    (new.find? (·.hasId id)).map f = (old.find? (·.hasId id)).map f := by
  induction same with
  | nil => rfl
  | @cons a b old new both _ ih =>
    have named : b.hasId id = a.hasId id := by rw [ Annotation.hasId, Annotation.hasId, both.1]
    rw [List.find?_cons, List.find?_cons, named]
    split
    · rw [Option.map_some, Option.map_some, both.2]
    · exact ih

namespace Session

variable {cfg : StoreConfig} {env : Env} {client : String} {trusted : Bool} {s : Session Annotation}

theorem get_id_freshAnnotation {ann : Dict Json} {id : String} (named : ann.get "id" = .str id) :
    ( freshAnnotation env client ann).get "id" = .str id := by
  simp only [ freshAnnotation, named, Json.string?_str, Option.isSome_some, if_true, Annotation.get]
  split
  · exact named
  · rw [Dict.get_insert, if_neg (by decide), named]

/-- A merge advances the version of its annotation alone. -/
theorem mark_mergeEffect {ann : Dict Json} {id : String} {target : Annotation} (sent : ann.get "id" = .str id)
    (found : s.state.find id = some target) (other : String) :
    ((replaceFirst (·.hasId id) (target.merge env.stamp ann) s.state.annotations).find? (·.hasId other)).map Annotation.mark =
      if id = other then some (.num (rank target.mark + 1)) else s.mark? other := by
  have named : (target.merge env.stamp ann).hasId id = true :=
    Annotation.hasId_iff.mpr (( Annotation.get_id_merge (State.hasId_of_find found) sent env.stamp).trans
      ( Annotation.hasId_iff.mp (State.hasId_of_find found)))
  split
  · rename_i same
    subst same
    rw [find?_replaceFirst found named, Option.map_some, Annotation.mark_merge]
  · rename_i differ
    rw [find?_replaceFirst_of_ne (Ne.symm differ) named]
    rfl

theorem plan_mark (op : StateOp) (names : op.NamesCreated) :
    (s.plan cfg env client trusted op).Satisfies (fun e => ∀ id,
      ((e.edit.contents s.state.annotations).find? (·.hasId id)).map Annotation.mark = op.bump id (s.mark? id))
      fun _ _ => True := by
  cases op with
  | nodesRemoved nodeIds =>
    apply validated_satisfies trivial
    intro removals valid
    dsimp only
    split
    · trivial
    · rename_i contents filtered
      refine find?_map_congr (dropMembers_forall₂ (fun a b filtered => ?_) filtered)
      unfold Annotation.withoutMembers at filtered
      split at filtered
      · cases filtered
        exact ⟨rfl, rfl⟩
      · split at filtered
        · cases filtered
          exact ⟨( Annotation.get_id_withMembers _ _).symm, rfl⟩
        · cases filtered
  | annotationCreated payload =>
    apply validated_satisfies trivial
    intro ann valid
    obtain ⟨sent, rfl, same⟩ := validatePayload_id valid
    obtain ⟨id, named⟩ := names sent rfl
    rw [named] at same
    dsimp only
    rw [same, Json.string?_str]
    split
    · trivial
    · split
      · trivial
      · split
        · rename_i held target sentId found
          obtain rfl := Option.some.inj sentId
          split
          · trivial
          · intro other
            rw [Option.bind_some] at found
            refine (mark_mergeEffect same found other).trans ?_
            simp only [StateOp.bump, named, Json.str.injEq]
            split
            · rename_i here
              subst here
              rw [mark?, found]
              rfl
            · rfl
        · rename_i absent
          split
          · trivial
          · intro other
            have none : s.state.find id = none := by
              cases found : s.state.find id with
              | none => rfl
              | some target => exact (absent id target rfl (by rw [Option.bind_some, found])).elim
            have fresh := @ get_id_freshAnnotation env client _ _ same
            simp only [AnnotationEdit.contents, List.find?_append, StateOp.bump, named, Json.str.injEq]
            split
            · rename_i here
              subst here
              have held : ( freshAnnotation env client ann).hasId id = true := Annotation.hasId_iff.mpr fresh
              have first : ( freshAnnotation env client ann).mark = .num 1 := by rw [ Annotation.mark, freshAnnotation]; rfl
              rw [show s.state.annotations.find? (·.hasId id) = Option.none from none, Option.none_or, List.find?_cons, held,
                mark?, none, Option.map_some, first, Option.map_none, Option.map_none, Option.getD_none, zero_add]
            · rename_i differ
              have apart : ( freshAnnotation env client ann).hasId other = false := by
                rw [ Annotation.hasId, fresh]
                simpa using differ
              have none : [ freshAnnotation env client ann].find? (·.hasId other) = Option.none := by
                rw [List.find?_cons, apart, List.find?_nil]
              rw [none, Option.or_none]
              rfl
  | annotationUpdated payload baseVersion =>
    apply validated_satisfies trivial
    intro incoming valid
    obtain ⟨sent, rfl, same⟩ := validatePayload_id valid
    dsimp only
    split
    · trivial
    · rename_i id named
      rw [Json.string?_eq_some, same] at named
      rw [named] at same
      split
      · trivial
      · rename_i target found
        have merged : ∀ other, ((replaceFirst (·.hasId id) (target.merge env.stamp incoming) s.state.annotations).find?
            (·.hasId other)).map Annotation.mark =
            (StateOp.annotationUpdated (some sent) baseVersion).bump other (s.mark? other) := by
          intro other
          refine (mark_mergeEffect same found other).trans ?_
          simp only [StateOp.bump, named, Json.str.injEq]
          split
          · rename_i here
            subst here
            rw [mark?, found]
            rfl
          · rfl
        repeat' split
        all_goals first | exact merged | trivial
  | annotationDeleted annotationId id =>
    simp only [plan, planAnnotationDeleted]
    split
    · rename_i removed named
      intro other
      simp only [AnnotationEdit.contents, StateOp.bump, named, Json.str.injEq]
      split
      · rename_i same
        subst same
        rw [List.find?_eq_none.mpr, Option.map_none]
        intro a member
        simpa using (List.mem_filter.mp member).2
      · rename_i differ
        rw [find?_remove (Ne.symm differ)]
        rfl
    · trivial
  | groupMembershipChanged groupId members =>
    simp only [plan, planGroupMembershipChanged]
    split
    · apply validated_satisfies trivial
      intro members valid
      split
      · trivial
      · rename_i group found
        refine find?_map_congr (replaceFirst_forall₂ (fun _ => ⟨rfl, rfl⟩) found ⟨?_, rfl⟩)
        exact ( Annotation.get_id_withMembers _ _).symm
    · trivial
  | nodeMoved nodeId position =>
    simp only [plan, planNodeMoved]
    split
    · exact validated_satisfies trivial fun _ _ _ => rfl
    · trivial
  | sessionRenamed name =>
    simp only [plan, planSessionRenamed]
    split
    · exact fun _ => rfl
    · exact fun _ => rfl
    · trivial
  | _ => exact validated_satisfies trivial fun _ _ _ => rfl

/-- An op that is applied advances the versions as it does for each id. -/
theorem mark_applied {call : Call} {applied : Applied Annotation} {t : Session Annotation}
    (accepted : s.applyStateOp cfg call = .applied applied t) (names : call.op.NamesCreated) (id : String) :
    t.mark? id = call.op.bump id (s.mark? id) := by
  have planned : (s.judge cfg call).Satisfies _ _ := plan_mark call.op names
  unfold applyStateOp at accepted
  split at accepted
  · cases accepted
  · cases accepted
  · rename_i e verdict
    rw [verdict] at planned
    obtain ⟨-, rfl⟩ := Outcome.applied.inj accepted
    exact planned id

theorem versioned_applied {call : Call} {applied : Applied Annotation} {t : Session Annotation}
    (accepted : s.applyStateOp cfg call = .applied applied t) (versioned : ∀ a ∈ s.state.annotations, a.Versioned) :
    ∀ a ∈ t.state.annotations, a.Versioned := by
  have planned : (s.judge cfg call).Satisfies _ _ := plan_upholds Annotation.versioned_upheld versioned call.op
  unfold applyStateOp at accepted
  split at accepted
  · cases accepted
  · cases accepted
  · rename_i e verdict
    rw [verdict] at planned
    obtain ⟨-, rfl⟩ := Outcome.applied.inj accepted
    exact planned

theorem validated_eq_drop {α : Type} {checked : Except Failure α} {accept : α → Verdict}
    (dropped : s.validated checked accept = .drop) : ∃ value, checked = .ok value ∧ accept value = .drop := by
  cases checked with
  | error failure => cases dropped
  | ok value => exact ⟨value, rfl, dropped⟩

/-- An op that is dropped creates under an id that the session remembers as deleted, or it would have left
the versions as they are. -/
theorem mark_dropped {call : Call} (dropped : s.applyStateOp cfg call = .dropped) :
    (∃ ann id, call.op = .annotationCreated (some ann) ∧ ann.get "id" = .str id ∧ id ∈ s.deletedAnnotationIds) ∨
      ∀ id, call.op.bump id (s.mark? id) = s.mark? id := by
  have planned : s.plan cfg call.env call.client call.trustedReplay call.op = .drop := by
    unfold applyStateOp at dropped
    split at dropped
    · assumption
    · cases dropped
    · cases dropped
  clear dropped
  revert planned
  cases call.op with
  | annotationCreated payload =>
    intro planned
    cases payload with
    | none => exact .inr fun _ => rfl
    | some sent =>
      obtain ⟨ann, valid, dropped⟩ := validated_eq_drop planned
      obtain ⟨_, same, ids⟩ := validatePayload_id valid
      obtain rfl := Option.some.inj same
      dsimp only at dropped
      split at dropped
      · rename_i held
        obtain ⟨id, named, deleted⟩ := (Option.any_eq_true _ _).mp held
        exact .inl ⟨sent, id, rfl, ids ▸ Json.string?_eq_some.mp named, by simpa using deleted⟩
      · repeat' split at dropped
        all_goals cases dropped
  | annotationUpdated payload baseVersion =>
    intro planned
    cases payload with
    | none => exact .inr fun _ => rfl
    | some sent =>
      obtain ⟨incoming, valid, dropped⟩ := validated_eq_drop planned
      obtain ⟨_, same, ids⟩ := validatePayload_id valid
      obtain rfl := Option.some.inj same
      refine .inr fun other => ?_
      simp only [StateOp.bump]
      split
      · rename_i here
        rw [← ids] at here
        dsimp only at dropped
        rw [here, Json.string?_str] at dropped
        dsimp only at dropped
        split at dropped
        · rename_i absent
          rw [mark?, absent]
          rfl
        · repeat' split at dropped
          all_goals cases dropped
      · rfl
  | annotationDeleted annotationId id =>
    intro planned
    simp only [plan, planAnnotationDeleted] at planned
    split at planned <;> cases planned
  | _ => exact fun _ => .inr fun _ => rfl

end Session

/-! ### Conflicts -/

def Failure.isConflict : Failure → Bool
  | .annotationFieldConflict _ _ _ => true
  | _ => false

/-- The op raises no `AnnotationFieldConflict`. -/
def Verdict.Peaceful : Verdict → Prop
  | .reject failure _ _ => failure.isConflict = false
  | _ => True

theorem requireIdList_peaceful {opName key : String} {value : Json} {failure : Failure}
    (failed : requireIdList opName key value = .error failure) : failure.isConflict = false := by
  unfold requireIdList at failed
  split at failed <;> cases failed
  rfl

theorem validatePosition_peaceful {value : Json} {failure : Failure} (failed : validatePosition value = .error failure) :
    failure.isConflict = false := by
  unfold validatePosition at failed
  split at failed <;> cases failed
  rfl

theorem validateIntensity_peaceful {value : Json} {failure : Failure} (failed : validateIntensity value = .error failure) :
    failure.isConflict = false := by
  unfold validateIntensity at failed
  split at failed <;> cases failed
  rfl

theorem requireEdges_peaceful {opName : String} {value : Json} {failure : Failure}
    (failed : requireEdges opName value = .error failure) : failure.isConflict = false := by
  unfold requireEdges at failed
  split at failed
  · split at failed <;> cases failed
    rfl
  · cases failed
    rfl

theorem validatePositions_peaceful {positions : Option (Dict Json)} {failure : Failure}
    (failed : validatePositions positions = .error failure) : failure.isConflict = false := by
  unfold validatePositions at failed
  split at failed
  · cases failed
    rfl
  · split at failed <;> cases failed
    rfl

theorem validatePayload_peaceful {payload : Option (Dict Json)} {requireId : Bool} {failure : Failure}
    (failed : validatePayload payload requireId = .error failure) : failure.isConflict = false := by
  unfold validatePayload at failed
  dsimp only at failed
  repeat' split at failed
  all_goals cases failed
  all_goals rfl

namespace Session

variable {cfg : StoreConfig} {env : Env} {client : String} {trusted : Bool} {s : Session Annotation}

theorem validated_peaceful {α : Type} {checked : Except Failure α} {accept : α → Verdict}
    (refused : ∀ failure, checked = .error failure → failure.isConflict = false)
    (accepted : ∀ value, checked = .ok value → (accept value).Peaceful) : (s.validated checked accept).Peaceful := by
  cases checked with
  | error failure => exact refused failure rfl
  | ok value => exact accepted value rfl

/-- An update is based on its annotation as it is, or on what came after it. -/
def Based (s : Session Annotation) (op : StateOp) : Prop :=
  ∀ patch base id, op = .annotationUpdated (some patch) base → patch.get "id" = .str id →
    ∀ j, s.mark? id = some j → base = .null ∨ ∃ q, base = .num q ∧ rank j ≤ q

theorem fieldConflicts_eq_nil {target : Annotation} (versioned : target.Versioned) {base : Int}
    (current : (target.priorVersion : Int) ≤ base) (incoming : Dict Json) : fieldConflicts target incoming base = [] := by
  rw [fieldConflicts, List.filter_eq_nil_iff]
  intro conflict member
  obtain ⟨f, -, rfl⟩ := List.mem_map.mp member
  simp only [decide_eq_true_eq, not_lt]
  refine le_trans ?_ current
  have first := target.priorVersion_pos
  rw [Std.ExtTreeMap.getD_eq_getD_getElem?]
  cases found : target.fieldVersions[f]? with
  | none => exact_mod_cast first
  | some v => exact_mod_cast versioned.fields f v found

theorem plan_peaceful (versioned : ∀ a ∈ s.state.annotations, a.Versioned) {op : StateOp} (based : s.Based op) :
    (s.plan cfg env client trusted op).Peaceful := by
  cases op with
  | annotationUpdated payload baseVersion =>
    refine validated_peaceful (fun _ => validatePayload_peaceful) fun incoming valid => ?_
    obtain ⟨sent, rfl, same⟩ := validatePayload_id valid
    dsimp only
    split
    · trivial
    · rename_i id named
      rw [Json.string?_eq_some, same] at named
      split
      · trivial
      · rename_i target found
        split
        · rfl
        · split
          · rfl
          · split
            · trivial
            · rename_i given
              split
              · rfl
              · rename_i base number
                split
                · trivial
                · rename_i conflicts
                  refine (conflicts (fieldConflicts_eq_nil (versioned target (State.mem_of_find found)) ?_ incoming)).elim
                  have held : s.mark? id = some target.mark := by rw [mark?, found, Option.map_some]
                  rcases based sent baseVersion id rfl named target.mark held with rfl | ⟨q, rfl, bound⟩
                  · simp at given
                  · rw [ Annotation.rank_mark] at bound
                    simp only [Json.integer?] at number
                    split at number
                    · rename_i whole
                      obtain rfl := Option.some.inj number
                      rw [← (Rat.den_eq_one_iff q).mp whole] at bound
                      exact_mod_cast bound
                    · cases number
  | annotationCreated payload =>
    refine validated_peaceful (fun _ => validatePayload_peaceful) fun ann valid => ?_
    dsimp only
    repeat' split
    all_goals first | rfl | trivial
  | nodesRemoved nodeIds =>
    refine validated_peaceful (fun _ => requireIdList_peaceful) fun removals valid => ?_
    dsimp only
    split
    · rfl
    · trivial
  | nodeMoved nodeId position =>
    simp only [plan, planNodeMoved]
    split
    · exact validated_peaceful (fun _ => validatePosition_peaceful) fun _ _ => trivial
    · rfl
  | annotationDeleted annotationId id =>
    simp only [plan, planAnnotationDeleted]
    split
    · trivial
    · rfl
  | groupMembershipChanged groupId members =>
    simp only [plan, planGroupMembershipChanged]
    split
    · refine validated_peaceful (fun _ => requireIdList_peaceful) fun members valid => ?_
      split
      · rfl
      · trivial
    · rfl
  | sessionRenamed name =>
    simp only [plan, planSessionRenamed]
    split
    · trivial
    · trivial
    · rfl
  | nodesAdded nodeIds => exact validated_peaceful (fun _ => requireIdList_peaceful) fun _ _ => trivial
  | idsAdded set ids => exact validated_peaceful (fun _ => requireIdList_peaceful) fun _ _ => trivial
  | idsDropped set ids => exact validated_peaceful (fun _ => requireIdList_peaceful) fun _ _ => trivial
  | edgesAdded edges => exact validated_peaceful (fun _ => requireEdges_peaceful) fun _ _ => trivial
  | edgesRemoved ids => exact validated_peaceful (fun _ => requireIdList_peaceful) fun _ _ => trivial
  | edgesUpdated edges => exact validated_peaceful (fun _ => requireEdges_peaceful) fun _ _ => trivial
  | edgeIntensitySet value => exact validated_peaceful (fun _ => validateIntensity_peaceful) fun _ _ => trivial
  | layoutApplied positions => exact validated_peaceful (fun _ => validatePositions_peaceful) fun _ _ => trivial

/-- An op that is based on what is there is not refused for a conflict. -/
theorem raised_peaceful {call : Call} {failure : Failure} {t : Session Annotation}
    (raised : s.applyStateOp cfg call = .raised failure t) (versioned : ∀ a ∈ s.state.annotations, a.Versioned)
    (based : s.Based call.op) : failure.isConflict = false := by
  have planned : (s.judge cfg call).Peaceful := plan_peaceful versioned based
  unfold applyStateOp at raised
  split at raised
  · cases raised
  · rename_i verdict
    rw [verdict] at planned
    cases raised
    exact planned
  · cases raised

end Session

/-! ### The objects -/

theorem Verdict.Satisfies.mono {P Q : Effect → Prop} {leaves : Canvas → List Annotation → Prop} {v : Verdict}
    (holds : v.Satisfies P leaves) (weaker : ∀ e, P e → Q e) : v.Satisfies Q leaves := by
  cases v with
  | accept e => exact weaker e holds
  | drop => trivial
  | reject failure canvas contents => exact holds

/-- An annotation that the store has given a version. -/
def Annotation.Counted (a : Annotation) : Prop := ∃ v, a.version = some (v + 1)

namespace Session

variable {cfg : StoreConfig} {env : Env} {client : String} {trusted : Bool} {s : Session Annotation}

/-- What holds between an annotation and what every way of rewriting it makes of it. -/
structure Rewrites (R : Annotation → Annotation → Prop) : Prop where
  refl : ∀ a, R a a
  members : ∀ a members, R a (a.withMembers members)
  stamped : ∀ a members stamp, R a { a.withMembers members with updatedAt := stamp }
  merge : ∀ stamp target incoming, R target (target.merge stamp incoming)

end Session

/-- The op removes the annotation with this id. -/
def StateOp.Deletes (id : String) : StateOp → Prop
  | .annotationDeleted annotationId other => annotationId.orElse other = .str id
  | _ => False

instance (id : String) (op : StateOp) : Decidable (op.Deletes id) := by
  unfold StateOp.Deletes
  split <;> infer_instance

namespace Session

variable {cfg : StoreConfig} {env : Env} {client : String} {trusted : Bool} {s : Session Annotation}

/-- The ways in which an op rewrites an annotation: a merge, the removal of members with their nodes, and
a new list of members for a group. -/
inductive Change (op : StateOp) (a : Annotation) : Annotation → Prop
  | same : Change op a a
  | merged (stamp : Nat) {incoming : Dict Json} (named : incoming.get "id" = a.get "id") : Change op a (a.merge stamp incoming)
  | filtered {nodeIds : Json} {drop : List String} {b : Annotation} (removal : op = .nodesRemoved nodeIds)
      (listed : nodeIds.strings? = some drop) (filtered : a.withoutMembers drop = some b) : Change op a b
  | regrouped {id : String} {list : Json} {members : List String} (stamp : Option Nat)
      (regrouping : op = .groupMembershipChanged (.str id) list) (listed : list.strings? = some members)
      (group : isGroup id a = true) : Change op a { a.withMembers (members.map .str) with updatedAt := stamp }

/-- What an edit of the annotations does to those that were there. -/
def Changes (op : StateOp) (old : List Annotation) : AnnotationEdit → Prop
  | .rewrite contents => List.Forall₂ (Change op) old contents
  | .append _ => True
  | .remove id => op.Deletes id

theorem requireIdList_ok {opName key : String} {value : Json} {ids : List String}
    (valid : requireIdList opName key value = .ok ids) : value.strings? = some ids := by
  unfold requireIdList at valid
  split at valid
  · rename_i listed
    cases valid
    exact listed
  · cases valid

/-- Every annotation that an op rewrites changes in one of these ways. -/
theorem plan_changes (op : StateOp) : (s.plan cfg env client trusted op).Satisfies
    (fun e => Changes op s.state.annotations e.edit) fun _ _ => True := by
  have same : Changes op s.state.annotations (.rewrite s.state.annotations) :=
    List.forall₂_same.mpr fun a _ => .same
  have found_id : ∀ {id target} {incoming : Dict Json}, s.state.find id = some target → incoming.get "id" = .str id →
      incoming.get "id" = target.get "id" := fun found sent =>
    sent.trans ( Annotation.hasId_iff.mp (State.hasId_of_find found)).symm
  cases op with
  | nodesRemoved nodeIds =>
    apply validated_satisfies trivial
    intro removals valid
    dsimp only
    split
    · trivial
    · rename_i contents filtered
      exact dropMembers_forall₂ (fun a b filtered => .filtered rfl (requireIdList_ok valid) filtered) filtered
  | annotationCreated payload =>
    apply validated_satisfies trivial
    intro ann valid
    dsimp only
    split
    · trivial
    · split
      · trivial
      · split
        · rename_i id target sent found
          split
          · trivial
          · rw [sent, Option.bind_some] at found
            exact replaceFirst_forall₂ (fun _ => .same) found (.merged _ (found_id found (Json.string?_eq_some.mp sent)))
        · split
          · trivial
          · trivial
  | annotationUpdated payload baseVersion =>
    apply validated_satisfies trivial
    intro incoming valid
    dsimp only
    split
    · trivial
    · rename_i id sent
      split
      · trivial
      · rename_i target found
        have merged : Changes (.annotationUpdated payload baseVersion) s.state.annotations
            (.rewrite (replaceFirst (·.hasId id) (target.merge env.stamp incoming) s.state.annotations)) :=
          replaceFirst_forall₂ (fun _ => .same) found (.merged _ (found_id found (Json.string?_eq_some.mp sent)))
        repeat' split
        all_goals first | exact merged | trivial
  | annotationDeleted annotationId id =>
    simp only [plan, planAnnotationDeleted]
    split
    · rename_i removed named
      exact named
    · trivial
  | groupMembershipChanged groupId members =>
    simp only [plan, planGroupMembershipChanged]
    split
    · apply validated_satisfies trivial
      intro members valid
      split
      · trivial
      · rename_i group found
        exact replaceFirst_forall₂ (fun _ => .same) found
          (.regrouped _ rfl (requireIdList_ok valid) (List.find?_some found))
    · trivial
  | nodeMoved nodeId position =>
    simp only [plan, planNodeMoved]
    split
    · exact validated_satisfies trivial fun _ _ => same
    · trivial
  | sessionRenamed name =>
    simp only [plan, planSessionRenamed]
    split
    · exact same
    · exact same
    · trivial
  | _ => exact validated_satisfies trivial fun _ _ => same

theorem plan_rewrites {R : Annotation → Annotation → Prop} (rewrites : Rewrites R) (op : StateOp) :
    (s.plan cfg env client trusted op).Satisfies
      (fun e => ∀ contents, e.edit = .rewrite contents → List.Forall₂ R s.state.annotations contents) fun _ _ => True := by
  refine Verdict.Satisfies.mono (plan_changes op) fun e changes contents rewrite => ?_
  rw [rewrite] at changes
  refine List.Forall₂.imp (fun a b change => ?_) changes
  cases change with
  | same => exact rewrites.refl a
  | merged stamp named => exact rewrites.merge stamp a _
  | regrouped stamp regrouping listed group => exact rewrites.stamped a _ stamp
  | filtered removal listed filtered =>
    unfold Annotation.withoutMembers at filtered
    split at filtered
    · cases filtered
      exact rewrites.refl a
    · split at filtered
      · cases filtered
        exact rewrites.members a _
      · cases filtered

/-- An op that names an annotation leaves it with a version. -/
theorem plan_counted (op : StateOp) : (s.plan cfg env client trusted op).Satisfies
    (fun e => ∀ i ∈ e.applied.shared?, ((e.edit.contents s.state.annotations).getD i default).Counted) fun _ _ => True := by
  have unnamed : ∀ i : Nat, i ∈ (none : Option Nat) → ((s.state.annotations).getD i default).Counted := by
    rintro i ⟨⟩
  have merged : ∀ (target : Annotation) stamp incoming, (target.merge stamp incoming).Counted :=
    fun target stamp incoming => ⟨target.priorVersion, rfl⟩
  cases op with
  | nodesRemoved nodeIds =>
    apply validated_satisfies trivial
    intro removals valid
    dsimp only
    split
    · trivial
    · rintro i ⟨⟩
  | annotationCreated payload =>
    apply validated_satisfies trivial
    intro ann valid
    dsimp only
    split
    · trivial
    · split
      · trivial
      · split
        · rename_i id target sent found
          split
          · trivial
          · rintro _ ⟨⟩
            rw [sent, Option.bind_some] at found
            exact (getD_replaceFirst found).symm ▸ merged _ _ _
        · split
          · trivial
          · rintro _ ⟨⟩
            refine ⟨0, ?_⟩
            simp [AnnotationEdit.contents, freshAnnotation]
  | annotationUpdated payload baseVersion =>
    apply validated_satisfies trivial
    intro incoming valid
    dsimp only
    split
    · trivial
    · rename_i id sent
      split
      · trivial
      · rename_i target found
        have named : ∀ i ∈ some (s.state.annotations.findIdx (·.hasId id)),
            ((replaceFirst (·.hasId id) (target.merge env.stamp incoming) s.state.annotations).getD i default).Counted := by
          rintro _ ⟨⟩
          exact (getD_replaceFirst found).symm ▸ merged _ _ _
        repeat' split
        all_goals first | exact named | trivial
  | annotationDeleted annotationId id =>
    simp only [plan, planAnnotationDeleted]
    split
    · rintro i ⟨⟩
    · trivial
  | groupMembershipChanged groupId members =>
    simp only [plan, planGroupMembershipChanged]
    split
    · apply validated_satisfies trivial
      intro members valid
      split
      · trivial
      · rintro i ⟨⟩
    · trivial
  | nodeMoved nodeId position =>
    simp only [plan, planNodeMoved]
    split
    · exact validated_satisfies trivial fun _ _ => unnamed
    · trivial
  | sessionRenamed name =>
    simp only [plan, planSessionRenamed]
    split
    · exact unnamed
    · exact unnamed
    · trivial
  | _ => exact validated_satisfies trivial fun _ _ => unnamed

theorem counted_rewrites : Rewrites fun a b : Annotation => a.Counted → b.Counted where
  refl _ counted := counted
  members _ _ counted := counted
  stamped _ _ _ counted := counted
  merge _ target _ _ := ⟨target.priorVersion, rfl⟩

end Session

namespace Memory

variable {cfg : StoreConfig} {call : Call} {m after : Memory}

/-- What an op makes of the objects, where it relates what it rewrites to what was there. -/
theorem read_applied {R : Annotation → Annotation → Prop} (rewrites : Session.Rewrites R) (wf : m.Wf)
    {applied : Applied Ref} (accepted : m.applyStateOp cfg call = .applied applied after) {r : Ref} (held : r < m.heap.size) :
    R (m.heap.read r) (after.heap.read r) := by
  have fits : (m.view.judge cfg call).Satisfies _ _ := Session.judge_fits call
  have planned : (m.view.judge cfg call).Satisfies _ _ := Session.plan_rewrites rewrites call.op
  unfold applyStateOp at accepted
  cases verdict : m.view.judge cfg call with
  | drop =>
    rw [verdict] at accepted
    cases accepted
  | reject failure canvas contents =>
    rw [verdict] at accepted
    cases accepted
  | accept e =>
    rw [verdict] at accepted planned fits
    cases accepted
    change R (m.heap.read r) ((m.edit e.edit).1.read r)
    cases kind : e.edit with
    | append ann =>
      rw [show (m.edit (.append ann)).1.read r = m.heap.read r from Heap.read_allocAll_of_lt held _]
      exact rewrites.refl _
    | remove id => exact rewrites.refl _
    | rewrite contents =>
      have related := planned contents kind
      have lengths := related.length_eq
      rw [view_annotations, List.length_map] at lengths
      by_cases member : r ∈ m.refs
      · have read := Heap.map_read_writeAll wf.distinct wf.stateValid lengths
        obtain ⟨i, inside, rfl⟩ := List.getElem_of_mem member
        rw [view_annotations, ← read, List.forall₂_map_left_iff, List.forall₂_map_right_iff] at related
        exact List.forall₂_iff_get.mp related |>.2 i inside inside
      · rw [show (m.edit (.rewrite contents)).1.read r = m.heap.read r from Heap.read_writeAll_of_notMem member _]
        exact rewrites.refl _

/-- The annotation that an applied op names has a version. -/
theorem counted_applied (wf : m.Wf) {applied : Applied Ref} (accepted : m.applyStateOp cfg call = .applied applied after) :
    ∀ r ∈ applied.op.shared?, (after.heap.read r).Counted := by
  have planned : (m.view.judge cfg call).Satisfies _ _ := Session.plan_counted call.op
  have viewed := view_applied wf accepted
  unfold Session.applyStateOp at viewed
  split at viewed
  · cases viewed
  · cases viewed
  · rename_i e verdict
    rw [verdict] at planned
    have same := congrArg Applied.op (Outcome.applied.inj viewed).1
    intro r named
    have shown : after.heap.read r ∈ (applied.map after.heap.read).op.shared? := by
      rw [Applied.map, AppliedOp.shared?_map]
      exact Option.mem_map_of_mem _ named
    rw [← same, AppliedOp.at, AppliedOp.shared?_map] at shown
    obtain ⟨i, listed, read⟩ := Option.mem_map.mp shown
    rw [← read]
    exact planned i listed

end Memory

end MetadataGraph
