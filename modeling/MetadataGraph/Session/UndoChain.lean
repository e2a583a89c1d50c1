import MetadataGraph.Session.Recovery
import MetadataGraph.Session.Undo

namespace MetadataGraph

open Runs

/-- The annotation that a recorded op concerns, also when it is a new one. -/
def Call.annotationId? (call : Call) : Option String :=
  match call.op with
  | .annotationCreated payload => payload.map fun ann => (ann.get "id").string?.getD call.env.freshId
  | .annotationUpdated payload _ => payload.bind fun ann => (ann.get "id").string?
  | .annotationDeleted annotationId id => (annotationId.orElse id).string?
  | _ => none

namespace Session

/-- The deleted-annotation memory after an op: as it was, or with an annotation that was held. -/
def Forgets (s : Session Annotation) (deleted : List String) : Prop :=
  deleted = s.deletedAnnotationIds ∨ ∃ id a, s.state.find id = some a ∧
    deleted = boundedAppend deletedIdsMax s.deletedAnnotationIds id

/-- What a recorded effect has done: its target is as recorded, and it has touched no other
annotation. -/
structure Records (s : Session Annotation) (call : Call) (e : Effect) (d : ActivityDraft) : Prop where
  target : currentSnapshotFor (e.state s.state.annotations) d.affected = d.after
  frame : ∀ id, d.affected ≠ .annotationId id → (e.state s.state.annotations).find id = s.state.find id
  named : ∀ id, d.affected = .annotationId id → call.annotationId? = some id
  gone : ∀ id, d.affected = .annotationId id → call.op.deletes = true → d.after = .annotationValue none
  forgets : s.Forgets e.deletedAnnotationIds
  undrawn : d.inverseOp.draws = false
  creation : d.inverseOp = .annotationDeleted (.str "") .null → call.annotationId? = some "" ∧ s.state.find "" = none
  deletion : ∀ ann id, d.inverseOp = .annotationCreated (some ann) → ann.get "id" = .str id →
    (s.state.find id).isSome ∧ e.deletedAnnotationIds = boundedAppend deletedIdsMax s.deletedAnnotationIds id

variable {cfg : StoreConfig} {s : Session Annotation} {call : Call}

/-- An effect that leaves the annotations and the memory of deleted ones alone. -/
theorem records_of_quiet {e : Effect} {d : ActivityDraft} (quiet : e.edit = .rewrite s.state.annotations)
    (memory : e.deletedAnnotationIds = s.deletedAnnotationIds)
    (target : currentSnapshotFor (e.state s.state.annotations) d.affected = d.after)
    (other : ∀ id, d.affected ≠ .annotationId id) (undrawn : d.inverseOp.draws = false)
    (kind : (∀ ann, d.inverseOp ≠ .annotationCreated ann) ∧ ∀ a b, d.inverseOp ≠ .annotationDeleted a b) :
    s.Records call e d where
  target := target
  frame := by
    intro id _
    rw [Effect.state, quiet]
    rfl
  named := fun id same => absurd same (other id)
  gone := fun id same => absurd same (other id)
  forgets := Or.inl memory
  undrawn := undrawn
  creation := fun same => absurd same (kind.2 _ _)
  deletion := fun _ _ same => absurd same (kind.1 _)

theorem sorted_filter_self {added ids : List String} (sorted : added.Pairwise (· ≤ ·)) (all : ∀ i ∈ added, i ∈ ids) :
    (added.filter (· ∈ ids)).insertionSort (· ≤ ·) = added := by
  rw [List.filter_eq_self.mpr fun i member => decide_eq_true (all i member)]
  exact sorted.insertionSort_eq

theorem find?_replaceFirst {p : Annotation → Bool} {replacement target : Annotation} {old : List Annotation}
    (found : old.find? p = some target) (again : p replacement = true) :
    (replaceFirst p replacement old).find? p = some replacement := by
  induction old with
  | nil => cases found
  | cons a old ih =>
    rw [List.find?_cons] at found
    rw [replaceFirst]
    cases here : p a with
    | true => rw [if_pos rfl, List.find?_cons, again]
    | false =>
      rw [here] at found
      rw [if_neg Bool.false_ne_true, List.find?_cons, here]
      exact ih found

theorem mergeEffect_records {ann : Dict Json} {id : String} {target : Annotation} {applied : Nat → AppliedOp Nat}
    (sent : (ann.get "id").string? = some id) (found : s.state.find id = some target)
    (named : call.annotationId? = some id) (kept : call.op.deletes = false) :
    ∀ d, (s.mergeEffect call.env id target ann applied).activity = some d →
      s.Records call (s.mergeEffect call.env id target ann applied) d := by
  rintro d ⟨⟩
  have held := State.hasId_of_find found
  have again : (target.merge call.env.stamp ann).hasId id = true := by
    rw [ Annotation.hasId_iff, Annotation.get_id_merge held (Json.string?_eq_some.mp sent)]
    exact Annotation.hasId_iff.mp held
  refine ⟨?_, ?_, ?_, ?_, Or.inl rfl, rfl, ?_, ?_⟩
  · exact congrArg Snapshot.annotationValue (find?_replaceFirst found again)
  · intro other differs
    exact find?_replaceFirst_of_ne (fun same => differs (by rw [same])) again _
  · rintro _ ⟨⟩
    exact named
  · intro _ _ deletes
    rw [kept] at deletes
    cases deletes
  · rintro ⟨⟩
  · rintro _ _ ⟨⟩

theorem annotationCreated_records {payload : Option (Dict Json)} (op : call.op = .annotationCreated payload) :
    (s.planAnnotationCreated cfg call.env call.client call.trustedReplay payload).Satisfies
      (fun e => ∀ d, e.activity = some d → s.Fresh call.env → s.Records call e d) fun _ _ => True := by
  apply validated_satisfies trivial
  intro ann valid
  obtain ⟨t, listed, type, kind, -⟩ := validatePayload_typed valid
  obtain ⟨-, named⟩ := freshAnnotation_typed call.env call.client listed type kind
  obtain ⟨sent, rfl, sameId⟩ := validatePayload_id valid
  have concerns : call.annotationId? = some ((ann.get "id").string?.getD call.env.freshId) := by
    rw [Call.annotationId?, op, sameId]
    rfl
  have kept : call.op.deletes = false := by rw [op]; rfl
  dsimp only
  split
  · trivial
  · split
    · trivial
    · split
      · rename_i id target incoming found
        split
        · trivial
        · rw [incoming, Option.bind_some] at found
          rw [incoming, Option.getD_some] at concerns
          exact fun d drafted _ => mergeEffect_records incoming found concerns kept d drafted
      · rename_i unmatched
        split
        · trivial
        · rintro d ⟨⟩ fresh
          have absent : s.state.find ((ann.get "id").string?.getD call.env.freshId) = none := by
            cases incoming : (ann.get "id").string? with
            | none =>
              refine List.find?_eq_none.mpr fun a member held => fresh a member ?_
              exact Annotation.hasId_iff.mp held
            | some id =>
              cases found : s.state.find id with
              | none => exact found
              | some target => exact absurd (by rw [incoming, Option.bind_some, found]) (unmatched id target incoming)
          refine ⟨?_, ?_, ?_, ?_, Or.inl rfl, rfl, ?_, ?_⟩
          · refine congrArg Snapshot.annotationValue ?_
            change (s.state.annotations ++ [_]).find? _ = _
            rw [List.find?_append, show s.state.annotations.find? _ = none from absent, Option.none_or,
              List.find?_singleton, if_pos ( Annotation.hasId_iff.mpr named)]
          · intro other differs
            change (s.state.annotations ++ [_]).find? _ = _
            rw [List.find?_append, List.find?_singleton, if_neg, Option.or_none]
            · rfl
            · rw [ Annotation.hasId_iff, named, Json.str.injEq]
              exact fun same => differs (by rw [same])
          · rintro _ ⟨⟩
            exact concerns
          · intro _ _ deletes
            rw [kept] at deletes
            cases deletes
          · intro same
            have empty : (ann.get "id").string?.getD call.env.freshId = "" := by simpa using same
            rw [empty] at concerns absent
            exact ⟨concerns, absent⟩
          · rintro _ _ ⟨⟩

theorem annotationUpdated_records {payload : Option (Dict Json)} {baseVersion : Json}
    (op : call.op = .annotationUpdated payload baseVersion) :
    (s.planAnnotationUpdated call.env call.trustedReplay payload baseVersion).Satisfies
      (fun e => ∀ d, e.activity = some d → s.Records call e d) fun _ _ => True := by
  apply validated_satisfies trivial
  intro incoming valid
  obtain ⟨sent, rfl, sameId⟩ := validatePayload_id valid
  have kept : call.op.deletes = false := by rw [op]; rfl
  dsimp only
  split
  · trivial
  · rename_i id named
    have concerns : call.annotationId? = some id := by
      rw [Call.annotationId?, op]
      rw [sameId] at named
      exact named
    split
    · trivial
    · rename_i target found
      have merged : ∀ d, (s.mergeEffect call.env id target incoming .annotationUpdated).activity = some d →
          s.Records call _ d := mergeEffect_records named found concerns kept
      repeat' split
      all_goals first | exact merged | trivial

theorem annotationDeleted_records {annotationId id : Json} (op : call.op = .annotationDeleted annotationId id) :
    (s.planAnnotationDeleted annotationId id).Satisfies
      (fun e => ∀ d, e.activity = some d → s.Records call e d) fun _ _ => True := by
  unfold planAnnotationDeleted
  split
  · rename_i id named
    intro d drafted
    obtain ⟨removed, found, rfl⟩ := Option.map_eq_some_iff.mp drafted
    have held := State.hasId_of_find found
    refine ⟨?_, ?_, ?_, fun _ _ _ => rfl, Or.inr ⟨id, removed, found, ?_⟩, ?_, ?_, ?_⟩
    · refine congrArg Snapshot.annotationValue (List.find?_eq_none.mpr fun a member => ?_)
      have kept := (List.mem_filter.mp member).2
      rw [Bool.not_eq_true'] at kept
      rw [kept]
      exact Bool.false_ne_true
    · intro other differs
      exact find?_remove (fun same => differs (by rw [same])) _
    · rintro _ ⟨⟩
      rw [Call.annotationId?, op]
      dsimp only
      rw [named, Json.string?_str]
    · dsimp only
    · rw [StateOp.draws, Option.any_some, get_id_of_typed_string held]
      rfl
    · rintro ⟨⟩
    · rintro _ other ⟨⟩ same
      cases ( Annotation.hasId_iff.mp held).symm.trans same
      exact ⟨by rw [found]; rfl, by dsimp only⟩
  · trivial

/-- What every recorded effect has done. -/
theorem judge_records (fresh : s.Fresh call.env) {e : Effect} {d : ActivityDraft}
    (verdict : s.judge cfg call = .accept e) (drafted : e.activity = some d) : s.Records call e d := by
  suffices all : (s.judge cfg call).Satisfies (fun e => ∀ d, e.activity = some d → s.Records call e d)
      fun _ _ => True by
    rw [verdict] at all
    exact all d drafted
  rw [judge]
  cases op : call.op with
  | annotationCreated payload =>
    have created : (s.planAnnotationCreated cfg call.env call.client call.trustedReplay payload).Satisfies
        (fun e => ∀ d, e.activity = some d → s.Fresh call.env → s.Records call e d) fun _ _ => True :=
      annotationCreated_records op
    rw [plan]
    revert created
    cases s.planAnnotationCreated cfg call.env call.client call.trustedReplay payload with
    | accept e => exact fun created d drafted => created d drafted fresh
    | _ => exact fun created => created
  | annotationUpdated payload baseVersion => exact annotationUpdated_records op
  | annotationDeleted annotationId id => exact annotationDeleted_records op
  | nodeMoved nodeId position =>
    simp only [plan, planNodeMoved]
    split
    · apply validated_satisfies trivial
      rintro p - d ⟨⟩
      refine records_of_quiet rfl rfl ?_ (by simp) rfl (by simp)
      exact congrArg Snapshot.position Std.ExtTreeMap.getElem?_insert_self
    · trivial
  | layoutApplied positions =>
    apply validated_satisfies trivial
    rintro normalised - d ⟨⟩
    refine records_of_quiet rfl rfl ?_ (by simp) rfl (by simp)
    refine congrArg Snapshot.layout ((positionsAt_keys_eq_iff _ _).mpr fun nid member => ?_)
    obtain ⟨p, atNid⟩ := Option.isSome_iff_exists.mp (Std.ExtTreeMap.mem_iff_isSome_getElem?.mp member)
    change (s.state.positions ∪ normalised)[nid]? = _
    rw [Std.ExtTreeMap.getElem?_union, atNid, Option.some_or]
  | edgeIntensitySet value =>
    apply validated_satisfies trivial
    rintro v - d drafted
    dsimp only at drafted
    split at drafted
    · cases drafted
    · cases drafted
      exact records_of_quiet rfl rfl rfl (by simp) rfl (by simp)
  | idsAdded set ids =>
    apply validated_satisfies trivial
    rintro requested - d drafted
    dsimp only at drafted
    split at drafted
    · cases drafted
    · cases drafted
      refine records_of_quiet rfl rfl (congrArg Snapshot.ids ?_) (by simp) rfl (by simp)
      refine sorted_filter_self (sortedSet_sorted _ _) fun i member => ?_
      rw [Effect.state, Canvas.ids_setIds_self, mem_union]
      exact Or.inr (mem_sortedSet.mp member).1
  | idsDropped set ids =>
    apply validated_satisfies trivial
    rintro requested - d drafted
    dsimp only at drafted
    split at drafted
    · cases drafted
    · cases drafted
      refine records_of_quiet rfl rfl (congrArg Snapshot.ids ?_) (by simp) rfl (by simp)
      rw [List.filter_eq_nil_iff.mpr]
      · rfl
      · intro i member
        have asked := (mem_sortedSet.mp member).1
        simp [Effect.state, Canvas.ids_setIds_self, asked]
  | nodesRemoved nodeIds =>
    apply validated_satisfies trivial
    intro removals valid
    dsimp only
    split
    · trivial
    · rintro d ⟨⟩
  | groupMembershipChanged groupId members =>
    simp only [plan, planGroupMembershipChanged]
    split
    · apply validated_satisfies trivial
      intro members valid
      split
      · trivial
      · rintro d ⟨⟩
    · trivial
  | sessionRenamed name =>
    simp only [plan, planSessionRenamed]
    split
    · rintro d ⟨⟩
    · rintro d ⟨⟩
    · trivial
  | _ =>
    apply validated_satisfies trivial
    rintro _ _ d ⟨⟩

/-! ### The memory of deleted annotations -/

/-- What becomes of the memory of deleted annotations when an op edits the annotations. A new
annotation is under an id that is not remembered, if the random id that it may take is not. -/
def Remembers (s : Session Annotation) (env : Env) (op : StateOp) (e : Effect) : Prop :=
  match e.edit with
  | .rewrite _ => e.deletedAnnotationIds = s.deletedAnnotationIds
  | .append ann => e.deletedAnnotationIds = s.deletedAnnotationIds ∧
      ((op.draws = true → env.freshId ∉ s.deletedAnnotationIds) →
        ∀ id, ann.get "id" = .str id → id ∉ s.deletedAnnotationIds)
  | .remove id => e.deletedAnnotationIds = boundedAppend deletedIdsMax s.deletedAnnotationIds id

variable {env : Env} {client : String} {trusted : Bool} {after : Session Annotation}

/-- Only a deletion changes the memory of deleted annotations, and no branch makes an annotation
under an id that it remembers. -/
theorem plan_remembers (op : StateOp) :
    (s.plan cfg env client trusted op).Satisfies (s.Remembers env op) fun _ _ => True := by
  cases op with
  | annotationCreated payload =>
    apply validated_satisfies trivial
    intro ann valid
    obtain ⟨t, listed, type, kind, -⟩ := validatePayload_typed valid
    obtain ⟨-, named⟩ := freshAnnotation_typed env client listed type kind
    obtain ⟨sent, rfl, sameId⟩ := validatePayload_id valid
    dsimp only
    split
    · trivial
    · rename_i unknown
      split
      · trivial
      · split
        · split
          · trivial
          · exact rfl
        · split
          · trivial
          · refine ⟨rfl, fun new id same => ?_⟩
            cases given : (ann.get "id").string? with
            | none =>
              rw [named, given, Option.getD_none, Json.str.injEq] at same
              rw [← same]
              exact new (by rw [StateOp.draws, Option.any_some, ← sameId, given]; rfl)
            | some id' =>
              rw [named, given, Option.getD_some, Json.str.injEq] at same
              rw [given, Option.any_some, same] at unknown
              exact fun known => unknown (decide_eq_true known)
  | annotationUpdated payload baseVersion =>
    apply validated_satisfies trivial
    intro incoming valid
    dsimp only
    split
    · trivial
    · split
      · trivial
      · repeat' split
        all_goals first | exact rfl | trivial
  | annotationDeleted annotationId id =>
    simp only [plan, planAnnotationDeleted]
    split
    · dsimp only [Remembers, Verdict.Satisfies]
    · trivial
  | nodesRemoved nodeIds =>
    apply validated_satisfies trivial
    intro removals valid
    dsimp only
    split
    · trivial
    · exact rfl
  | groupMembershipChanged groupId members =>
    simp only [plan, planGroupMembershipChanged]
    split
    · apply validated_satisfies trivial
      intro members valid
      split
      · trivial
      · exact rfl
    · trivial
  | nodeMoved nodeId position =>
    simp only [plan, planNodeMoved]
    split
    · exact validated_satisfies trivial fun _ _ => rfl
    · trivial
  | sessionRenamed name =>
    simp only [plan, planSessionRenamed]
    split
    · exact rfl
    · exact rfl
    · trivial
  | _ => exact validated_satisfies trivial fun _ _ => rfl


/-- A steady session that remembers none of the annotations it holds as deleted. -/
structure Tracked (cfg : StoreConfig) (s : Session Annotation) : Prop extends s.Steady cfg where
  remembered : ∀ a ∈ s.state.annotations, ∀ id, a.get "id" = .str id → id ∉ s.deletedAnnotationIds

/-- What an edit draws from outside is an id that the session neither holds nor remembers. -/
def New (s : Session Annotation) (env : Env) : Prop := s.Fresh env ∧ env.freshId ∉ s.deletedAnnotationIds

instance (s : Session Annotation) (env : Env) : Decidable (s.New env) := by
  unfold New
  infer_instance

theorem tracked_empty (cfg : StoreConfig) (name : Option String) (now : Nat) :
    Tracked cfg { name := name, updatedAt := now } :=
  { toSteady := steady_empty cfg name now, remembered := by simp }

theorem mem_boundedAppend {α : Type} {maxlen : Nat} {deque : List α} {item i : α}
    (member : i ∈ boundedAppend maxlen deque item) : i ∈ deque ∨ i = item := by
  rw [boundedAppend] at member
  simpa using List.mem_of_mem_drop member

theorem Tracked.applied_of_draws {op : Applied Annotation} (tracked : s.Tracked cfg)
    (new : call.op.draws = true → s.New call.env) (accepted : s.applyStateOp cfg call = .applied op after) :
    after.Tracked cfg := by
  have fresh : call.op.draws = true → s.Fresh call.env := fun draws => (new draws).1
  refine { toSteady := tracked.toSteady.applied_of_draws fresh accepted, remembered := ?_ }
  obtain ⟨e, verdict, -, rfl⟩ := applyStateOp_applied accepted
  have remembers : (s.judge cfg call).Satisfies (s.Remembers call.env call.op) fun _ _ => True :=
    plan_remembers call.op
  have sound : (s.judge cfg call).Satisfies (fun e => e.edit.Sound cfg.maxAnnotations s.state.annotations)
      fun _ _ => True := plan_sound fresh
  rw [verdict] at remembers sound
  change ∀ a ∈ e.edit.contents s.state.annotations, ∀ id, a.get "id" = .str id → id ∉ e.deletedAnnotationIds
  dsimp only [Verdict.Satisfies, Remembers] at remembers sound
  cases edit : e.edit with
  | rewrite contents =>
    rw [edit] at remembers sound
    rw [remembers]
    intro b member id named
    obtain ⟨i, inside, rfl⟩ := List.getElem_of_mem member
    have lengths := List.Forall₂.length_eq sound
    change i < contents.length at inside
    have same := (List.Forall₂.get sound (by omega) inside).1
    exact tracked.remembered _ (List.getElem_mem (by omega)) id (same.symm.trans named)
  | append ann =>
    rw [edit] at remembers
    rw [remembers.1]
    intro a member id named
    rcases List.mem_append.mp member with old | added
    · exact tracked.remembered a old id named
    · rw [List.mem_singleton.mp added] at named
      exact remembers.2 (fun draws => (new draws).2) id named
  | remove removed =>
    rw [edit] at remembers
    rw [remembers]
    intro a member id named known
    obtain ⟨old, kept⟩ := List.mem_filter.mp member
    rcases mem_boundedAppend known with was | rfl
    · exact tracked.remembered a old id named was
    · rw [ Annotation.hasId_iff.mpr named] at kept
      cases kept

theorem forgetDeleted_sublist (inverse : StateOp) (deleted : List String) :
    (Server.forgetDeleted inverse deleted).Sublist deleted := by
  unfold Server.forgetDeleted
  repeat' split
  all_goals first | exact List.erase_sublist | exact List.Sublist.refl _

theorem Tracked.forget (tracked : s.Tracked cfg) (inverse : StateOp) :
    Tracked cfg { s with deletedAnnotationIds := Server.forgetDeleted inverse s.deletedAnnotationIds } :=
  { toSteady := tracked.toSteady.forget _
    remembered := fun a member id named known => tracked.remembered a member id named ((forgetDeleted_sublist _ _).subset known) }

theorem Tracked.mark (tracked : s.Tracked cfg) (stamp : Nat) (actor : String) :
    Tracked cfg { s with activityLog := Server.markUndone stamp actor s.activityLog } :=
  { canvas := tracked.canvas, annotations := tracked.annotations, log := tracked.log.markUndone _ _
    canonical := tracked.canonical, remembered := tracked.remembered }

theorem Tracked.edit {edit : Edit} {op : Applied Annotation} (tracked : s.Tracked cfg) (new : s.New edit.env)
    (edited : s.edit cfg edit = some (after, op)) : after.Tracked cfg := by
  cases edit with
  | op call => exact tracked.applied_of_draws (fun _ => new) (edit_op.mp edited)
  | undo env actor =>
    obtain ⟨record, inverse, replayed, -, -, -, accepted, rfl⟩ := undoLast_applied (edit_undo.mp edited)
    refine ((tracked.forget inverse).applied_of_draws (fun _ => ?_) accepted).mark env.stamp actor
    exact ⟨new.1, fun known => new.2 ((forgetDeleted_sublist _ _).subset known)⟩

theorem count_boundedAppend {maxlen : Nat} {deque : List String} {item id : String} (new : item ∉ deque)
    (once : deque.count id ≤ 1) : (boundedAppend maxlen deque item).count id ≤ 1 := by
  have dropped := ((List.drop_sublist (deque.length + 1 - maxlen) (deque ++ [item])).count_le id)
  rw [List.count_append, List.count_singleton] at dropped
  rw [boundedAppend]
  by_cases same : item = id
  · subst same
    rw [List.count_eq_zero.mpr new] at dropped
    simpa using dropped
  · rw [if_neg (by simpa using same)] at dropped
    omega

/-- An id that is remembered at most once stays so when only held annotations are forgotten. -/
theorem Forgets.once {deleted : List String} (forgets : s.Forgets deleted)
    (remembered : ∀ a ∈ s.state.annotations, ∀ id, a.get "id" = .str id → id ∉ s.deletedAnnotationIds) {id : String}
    (once : s.deletedAnnotationIds.count id ≤ 1) : deleted.count id ≤ 1 := by
  rcases forgets with same | ⟨removed, a, found, same⟩ <;> rw [same]
  · exact once
  · exact count_boundedAppend (remembered a (State.mem_of_find found) removed
      ( Annotation.hasId_iff.mp (State.hasId_of_find found))) once

/-! ### The chain -/

/-- Ops of one client, one right after the other, each with a record in the log; each meets the
condition in the session it is applied to, in view of the ops that follow. -/
inductive Chain (cfg : StoreConfig) (actor : String) (ok : Session Annotation → Call → List Call → Prop) :
    Session Annotation → List Call → Session Annotation → Prop where
  | done {s : Session Annotation} : Chain cfg actor ok s [] s
  | step {s mid after : Session Annotation} {call : Call} {rest : List Call} {op : Applied Annotation} :
      s.New call.env → call.client = actor → s.applyStateOp cfg call = .applied op mid →
      (∃ record ∈ mid.activityLog, record.seq = mid.seq) → ok s call rest → Chain cfg actor ok mid rest after →
        Chain cfg actor ok s (call :: rest) after

/-- The condition of the chain: the inverse can express the state before, the op does not create an
annotation with the empty id, and no later op concerns the annotation that it leaves. -/
def UndoableInTurn (s : Session Annotation) (call : Call) (rest : List Call) : Prop :=
  call.op.restorable s.state = true ∧ (call.annotationId? = some "" → (s.state.find "").isSome = true) ∧
    (call.op.deletes = false → ∀ id ∈ call.annotationId?, ∀ later ∈ rest, later.annotationId? ≠ some id)

instance (s : Session Annotation) (call : Call) (rest : List Call) : Decidable (s.UndoableInTurn call rest) := by
  unfold UndoableInTurn
  infer_instance

/-- Session `t`, in which the ops `calls` that followed session `s` have been undone, the records
`own` of earlier ops still to be undone. -/
structure Unwound (cfg : StoreConfig) (s t : Session Annotation) (calls : List Call) (own : List ActivityRecord) :
    Prop where
  tracked : t.Tracked cfg
  name : t.name = s.name
  alike : t.state.Alike s.state
  kept : ∀ id, (∀ later ∈ calls, later.annotationId? ≠ some id) → t.state.find id = s.state.find id
  log : ∃ older marked, t.activityLog = older ++ own ++ marked ∧ ∀ r ∈ marked, r.undone = true
  once : ∀ id, s.deletedAnnotationIds.count id ≤ 1 → t.deletedAnnotationIds.count id ≤ 1

theorem find_none_of_alike {t u : State Annotation} (alike : t.Alike u) {id : String} (absent : u.find id = none) :
    t.find id = none := by
  refine List.find?_eq_none.mpr fun a member held => ?_
  have fields := alike.annotations.subset (List.mem_map.mpr ⟨a, member, rfl⟩)
  obtain ⟨b, inU, same⟩ := List.mem_map.mp fields
  refine List.find?_eq_none.mp absent b inU ( Annotation.hasId_iff.mpr ?_)
  rw [ Annotation.get, same]
  exact Annotation.hasId_iff.mp held

/-- States with the same contents have the same snapshot of everything but an annotation. -/
theorem snapshot_of_alike {t u : State Annotation} (alike : t.Alike u) {affected : Affected}
    (other : ∀ id, affected ≠ .annotationId id) : currentSnapshotFor t affected = currentSnapshotFor u affected := by
  cases affected with
  | annotationId id => exact absurd rfl (other id)
  | nodePosition id => rw [currentSnapshotFor, currentSnapshotFor, alike.positions]
  | ids set ids =>
    rw [currentSnapshotFor, currentSnapshotFor]
    have same : ids.filter (· ∈ t.toCanvas.ids set) = ids.filter (· ∈ u.toCanvas.ids set) :=
      List.filter_congr fun i _ => decide_eq_decide.mpr (alike.sets set).mem_iff
    rw [same]
  | edgeIntensity => rw [currentSnapshotFor, currentSnapshotFor, alike.intensity]
  | layout nodeIds => rw [currentSnapshotFor, currentSnapshotFor, alike.positions]

theorem applyStateOp_of_judge {e : Effect} (verdict : s.judge cfg call = .accept e) :
    ∃ op, s.applyStateOp cfg call = .applied op (s.commit cfg call e (e.edit.contents s.state.annotations)) := by
  rw [applyStateOp, verdict]
  exact ⟨_, rfl⟩

theorem findLatestUndoable_marked (older : List ActivityRecord) {marked : List ActivityRecord}
    (undone : ∀ r ∈ marked, r.undone = true) (actor : String) :
    findLatestUndoable (older ++ marked) actor = findLatestUndoable older actor := by
  rw [findLatestUndoable, findLatestUndoable, List.reverse_append, List.find?_append, List.find?_eq_none.mpr, Option.none_or]
  intro r member
  simp [undone r (List.mem_reverse.mp member)]

theorem markUndone_append (stamp : Nat) (older : List ActivityRecord) {marked : List ActivityRecord} {r : ActivityRecord}
    (undone : ∀ r ∈ marked, r.undone = true) (pending : r.undone = false) (stored : r.inverseOp.isSome = true) :
    Server.markUndone stamp r.actor (older ++ [r] ++ marked) =
      older ++ ({ r with undone := true, undoneAt := some stamp } :: marked) := by
  have skip : ∀ rest log, (∀ r ∈ rest, r.undone = true) →
      Server.markUndone.markLatest stamp r.actor (rest ++ log) = rest ++ Server.markUndone.markLatest stamp r.actor log := by
    intro rest log passed
    induction rest with
    | nil => rfl
    | cons first rest ih =>
      have passedFirst := passed first List.mem_cons_self
      rw [List.cons_append, Server.markUndone.markLatest, if_neg (by simp [passedFirst]),
        ih fun r member => passed r (List.mem_cons_of_mem _ member)]
      rfl
  rw [Server.markUndone, List.reverse_append, skip _ _ fun r member => undone r (List.mem_reverse.mp member),
    show (older ++ [r]).reverse = r :: older.reverse by simp, Server.markUndone.markLatest,
    if_pos (by simp [pending, stored])]
  simp


theorem Call.log_unrecorded {call : Call} (unrecorded : call.recordActivity = false) {seq : Nat} {log : List ActivityRecord}
    {activity : Option ActivityDraft} : call.log cfg seq log activity = log := by
  cases activity with
  | none => rfl
  | some d => rw [Call.log, unrecorded, Bool.false_and, Bool.false_and, if_neg Bool.false_ne_true]

/-- Undoing an op in a session in which all that followed it is undone already. -/
theorem Unwound.undo {t : Session Annotation} {rest : List Call} {own : List ActivityRecord} {d : ActivityDraft} {e : Effect}
    (tracked : s.Tracked cfg) (new : s.New call.env) (verdict : s.judge cfg call = .accept e)
    (drafted : e.activity = some d) (ok : s.UndoableInTurn call rest)
    (unwound : Unwound cfg (s.commit cfg call e (e.edit.contents s.state.annotations)) t rest
      (own ++ [call.record (s.seq + 1) d])) (env : Env) :
    ∃ op u, t.edit cfg (.undo env call.client) = some (u, op) ∧ Unwound cfg s u (call :: rest) own := by
  obtain ⟨restorable, nonempty, apart⟩ := ok
  have records := judge_records new.1 verdict drafted
  obtain ⟨name, revertible⟩ := judge_revertible tracked.toSteady new.1 verdict d drafted
  obtain ⟨older, marked, log, undone⟩ := unwound.log
  have once : ∀ id, s.deletedAnnotationIds.count id ≤ 1 → t.deletedAnnotationIds.count id ≤ 1 :=
    fun id before => unwound.once id (records.forgets.once tracked.remembered before)
  have snapshot : currentSnapshotFor t.state d.affected = d.after := by
    rw [← records.target]
    cases affected : d.affected with
    | annotationId id =>
      refine congrArg Snapshot.annotationValue ?_
      cases deletes : call.op.deletes with
      | false =>
        exact unwound.kept id fun later member => apart deletes id (records.named id affected) later member
      | true =>
        have gone := records.target
        rw [affected, records.gone id affected deletes] at gone
        have absent : (e.state s.state.annotations).find id = none := by
          simpa only [currentSnapshotFor, Snapshot.annotationValue.injEq] using gone
        rw [absent]
        exact find_none_of_alike unwound.alike absent
    | _ => exact snapshot_of_alike unwound.alike (by simp)
  have replayable : d.inverseOp ≠ .annotationDeleted (.str "") .null := by
    intro same
    obtain ⟨concerns, absent⟩ := records.creation same
    have held := nonempty concerns
    rw [absent] at held
    cases held
  have forgotten : ∀ ann id, d.inverseOp = .annotationCreated (some ann) → ann.get "id" = .str id →
      id ∉ Server.forgetDeleted d.inverseOp t.deletedAnnotationIds := by
    intro ann id same named
    obtain ⟨held, memory⟩ := records.deletion ann id same named
    obtain ⟨a, found⟩ := Option.isSome_iff_exists.mp held
    have unknown := tracked.remembered a (State.mem_of_find found) id ( Annotation.hasId_iff.mp (State.hasId_of_find found))
    have atMost := once id (by rw [List.count_eq_zero.mpr unknown]; omega)
    rw [same, Server.forgetDeleted, named, Json.string?_str, ← List.count_eq_zero]
    dsimp only
    rw [List.count_erase_self]
    omega
  obtain ⟨e', reverts⟩ := revertible _ env (unwound.tracked.forget d.inverseOp).toSteady unwound.alike snapshot
    replayable forgotten
  obtain ⟨op, accepted⟩ := applyStateOp_of_judge reverts.accepted
  have latest : findLatestUndoable t.activityLog call.client = some (call.record (s.seq + 1) d) := by
    rw [log, ← List.append_assoc, findLatestUndoable_marked _ undone]
    exact findLatestUndoable_append _ rfl rfl
  refine ⟨op, _, edit_undo.mpr (undoLast_of_applied latest (undoConflictReason_eq_none.mpr snapshot) rfl accepted), ?_⟩
  have after := (unwound.tracked.forget d.inverseOp).applied_of_draws
    (fun draws => absurd (records.undrawn.symm.trans draws) Bool.false_ne_true) accepted
  refine ⟨after.mark env.stamp call.client, ?_, reverts.restored.mpr restorable, ?_, ?_, ?_⟩
  · exact reverts.name.trans (unwound.name.trans name)
  · intro id unnamed
    have other : d.affected ≠ .annotationId id := fun same =>
      unnamed call List.mem_cons_self (records.named id same)
    exact (reverts.frame id other).trans ((unwound.kept id fun later member =>
      unnamed later (List.mem_cons_of_mem _ member)).trans (records.frame id other))
  · refine ⟨older, { call.record (s.seq + 1) d with undone := true, undoneAt := some env.stamp } :: marked, ?_, ?_⟩
    · have marks := markUndone_append env.stamp (older ++ own) undone (r := call.record (s.seq + 1) d) rfl rfl
      rw [← marks, List.append_assoc older own, ← log]
      exact congrArg (Server.markUndone env.stamp call.client) (Call.log_unrecorded rfl)
    · intro r member
      rcases List.mem_cons.mp member with rfl | old
      · rfl
      · exact undone r old
  · intro id before
    have forgets := reverts.remembered
    refine Forgets.once forgets (unwound.tracked.forget d.inverseOp).remembered ?_
    exact ((forgetDeleted_sublist d.inverseOp t.deletedAnnotationIds).count_le id).trans (once id before)


/-- The undos of a chain, the newest op first. -/
theorem Chain.unwinds {actor : String} {calls : List Call} (chain : Chain cfg actor UndoableInTurn s calls after)
    {older own : List ActivityRecord} (tracked : s.Tracked cfg) (log : s.activityLog = older ++ own)
    (few : 0 < cfg.maxActivityRecords → own.length + calls.length ≤ cfg.maxActivityRecords)
    (kept : 0 < cfg.activityMaxAge → ∀ r ∈ own, ∀ call ∈ calls,
      call.env.now ≤ r.occurredAt * 1000000 + cfg.activityMaxAge)
    (young : 0 < cfg.activityMaxAge → ∀ first ∈ calls, ∀ call ∈ calls,
      call.env.now ≤ first.env.stamp * 1000000 + cfg.activityMaxAge)
    (envs : List Env) (each : envs.length = calls.length) :
    ∃ undos t, Run (Session.edit cfg) (fun _ _ _ => True) after undos t ∧
      undos.map (·.1) = envs.map (.undo · actor) ∧ Unwound cfg s t calls own := by
  induction chain generalizing older own envs with
  | @done s =>
    obtain rfl : envs = [] := List.eq_nil_of_length_eq_zero each
    exact ⟨[], s, .start, rfl, tracked, rfl, .refl _, fun _ _ => rfl, ⟨older, [], by rw [log, List.append_nil], by simp⟩,
      fun _ once => once⟩
  | @step s mid after call rest op new client accepted recorded ok chain ih =>
    obtain ⟨e, verdict, -, rfl⟩ := applyStateOp_applied accepted
    obtain ⟨d, drafted, logged, recent⟩ := Call.log_recorded tracked.log recorded
    have tracked' := tracked.applied_of_draws (fun _ => new) accepted
    rw [List.length_cons] at each few
    obtain ⟨older', log'⟩ : ∃ older', call.log cfg (s.seq + 1) s.activityLog e.activity =
        older' ++ (own ++ [call.record (s.seq + 1) d]) := by
      rw [logged, log, List.append_assoc]
      refine pruneActivityLog_append older (fun limited r member => ?_) fun limited => ?_
      · rcases List.mem_append.mp member with old | added
        · exact kept limited r old call List.mem_cons_self
        · rw [List.mem_singleton.mp added]
          exact recent limited
      · have within := few limited
        rw [List.length_append, List.length_singleton]
        omega
    obtain ⟨first, env, rfl⟩ : ∃ first env, envs = first ++ [env] :=
      ⟨envs.dropLast, envs.getLast (by rintro rfl; simp at each), (List.dropLast_append_getLast _).symm⟩
    rw [List.length_append, List.length_singleton, Nat.add_right_cancel_iff] at each
    have few' : 0 < cfg.maxActivityRecords →
        (own ++ [call.record (s.seq + 1) d]).length + rest.length ≤ cfg.maxActivityRecords := by
      intro limited
      have within := few limited
      rw [List.length_append, List.length_singleton]
      omega
    have kept' : 0 < cfg.activityMaxAge → ∀ r ∈ own ++ [call.record (s.seq + 1) d], ∀ later ∈ rest,
        later.env.now ≤ r.occurredAt * 1000000 + cfg.activityMaxAge := by
      intro limited r member later inRest
      rcases List.mem_append.mp member with old | added
      · exact kept limited r old later (List.mem_cons_of_mem _ inRest)
      · rw [List.mem_singleton.mp added]
        exact young limited call List.mem_cons_self later (List.mem_cons_of_mem _ inRest)
    have young' : 0 < cfg.activityMaxAge → ∀ first ∈ rest, ∀ call ∈ rest,
        call.env.now ≤ first.env.stamp * 1000000 + cfg.activityMaxAge := fun limited first inFirst call inRest =>
      young limited first (List.mem_cons_of_mem _ inFirst) call (List.mem_cons_of_mem _ inRest)
    obtain ⟨undos, t, run, labels, unwound⟩ := ih tracked' log' few' kept' young' first each
    obtain ⟨op, u, undone, unwound'⟩ := unwound.undo tracked new verdict drafted ok env
    rw [client] at undone
    refine ⟨_, u, run.next trivial undone, ?_, unwound'⟩
    rw [List.map_append, List.map_append, labels]
    rfl


/-- Two ops of one client on an empty session, each with what is looked at before and after it. -/
def twoOps {α : Type} (first second : StateOp) (look : Session Annotation → Session Annotation → α) : Option α :=
  (({} : Session Annotation).edit {} (.op (undoCallAt 1 first))).bind fun made =>
    (made.1.edit {} (.op (undoCallAt 2 second))).map fun changed => look made.1 changed.1

theorem chain_of_twoOps {α : Type} {first second : StateOp} {look : Session Annotation → Session Annotation → α} {seen : α}
    {ok : Session Annotation → Call → List Call → Prop} (taken : twoOps first second look = some seen) :
    ∃ mid after, look mid after = seen ∧ (mid.New ⟨2000000, "new"⟩ → (∃ record ∈ mid.activityLog, record.seq = mid.seq) →
      (∃ record ∈ after.activityLog, record.seq = after.seq) →
      ok {} (undoCallAt 1 first) [undoCallAt 2 second] → ok mid (undoCallAt 2 second) [] →
      Chain {} "ada" ok {} [undoCallAt 1 first, undoCallAt 2 second] after) := by
  obtain ⟨⟨mid, op⟩, made, later⟩ := Option.bind_eq_some_iff.mp taken
  obtain ⟨⟨after, op'⟩, changed, looked⟩ := Option.map_eq_some_iff.mp later
  refine ⟨mid, after, looked, fun new recorded recorded' ok ok' => ?_⟩
  have new' : ({} : Session Annotation).New (undoCallAt 1 first).env := ⟨by simp [Fresh], by simp⟩
  exact .step new' rfl (edit_op.mp made) recorded ok (.step new rfl (edit_op.mp changed) recorded' ok' .done)

end Session

end MetadataGraph
