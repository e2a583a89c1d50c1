import MetadataGraph.Session.Store

namespace MetadataGraph

/-- Whether the annotation has one of these nodes among its members. -/
def Annotation.hasMemberIn (a : Annotation) (nodeIds : List String) : Bool :=
  a.members?.any (·.any (·.isIdIn nodeIds))

/-- The annotations that an accepted op may assign to in place. -/
def StateOp.rewrites (a : Annotation) : StateOp → Bool
  | .annotationCreated payload | .annotationUpdated payload _ =>
    payload.any fun ann => (ann.get "id").string?.any (a.hasId ·)
  | .groupMembershipChanged groupId _ => groupId.string?.any (a.hasId ·)
  | .nodesRemoved nodeIds => a.hasMemberIn (nodeIds.strings?.getD [])
  | _ => false

/-- What an op may make of one annotation in place. -/
def StateOp.Rewritten (op : StateOp) (a b : Annotation) : Prop :=
  b = a ∨ op.rewrites a = true ∧ b.get "id" = a.get "id"

/-- An effect that names an annotation it leaves in the list, rewrites in place only
annotations that the op may rewrite and removes only the one that the op names. -/
structure Effect.Fits (op : StateOp) (old : List Annotation) (e : Effect) : Prop where
  position : ∀ i ∈ e.applied.shared?, i < (e.edit.contents old).length
  rewritten : ∀ contents, e.edit = .rewrite contents → List.Forall₂ op.Rewritten old contents
  removed : ∀ id, e.edit = .remove id → op.annotationId? = some id

/-- A verdict that accepts only such effects and, when it rejects, leaves only such states. -/
def Verdict.Satisfies (accepts : Effect → Prop) (leaves : Canvas → List Annotation → Prop) :
    Verdict → Prop
  | .accept e => accepts e
  | .drop => True
  | .reject _ canvas contents => leaves canvas contents

theorem rewritten_refl (op : StateOp) (old : List Annotation) : List.Forall₂ op.Rewritten old old :=
  List.forall₂_same.mpr fun _ _ => Or.inl rfl

theorem validatePayload_id {payload : Option (Dict Json)} {requireId : Bool}
    {ann : Dict Json} (valid : validatePayload payload requireId = .ok ann) :
    ∃ sent, payload = some sent ∧ ann.get "id" = sent.get "id" := by
  obtain ⟨sent, raw, rfl, -, -, -, -, rfl⟩ := validatePayload_eq_ok.mp valid
  refine ⟨sent, rfl, ?_⟩
  simp [canonicalPayload, Dict.get_insert, Dict.get_erase]

/-- Replacing the first match changes that match only. -/
theorem replaceFirst_forall₂ {R : Annotation → Annotation → Prop} (refl : ∀ a, R a a) {p : Annotation → Bool}
    {old : List Annotation} {target replacement : Annotation} (found : old.find? p = some target)
    (step : R target replacement) : List.Forall₂ R old (replaceFirst p replacement old) := by
  induction old with
  | nil => cases found
  | cons a old ih =>
    rw [List.find?_cons] at found
    rw [replaceFirst]
    split at found
    · cases found
      simp only [*, if_true]
      exact .cons step (List.forall₂_same.mpr fun a _ => refl a)
    · simp only [*, Bool.false_eq_true, if_false]
      exact .cons (refl a) (ih found)

theorem replaceFirst_rewritten {op : StateOp} {p : Annotation → Bool} {old : List Annotation}
    {target replacement : Annotation} (found : old.find? p = some target)
    (step : op.Rewritten target replacement) :
    List.Forall₂ op.Rewritten old (replaceFirst p replacement old) :=
  replaceFirst_forall₂ (fun _ => Or.inl rfl) found step

/-- A filter of the members that goes through has filtered every annotation. -/
theorem dropMembers_forall₂ {R : Annotation → Annotation → Prop} {drop : List String} {old contents : List Annotation}
    (step : ∀ a b, a.withoutMembers drop = some b → R a b) (filtered : dropMembers drop old = .ok contents) :
    List.Forall₂ R old contents := by
  induction old generalizing contents with
  | nil =>
    cases filtered
    exact .nil
  | cons a old ih =>
    rw [dropMembers] at filtered
    cases first : a.withoutMembers drop with
    | none =>
      rw [first] at filtered
      cases filtered
    | some b =>
      rw [first] at filtered
      cases rest : dropMembers drop old with
      | error later =>
        rw [rest] at filtered
        cases filtered
      | ok later =>
        rw [rest] at filtered
        cases filtered
        exact .cons (step a b first) (ih rest)

theorem Annotation.get_id_merge {target : Annotation} {incoming : Dict Json} {id : String}
    (held : target.hasId id = true) (sent : incoming.get "id" = .str id) (stamp : Nat) :
    (target.merge stamp incoming).get "id" = target.get "id" := by
  rw [hasId_iff] at held
  rw [held, Annotation.get, merge, Dict.get_union, sent]
  exact ite_eq_left_iff.mpr fun _ => held

theorem Annotation.get_id_withMembers (a : Annotation) (members : List Json) :
    (a.withMembers members).get "id" = a.get "id" := by
  simp [withMembers, Annotation.get, Dict.get_insert]

/-- Filtering the members of an annotation that holds none of the nodes leaves it as it is. -/
theorem Annotation.withoutMembers_rewritten {nodeIds : Json} {drop : List String} {a b : Annotation}
    (ids : nodeIds.strings? = some drop) (filtered : a.withoutMembers drop = some b) :
    (StateOp.nodesRemoved nodeIds).Rewritten a b := by
  unfold withoutMembers at filtered
  split at filtered
  · exact Or.inl (Option.some.inj filtered).symm
  · rename_i members listed
    split at filtered
    · cases filtered
      by_cases holds : a.hasMemberIn drop = true
      · exact Or.inr ⟨by simpa [StateOp.rewrites, ids] using holds, a.get_id_withMembers _⟩
      · left
        have none : members.any (·.isIdIn drop) = false := by
          simpa [hasMemberIn, listed] using holds
        have keep : members.filter (fun m => !m.isIdIn drop) = members :=
          List.filter_eq_self.mpr fun m member => by simpa using List.any_eq_false.mp none m member
        rw [keep, withMembers_self listed]
    · cases filtered

theorem dropMembers_rewritten {nodeIds : Json} {drop : List String} (ids : nodeIds.strings? = some drop)
    (old : List Annotation) :
    match dropMembers drop old with
    | .ok contents | .error contents =>
      List.Forall₂ (StateOp.nodesRemoved nodeIds).Rewritten old contents := by
  induction old with
  | nil => exact .nil
  | cons a old ih =>
    rw [dropMembers]
    cases filtered : a.withoutMembers drop with
    | none => exact rewritten_refl _ _
    | some b =>
      have step := Annotation.withoutMembers_rewritten ids filtered
      dsimp only
      cases rest : dropMembers drop old with
      | ok contents | error contents =>
        rw [rest] at ih
        exact .cons step ih

namespace Session

variable {cfg : StoreConfig} {env : Env} {client : String} {trusted : Bool} {s : Session Annotation}
variable {accepts : Effect → Prop} {leaves : Canvas → List Annotation → Prop}

theorem refuse_satisfies (kept : leaves s.state.toCanvas s.state.annotations) (failure : Failure) :
    (s.refuse failure).Satisfies accepts leaves := kept

theorem validated_satisfies {α : Type} {checked : Except Failure α} {accept : α → Verdict}
    (kept : leaves s.state.toCanvas s.state.annotations)
    (valid : ∀ value, checked = .ok value → (accept value).Satisfies accepts leaves) :
    (s.validated checked accept).Satisfies accepts leaves := by
  cases checked with
  | error failure => exact kept
  | ok value => exact valid value rfl

/-- An effect that leaves the annotation objects alone and names none of them. -/
theorem fits_of_quiet {op : StateOp} {e : Effect} {old : List Annotation} (quiet : e.edit = .rewrite old)
    (unnamed : e.applied.shared? = none) : e.Fits op old where
  position := by simp [unnamed]
  rewritten := by
    rintro contents same
    rw [quiet] at same
    cases same
    exact rewritten_refl op old
  removed := by simp [quiet]

theorem mergeEffect_fits {op : StateOp} {id : String} {target : Annotation} {incoming : Dict Json}
    {applied : Nat → AppliedOp Nat} (found : s.state.find id = some target)
    (sent : incoming.get "id" = .str id) (named : ∀ i, (applied i).shared? = some i)
    (rewrites : op.rewrites target = true) :
    (s.mergeEffect env id target incoming applied).Fits op s.state.annotations := by
  have rewritten : List.Forall₂ op.Rewritten s.state.annotations
      (replaceFirst (·.hasId id) (target.merge env.stamp incoming) s.state.annotations) :=
    replaceFirst_rewritten found
      (Or.inr ⟨rewrites, Annotation.get_id_merge (State.hasId_of_find found) sent env.stamp⟩)
  constructor
  · intro i member
    have same : s.state.annotations.findIdx (·.hasId id) = i := by
      simpa only [mergeEffect, fanOut, named, Option.mem_def, Option.some.injEq] using member
    have inside : s.state.annotations.findIdx (·.hasId id) < s.state.annotations.length :=
      List.findIdx_lt_length_of_exists ⟨target, State.mem_of_find found, State.hasId_of_find found⟩
    change i < (replaceFirst _ _ _).length
    rw [← rewritten.length_eq, ← same]
    exact inside
  · rintro contents same
    cases same
    exact rewritten
  · rintro id ⟨⟩

theorem planNodesRemoved_fits (nodeIds : Json) :
    (s.planNodesRemoved nodeIds).Satisfies (·.Fits (.nodesRemoved nodeIds) s.state.annotations)
      fun _ contents => List.Forall₂ (StateOp.nodesRemoved nodeIds).Rewritten s.state.annotations contents := by
  apply validated_satisfies (rewritten_refl _ _)
  intro removals valid
  have ids : nodeIds.strings? = some removals := by
    unfold requireIdList at valid
    split at valid
    · rename_i listed
      rw [listed, Except.ok.inj valid]
    · cases valid
  have dropped := dropMembers_rewritten ids s.state.annotations
  dsimp only
  split
  · rename_i contents failed
    rw [failed] at dropped
    exact dropped
  · rename_i contents filtered
    rw [filtered] at dropped
    refine ⟨by simp [fanOut, AppliedOp.shared?], ?_, by rintro id ⟨⟩⟩
    rintro _ same
    cases same
    exact dropped

theorem planAnnotationCreated_fits (payload : Option (Dict Json)) :
    (s.planAnnotationCreated cfg env client trusted payload).Satisfies
      (·.Fits (.annotationCreated payload) s.state.annotations)
      fun _ contents =>
        List.Forall₂ (StateOp.annotationCreated payload).Rewritten s.state.annotations contents := by
  apply validated_satisfies (rewritten_refl _ _)
  intro ann valid
  obtain ⟨sent, rfl, sameId⟩ := validatePayload_id valid
  dsimp only
  split
  · trivial
  · split
    · exact rewritten_refl _ _
    · split
      · rename_i id target incoming found
        split
        · exact rewritten_refl _ _
        · have sentId : ann.get "id" = .str id := Json.string?_eq_some.mp incoming
          rw [incoming, Option.bind_some] at found
          apply mergeEffect_fits found sentId fun _ => rfl
          have held := State.hasId_of_find found
          simp only [StateOp.rewrites, Option.any_some, ← sameId, incoming, held]
      · split
        · exact rewritten_refl _ _
        · refine ⟨?_, by rintro contents ⟨⟩, by rintro id ⟨⟩⟩
          simp [fanOut, AppliedOp.shared?, AnnotationEdit.contents]

theorem planAnnotationUpdated_fits (payload : Option (Dict Json)) (baseVersion : Json) :
    (s.planAnnotationUpdated env trusted payload baseVersion).Satisfies
      (·.Fits (.annotationUpdated payload baseVersion) s.state.annotations)
      fun _ contents => List.Forall₂ (StateOp.annotationUpdated payload baseVersion).Rewritten
        s.state.annotations contents := by
  apply validated_satisfies (rewritten_refl _ _)
  intro incoming valid
  obtain ⟨sent, rfl, sameId⟩ := validatePayload_id valid
  dsimp only
  split
  · trivial
  · rename_i id named
    split
    · trivial
    · rename_i target found
      have fits : (s.mergeEffect env id target incoming .annotationUpdated).Fits
          (.annotationUpdated (some sent) baseVersion) s.state.annotations := by
        apply mergeEffect_fits found (Json.string?_eq_some.mp named) fun _ => rfl
        simp only [StateOp.rewrites, Option.any_some, ← sameId, named, State.hasId_of_find found]
      repeat' split
      all_goals first | exact fits | exact rewritten_refl _ _

theorem planGroupMembershipChanged_fits (groupId members : Json) :
    (s.planGroupMembershipChanged env groupId members).Satisfies
      (·.Fits (.groupMembershipChanged groupId members) s.state.annotations)
      fun _ contents => List.Forall₂ (StateOp.groupMembershipChanged groupId members).Rewritten
        s.state.annotations contents := by
  unfold planGroupMembershipChanged
  split
  · rename_i id
    apply validated_satisfies (rewritten_refl _ _)
    intro members valid
    dsimp only
    split
    · exact rewritten_refl _ _
    · rename_i group found
      refine ⟨by simp [fanOut, AppliedOp.shared?], ?_, by rintro id ⟨⟩⟩
      rintro _ same
      cases same
      have isGroup : isGroup id group = true := List.find?_some found
      have held : group.hasId id = true := by
        simp only [Session.isGroup, Bool.and_eq_true] at isGroup
        exact isGroup.1
      exact replaceFirst_rewritten found
        (Or.inr ⟨by simpa [StateOp.rewrites] using held, group.get_id_withMembers _⟩)
  · exact rewritten_refl _ _

/-- Every branch rewrites in place only what the op may rewrite, also when it fails half-way. -/
theorem plan_fits (op : StateOp) :
    (s.plan cfg env client trusted op).Satisfies (·.Fits op s.state.annotations)
      fun _ contents => List.Forall₂ op.Rewritten s.state.annotations contents := by
  have kept := rewritten_refl op s.state.annotations
  cases op with
  | nodesRemoved nodeIds => exact planNodesRemoved_fits nodeIds
  | annotationCreated payload => exact planAnnotationCreated_fits payload
  | annotationUpdated payload baseVersion => exact planAnnotationUpdated_fits payload baseVersion
  | groupMembershipChanged groupId members => exact planGroupMembershipChanged_fits groupId members
  | annotationDeleted annotationId id =>
    simp only [plan, planAnnotationDeleted]
    split
    · rename_i named
      refine ⟨by simp [fanOut, AppliedOp.shared?], by rintro contents ⟨⟩, ?_⟩
      rintro id ⟨⟩
      rw [StateOp.annotationId?, named, Json.string?_str]
    · exact kept
  | nodeMoved nodeId position =>
    simp only [plan, planNodeMoved]
    split
    · exact validated_satisfies kept fun _ _ => fits_of_quiet rfl rfl
    · exact kept
  | sessionRenamed name =>
    simp only [plan, planSessionRenamed]
    split
    · exact fits_of_quiet rfl rfl
    · exact fits_of_quiet rfl rfl
    · exact kept
  | _ => exact validated_satisfies kept fun _ _ => fits_of_quiet rfl rfl

theorem judge_fits (call : Call) :
    (s.judge cfg call).Satisfies (·.Fits call.op s.state.annotations)
      fun _ contents => List.Forall₂ call.op.Rewritten s.state.annotations contents :=
  plan_fits call.op

end Session

end MetadataGraph
