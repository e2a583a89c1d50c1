import MetadataGraph.Session.Versions

namespace MetadataGraph

open Runs

/-- The op that an edit performs: its own, or the stored inverse of the actor's last action. -/
def Edit.op? (s : Session Annotation) : Edit → Option StateOp
  | .op call => some call.op
  | .undo _ actor => (findLatestUndoable s.activityLog actor).bind ActivityRecord.inverseOp

/-- The op changes the list of members of an annotation, and does not count it as a change. -/
def StateOp.Regroups (a : Annotation) : StateOp → Prop
  | .nodesRemoved nodeIds => a.hasMemberIn (nodeIds.strings?.getD []) = true
  | .groupMembershipChanged groupId members => groupId.string?.any (a.hasId ·) = true ∧ a.get "member_node_ids" ≠ members
  | _ => False

instance (a : Annotation) (op : StateOp) : Decidable (op.Regroups a) := by
  unfold StateOp.Regroups
  split <;> infer_instance

/-- The edit leaves the annotation with this id in the session, and if the field is the list of members
it does not change it without a version. -/
def Session.Tracks (id f : String) (s : Session Annotation) (edit : Edit) : Prop :=
  ∀ op ∈ edit.op? s, ¬ op.Deletes id ∧ (f = "member_node_ids" → ∀ a ∈ s.state.find id, ¬ op.Regroups a)

/-- What becomes of an annotation as far as one field is concerned: versions grow, and a field that gets
another value gets a version that the annotation did not have before. -/
structure Annotation.Advances (f : String) (a b : Annotation) : Prop where
  version : a.priorVersion ≤ b.priorVersion
  field : a.fieldVersions.getD f 1 ≤ b.fieldVersions.getD f 1
  changed : b.get f = a.get f ∨ a.priorVersion < b.fieldVersions.getD f 1

theorem Json.eq_ofStrings {value : Json} {ids : List String} (listed : value.strings? = some ids) :
    value = .ofStrings ids := by
  cases value with
  | arr items =>
    rw [Json.ofStrings]
    congr 1
    rw [Json.strings?] at listed
    induction items generalizing ids with
    | nil =>
      cases listed
      rfl
    | cons item items ih =>
      rw [List.mapM_cons] at listed
      obtain ⟨id, named, others⟩ := Option.bind_eq_some_iff.mp listed
      obtain ⟨rest, more, same⟩ := Option.bind_eq_some_iff.mp others
      obtain rfl : id :: rest = ids := Option.some.inj same
      rw [List.map_cons, ← ih more, Json.string?_eq_some.mp named]
  | _ => cases listed

namespace Annotation

theorem Advances.refl (f : String) (a : Annotation) : Advances f a a := ⟨le_rfl, le_rfl, .inl rfl⟩

theorem Advances.trans {f : String} {a b c : Annotation} (first : Advances f a b) (second : Advances f b c) :
    Advances f a c where
  version := first.version.trans second.version
  field := first.field.trans second.field
  changed := by
    rcases second.changed with same | later
    · rcases first.changed with same' | earlier
      · exact .inl (same.trans same')
      · exact .inr (earlier.trans_le second.field)
    · exact .inr (first.version.trans_lt later)

theorem getD_foldl_insert (fields : List String) (versions : Dict Nat) (n : Nat) (f : String) :
    (fields.foldl (fun versions field => versions.insert field n) versions).getD f 1 =
      if f ∈ fields then n else versions.getD f 1 := by
  induction fields generalizing versions with
  | nil => simp
  | cons field fields ih =>
    rw [List.foldl_cons, ih, Std.ExtTreeMap.getD_insert]
    by_cases here : f = field
    · subst here
      simp
    · have differ : compare field f ≠ .eq := fun same => here (Std.LawfulEqCmp.eq_of_compare same).symm
      simp [here, differ]

theorem mem_changedFields {target : Annotation} {incoming : Dict Json} {f : String} (content : f ∉ metaFields)
    (moved : Dict.get (target.fields ∪ incoming) f ≠ target.get f) : f ∈ changedFields target incoming := by
  rw [Dict.get_union] at moved
  split at moved
  · rename_i sent
    exact List.mem_filter.mpr ⟨Std.ExtTreeMap.mem_keys.mpr sent, by simpa using ⟨content, moved⟩⟩
  · exact absurd rfl moved

theorem fieldVersion_le {a : Annotation} (versioned : a.Versioned) (f : String) : a.fieldVersions.getD f 1 ≤ a.priorVersion := by
  rw [Std.ExtTreeMap.getD_eq_getD_getElem?]
  cases found : a.fieldVersions[f]? with
  | none => exact a.priorVersion_pos
  | some v => exact versioned.fields f v found

theorem advances_merge {f : String} {a : Annotation} (content : f ∉ metaFields) (versioned : a.Versioned) (stamp : Nat)
    (incoming : Dict Json) : Advances f a (a.merge stamp incoming) where
  version := Nat.le_succ a.priorVersion
  field := by
    rw [merge, getD_foldl_insert]
    split
    · exact (fieldVersion_le versioned f).trans (Nat.le_succ _)
    · exact le_rfl
  changed := by
    by_cases moved : (a.merge stamp incoming).get f = a.get f
    · exact .inl moved
    · refine .inr ?_
      rw [merge, getD_foldl_insert, if_pos (mem_changedFields content moved)]
      exact Nat.lt_succ_self _

theorem hasMemberIn_of_withoutMembers {drop : List String} {a b : Annotation} (filtered : a.withoutMembers drop = some b)
    (kept : a.hasMemberIn drop = false) : b = a := by
  unfold withoutMembers at filtered
  split at filtered
  · exact (Option.some.inj filtered).symm
  · rename_i members listed
    split at filtered
    · have none : members.any (·.isIdIn drop) = false := by simpa [hasMemberIn, listed] using kept
      have keep : members.filter (fun m => !m.isIdIn drop) = members :=
        List.filter_eq_self.mpr fun m member => by simpa using List.any_eq_false.mp none m member
      rw [keep, withMembers_self listed] at filtered
      exact (Option.some.inj filtered).symm
    · cases filtered

end Annotation

/-- Whatever an op does to an annotation that it leaves, its field advances. -/
theorem Session.Change.advances {op : StateOp} {f : String} {a b : Annotation} (change : Session.Change op a b)
    (content : f ∉ metaFields) (versioned : a.Versioned) (kept : f = "member_node_ids" → ¬ op.Regroups a) :
    a.Advances f b := by
  cases change with
  | same => exact .refl f a
  | merged stamp named => exact Annotation.advances_merge content versioned stamp _
  | @filtered nodeIds drop _ removal listed filtered =>
    by_cases members : f = "member_node_ids"
    · have untouched : a.hasMemberIn drop = false := by
        have spared := kept members
        rw [removal, StateOp.Regroups, listed] at spared
        exact Bool.eq_false_iff.mpr spared
      rw [ Annotation.hasMemberIn_of_withoutMembers filtered untouched]
      exact .refl f a
    · unfold Annotation.withoutMembers at filtered
      split at filtered
      · cases filtered
        exact .refl f a
      · split at filtered
        · cases filtered
          exact ⟨le_rfl, le_rfl, .inl ( Annotation.get_withMembers a _ members)⟩
        · cases filtered
  | @regrouped id list members stamp regrouping listed group =>
    refine ⟨le_rfl, le_rfl, .inl ?_⟩
    by_cases field : f = "member_node_ids"
    · have spared := kept field
      have named : a.hasId id = true := by
        rw [isGroup, Bool.and_eq_true] at group
        exact group.1
      rw [regrouping, StateOp.Regroups, Json.string?_str, Option.any_some] at spared
      have same : a.get "member_node_ids" = list := by
        by_contra differ
        exact spared ⟨named, differ⟩
      rw [field, same, Json.eq_ofStrings listed, Annotation.get, Annotation.withMembers, Dict.get_insert, if_pos rfl]
      rfl
    · exact Annotation.get_withMembers a _ field

theorem Session.Change.get_id {op : StateOp} {a b : Annotation} (change : Session.Change op a b) :
    b.get "id" = a.get "id" := by
  cases change with
  | same => rfl
  | merged stamp named =>
    rw [ Annotation.get, Annotation.merge, Dict.get_union, named]
    exact ite_self _
  | regrouped => exact Annotation.get_id_withMembers _ _
  | filtered removal listed filtered =>
    unfold Annotation.withoutMembers at filtered
    split at filtered
    · cases filtered
      rfl
    · split at filtered
      · cases filtered
        exact Annotation.get_id_withMembers _ _
      · cases filtered

/-- The first annotation with an id stays the first with it under a change that keeps the ids. -/
theorem find?_of_forall₂ {R : Annotation → Annotation → Prop} (ids : ∀ a b, R a b → b.get "id" = a.get "id")
    {old new : List Annotation} (related : List.Forall₂ R old new) {id : String} {a : Annotation}
    (found : old.find? (·.hasId id) = some a) : ∃ b, new.find? (·.hasId id) = some b ∧ R a b := by
  induction related with
  | nil => cases found
  | @cons first first' old new change _ ih =>
    have named : first'.hasId id = first.hasId id := by rw [ Annotation.hasId, Annotation.hasId, ids _ _ change]
    rw [List.find?_cons] at found ⊢
    rw [named]
    split at found
    · cases found
      exact ⟨first', rfl, change⟩
    · exact ih found

namespace Session

variable {cfg : StoreConfig} {s t : Session Annotation} {id f : String} {a : Annotation}

/-- An op that does not remove an annotation changes it in one of the ways. -/
theorem find_applied {call : Call} {applied : Applied Annotation} (accepted : s.applyStateOp cfg call = .applied applied t)
    (found : s.state.find id = some a) (spared : ¬ call.op.Deletes id) :
    ∃ b, t.state.find id = some b ∧ Change call.op a b := by
  obtain ⟨e, verdict, -, rfl⟩ := applyStateOp_applied accepted
  have changes : (s.judge cfg call).Satisfies _ _ := plan_changes call.op
  rw [verdict] at changes
  change Changes call.op s.state.annotations e.edit at changes
  change ∃ b, (e.edit.contents s.state.annotations).find? (·.hasId id) = some b ∧ _
  cases kind : e.edit with
  | rewrite contents =>
    rw [kind] at changes
    exact find?_of_forall₂ (fun _ _ change => change.get_id) changes found
  | append ann =>
    refine ⟨a, ?_, .same⟩
    rw [ AnnotationEdit.contents, List.find?_append, show s.state.annotations.find? (·.hasId id) = some a from found]
    rfl
  | remove removed =>
    rw [kind] at changes
    have other : id ≠ removed := fun same => spared (same ▸ changes)
    exact ⟨a, (find?_remove other _).trans found, .same⟩

/-- One accepted edit: the versions stay sound, and the field of the annotation advances. -/
theorem advances_edit {edit : Edit} {applied : Applied Annotation} (edited : s.edit cfg edit = some (t, applied))
    (versioned : ∀ a ∈ s.state.annotations, a.Versioned) (content : f ∉ metaFields) (tracks : s.Tracks id f edit)
    (found : s.state.find id = some a) : ∃ b, t.state.find id = some b ∧ a.Advances f b := by
  have held := versioned a (State.mem_of_find found)
  cases edit with
  | op call =>
    obtain ⟨spared, kept⟩ := tracks call.op rfl
    obtain ⟨b, found', change⟩ := find_applied (edit_op.mp edited) found spared
    exact ⟨b, found', change.advances content held fun members => kept members a found⟩
  | undo env actor =>
    obtain ⟨record, inverse, replayed, latest, -, stored, accepted, rfl⟩ := undoLast_applied (edit_undo.mp edited)
    obtain ⟨spared, kept⟩ := tracks inverse (by rw [Edit.op?, latest]; exact stored)
    obtain ⟨b, found', change⟩ := find_applied accepted found spared
    exact ⟨b, found', change.advances content held fun members => kept members a found⟩

theorem versioned_edit {edit : Edit} {applied : Applied Annotation} (edited : s.edit cfg edit = some (t, applied))
    (versioned : ∀ a ∈ s.state.annotations, a.Versioned) : ∀ a ∈ t.state.annotations, a.Versioned := by
  cases edit with
  | op call => exact versioned_applied (edit_op.mp edited) versioned
  | undo env actor =>
    obtain ⟨record, inverse, replayed, -, -, -, accepted, rfl⟩ := undoLast_applied (edit_undo.mp edited)
    have kept := versioned_applied accepted versioned
    exact kept

theorem versioned_run {allowed : List (Edit × Applied Annotation) → Session Annotation → Edit → Prop}
    {history : List (Edit × Applied Annotation)} (run : Run (edit cfg) allowed s history t)
    (versioned : ∀ a ∈ s.state.annotations, a.Versioned) : ∀ a ∈ t.state.annotations, a.Versioned := by
  induction run with
  | start => exact versioned
  | next _ _ edited ih => exact versioned_edit edited ih

/-- Over a run that leaves the annotation in the session its versions grow. -/
theorem advances_run {history : List (Edit × Applied Annotation)}
    (run : Run (edit cfg) (fun _ s edit => s.Tracks id f edit) s history t)
    (versioned : ∀ a ∈ s.state.annotations, a.Versioned) (content : f ∉ metaFields) (found : s.state.find id = some a) :
    ∃ b, t.state.find id = some b ∧ a.Advances f b := by
  induction run with
  | start => exact ⟨a, found, .refl f a⟩
  | next before tracks edited ih =>
    obtain ⟨b, found', advances⟩ := ih
    obtain ⟨c, found'', later⟩ := advances_edit edited (versioned_run before versioned) content tracks found'
    exact ⟨c, found'', advances.trans later⟩

end Session

/-- An update that the store would take without its base version, and that moves a field which changed
after that version, is refused, and the conflict names the field. -/
theorem Session.raises_conflict {cfg : StoreConfig} {s after : Session Annotation} {call : Call} {patch : Dict Json}
    {id f : String} {v : Nat} {c c' : Annotation} {applied : Applied Annotation} (named : patch.get "id" = .str id)
    (update : call.op = .annotationUpdated (some patch) .null) (given : call.trustedReplay = false)
    (accepted : s.applyStateOp cfg call = .applied applied after) (found : s.state.find id = some c)
    (found' : after.state.find id = some c') (content : f ∉ metaFields) (moved : c'.get f ≠ c.get f)
    (newer : v < c.fieldVersions.getD f 1) :
    ∃ conflicts, s.applyStateOp cfg { call with op := .annotationUpdated (some patch) (.num v) } =
      .raised (.annotationFieldConflict (.str id) conflicts c) s ∧ f ∈ conflicts.map Prod.fst := by
  obtain ⟨e, verdict, -, rfl⟩ := applyStateOp_applied accepted
  rw [judge, update, given, plan, planAnnotationUpdated] at verdict
  cases valid : validatePayload (some patch) true with
  | error failure =>
    rw [valid] at verdict
    cases verdict
  | ok incoming =>
    obtain ⟨sent, same, ids⟩ := validatePayload_id valid
    obtain rfl := Option.some.inj same
    have theId : incoming.get "id" = .str id := ids.trans named
    have held : c.get "id" = .str id := Annotation.hasId_iff.mp (State.hasId_of_find found)
    simp only [valid, validated, theId, Json.string?_str, found, Bool.false_eq_true, if_false] at verdict
    split at verdict
    · cases verdict
    rename_i sameType
    split at verdict
    · cases verdict
    rename_i image
    simp only [decide_true, Bool.or_true, if_true, Verdict.accept.injEq] at verdict
    subst verdict
    have merged : (c.merge call.env.stamp incoming).hasId id = true :=
      Annotation.hasId_iff.mpr (( Annotation.get_id_merge (State.hasId_of_find found) theId _).trans held)
    obtain rfl : c.merge call.env.stamp incoming = c' :=
      Option.some.inj ((find?_replaceFirst found merged).symm.trans found')
    have changed := Annotation.mem_changedFields content moved
    have conflict : (f, c.fieldVersions.getD f 1) ∈ fieldConflicts c incoming v :=
      List.mem_filter.mpr ⟨List.mem_map_of_mem changed, by simpa using newer⟩
    refine ⟨fieldConflicts c incoming v, ?_, List.mem_map.mpr ⟨_, conflict, rfl⟩⟩
    have whole : (Json.num (v : ℚ)).integer? = some (v : Int) := rfl
    have some : fieldConflicts c incoming v ≠ [] := List.ne_nil_of_mem conflict
    simp only [applyStateOp, judge, given, plan, planAnnotationUpdated, valid, validated, theId, Json.string?_str, found,
      if_neg sameType, image, Bool.false_eq_true, if_false, whole, if_neg some, Bool.false_or, reduceCtorEq, decide_false,
      held, refuse]

namespace Session

section Claim

variable {cfg : StoreConfig} {t u u' s : Session Annotation} {id f : String} {a : Annotation}

end Claim

/-- An op of a client at a time in seconds. -/
def opAt (client : String) (second : Nat) (op : StateOp) : Edit :=
  .op { env := { now := second * 1000000, freshId := "new" }, client := client, op := op }

/-- An update of the note with this text, based on a version. -/
def retext (text : String) (base : Json) : StateOp :=
  .annotationUpdated (some (.of [("type", .str "note"), ("id", .str "a"), ("text", .str text)])) base

def noteCreated : Edit :=
  opAt "ada" 1 (.annotationCreated (some (.of [("type", .str "note"), ("id", .str "a"), ("text", .str "first")])))

end Session

end MetadataGraph
