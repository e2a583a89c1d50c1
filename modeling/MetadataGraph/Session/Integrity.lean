import MetadataGraph.Session.Edits

namespace MetadataGraph

open Runs

/-! ### The canvas -/

/-- Node references and id sets without duplicates, and an intensity in the unit interval. -/
structure Canvas.Tidy (c : Canvas) : Prop where
  nodeRefs : c.nodeRefs.Nodup
  sets : ∀ set, (c.ids set).Nodup
  intensity : 0 ≤ c.edgeIntensity ∧ c.edgeIntensity ≤ 1

theorem union_nodup {existing : List String} (distinct : existing.Nodup) (incoming : List String) :
    (union existing incoming).Nodup := by
  unfold union
  induction incoming generalizing existing with
  | nil => exact distinct
  | cons i incoming ih =>
    rw [List.foldl_cons]
    apply ih
    split
    · exact distinct
    · rename_i new
      rw [List.nodup_append']
      exact ⟨distinct, List.nodup_singleton i, by simpa using new⟩

theorem removeAll_nodup {existing : List String} (distinct : existing.Nodup) (removals : List String) :
    (removeAll existing removals).Nodup := distinct.filter _

theorem Canvas.Tidy.setIds {c : Canvas} (tidy : c.Tidy) (set : IdSet) {ids : List String} (distinct : ids.Nodup) :
    (c.setIds set ids).Tidy := by
  refine ⟨by simpa using tidy.nodeRefs, fun other => ?_, by simpa using tidy.intensity⟩
  by_cases same : other = set
  · subst same
    rw [ids_setIds_self]
    exact distinct
  · rw [ids_setIds_of_ne _ same]
    exact tidy.sets other

theorem validateIntensity_bounds {value : Json} {q : ℚ} (valid : validateIntensity value = .ok q) :
    0 ≤ q ∧ q ≤ 1 := by
  unfold validateIntensity at valid
  split at valid
  · cases valid
    exact ⟨le_max_left _ _, max_le zero_le_one (min_le_left _ _)⟩
  · cases valid

namespace Session

variable {cfg : StoreConfig} {env : Env} {client : String} {trusted : Bool} {s : Session Annotation}

/-- Every branch keeps the canvas tidy. -/
theorem plan_tidy (tidy : s.state.toCanvas.Tidy) (op : StateOp) :
    (s.plan cfg env client trusted op).Satisfies (·.canvas.Tidy) fun _ _ => True := by
  cases op with
  | nodesAdded nodeIds =>
    exact validated_satisfies trivial fun ids _ => ⟨union_nodup tidy.nodeRefs ids, tidy.sets, tidy.intensity⟩
  | nodesRemoved nodeIds =>
    apply validated_satisfies trivial
    intro removals valid
    dsimp only
    split
    · trivial
    · refine ⟨removeAll_nodup tidy.nodeRefs removals, fun set => ?_, tidy.intensity⟩
      cases set with
      | hiddenNodes => exact removeAll_nodup (tidy.sets .hiddenNodes) removals
      | hiddenEdges => exact tidy.sets .hiddenEdges
      | dimmedNodes => exact removeAll_nodup (tidy.sets .dimmedNodes) removals
      | dimmedEdges => exact tidy.sets .dimmedEdges
  | nodeMoved nodeId position =>
    simp only [plan, planNodeMoved]
    split
    · exact validated_satisfies trivial fun _ _ => ⟨tidy.nodeRefs, tidy.sets, tidy.intensity⟩
    · trivial
  | idsAdded set ids =>
    exact validated_satisfies trivial fun requested _ => tidy.setIds set (union_nodup (tidy.sets set) requested)
  | idsDropped set ids =>
    exact validated_satisfies trivial fun requested _ => tidy.setIds set (removeAll_nodup (tidy.sets set) requested)
  | edgeIntensitySet value =>
    exact validated_satisfies trivial fun _ valid => ⟨tidy.nodeRefs, tidy.sets, validateIntensity_bounds valid⟩
  | annotationCreated payload =>
    apply validated_satisfies trivial
    intro ann valid
    dsimp only
    repeat' split
    all_goals trivial
  | annotationUpdated payload baseVersion =>
    apply validated_satisfies trivial
    intro incoming valid
    dsimp only
    repeat' split
    all_goals trivial
  | annotationDeleted annotationId id =>
    simp only [plan, planAnnotationDeleted]
    split
    · exact tidy
    · trivial
  | groupMembershipChanged groupId members =>
    simp only [plan, planGroupMembershipChanged]
    split
    · apply validated_satisfies trivial
      intro members valid
      split
      · trivial
      · exact tidy
    · trivial
  | sessionRenamed name =>
    simp only [plan, planSessionRenamed]
    split
    · exact tidy
    · exact tidy
    · trivial
  | layoutApplied positions =>
    exact validated_satisfies trivial fun _ _ => ⟨tidy.nodeRefs, tidy.sets, tidy.intensity⟩
  | _ => exact validated_satisfies trivial fun _ _ => tidy

end Session

/-! ### The annotations -/

/-- An annotation as the store keeps it: a string id, and a valid type that `kind` repeats. -/
structure Annotation.Typed (a : Annotation) : Prop where
  named : ∃ id, a.get "id" = .str id
  typed : ∃ t ∈ annotationTypes, a.get "type" = .str t ∧ a.get "kind" = .str t

/-- An edit that keeps ids unique, the annotations typed and their number bounded. -/
def AnnotationEdit.Sound (max : Nat) (old : List Annotation) : AnnotationEdit → Prop
  | .rewrite contents => List.Forall₂ (fun a b => b.get "id" = a.get "id" ∧ (a.Typed → b.Typed)) old contents
  | .append ann => ann.Typed ∧ (∀ a ∈ old, a.get "id" ≠ ann.get "id") ∧ old.length < max
  | .remove _ => True

/-- Annotations with unique string ids and valid types, within the bound. -/
structure AnnotationsSound (max : Nat) (annotations : List Annotation) : Prop where
  unique : (annotations.map (·.get "id")).Nodup
  typed : ∀ a ∈ annotations, a.Typed
  bounded : annotations.length ≤ max

theorem forall₂_map_eq {R : Annotation → Annotation → Prop} {f : Annotation → Json} {old new : List Annotation}
    (related : List.Forall₂ R old new) (same : ∀ a b, R a b → f b = f a) : new.map f = old.map f := by
  induction related with
  | nil => rfl
  | cons step _ ih => rw [List.map_cons, List.map_cons, same _ _ step, ih]

theorem AnnotationEdit.Sound.contents {max : Nat} {old : List Annotation} {edit : AnnotationEdit}
    (sound : edit.Sound max old) (before : AnnotationsSound max old) : AnnotationsSound max (edit.contents old) := by
  cases edit with
  | rewrite contents =>
    refine ⟨?_, ?_, ?_⟩
    · change (contents.map (·.get "id")).Nodup
      rw [forall₂_map_eq sound fun _ _ step => step.1]
      exact before.unique
    · intro b member
      obtain ⟨i, inside, rfl⟩ := List.getElem_of_mem member
      have lengths := sound.length_eq
      change i < contents.length at inside
      have step := List.Forall₂.get sound (by omega) inside
      exact step.2 (before.typed _ (List.getElem_mem (by omega)))
    · rw [AnnotationEdit.contents, ← sound.length_eq]
      exact before.bounded
  | append ann =>
    obtain ⟨typed, fresh, room⟩ := sound
    refine ⟨?_, ?_, ?_⟩
    · rw [AnnotationEdit.contents, List.map_append, List.nodup_append']
      refine ⟨before.unique, List.nodup_singleton _, ?_⟩
      intro id old new
      obtain ⟨a, member, rfl⟩ := List.mem_map.mp old
      exact fresh a member (by simpa using new)
    · intro a member
      rcases List.mem_append.mp member with old | new
      · exact before.typed a old
      · rw [List.mem_singleton.mp new]
        exact typed
    · rw [AnnotationEdit.contents, List.length_append, List.length_singleton]
      omega
  | remove id =>
    refine ⟨before.unique.sublist (List.filter_sublist.map _), fun a member => ?_, ?_⟩
    · exact before.typed a (List.mem_filter.mp member).1
    · exact (List.length_filter_le _ _).trans before.bounded

theorem rewrite_same_sound (max : Nat) (old : List Annotation) : (AnnotationEdit.rewrite old).Sound max old :=
  List.forall₂_same.mpr fun _ _ => ⟨rfl, id⟩

/-- A validated payload carries its canonical type in both keys. -/
theorem validatePayload_typed {payload : Option (Dict Json)} {requireId : Bool} {ann : Dict Json}
    (valid : validatePayload payload requireId = .ok ann) :
    ∃ t ∈ annotationTypes, ann.get "type" = .str t ∧ ann.get "kind" = .str t ∧ "type" ∈ ann ∧ "kind" ∈ ann := by
  obtain ⟨sent, raw, -, -, listed, -, -, rfl⟩ := validatePayload_eq_ok.mp valid
  refine ⟨_, listed, ?_, ?_, ?_, ?_⟩
  · simp [canonicalPayload, Dict.get_insert, Dict.get_erase]
  · simp [canonicalPayload, Dict.get_insert, Dict.get_erase]
  · simp [canonicalPayload]
  · simp [canonicalPayload]

theorem Annotation.typed_merge {stamp : Nat} {target : Annotation} {incoming : Dict Json} {id t : String}
    (held : target.hasId id = true) (sent : incoming.get "id" = .str id) (listed : t ∈ annotationTypes)
    (type : incoming.get "type" = .str t) (kind : incoming.get "kind" = .str t) (hasType : "type" ∈ incoming)
    (hasKind : "kind" ∈ incoming) : (target.merge stamp incoming).Typed := by
  refine ⟨⟨id, ?_⟩, t, listed, ?_, ?_⟩
  · rw [get_id_merge held sent, hasId_iff.mp held]
  · rw [ Annotation.get, merge, Dict.get_union, if_pos hasType, type]
  · rw [ Annotation.get, merge, Dict.get_union, if_pos hasKind, kind]

theorem Annotation.typed_withMembers {a : Annotation} (typed : a.Typed) (members : List Json) :
    (a.withMembers members).Typed := by
  obtain ⟨named, t, listed, type, kind⟩ := typed
  have other : ∀ key, key ≠ "member_node_ids" → (a.withMembers members).get key = a.get key := by
    intro key differs
    rw [withMembers, Annotation.get, Dict.get_insert, if_neg (Ne.symm differs)]
    rfl
  rw [← other "id" (by decide)] at named
  rw [← other "type" (by decide)] at type
  rw [← other "kind" (by decide)] at kind
  exact ⟨named, t, listed, type, kind⟩

/-- Only the content keys count. -/
theorem Annotation.Typed.of_fields {a b : Annotation} (typed : a.Typed) (same : b.fields = a.fields) : b.Typed := by
  obtain ⟨named, type⟩ := typed
  simp only [ Annotation.get, ← same] at named type
  exact ⟨named, type⟩

theorem freshAnnotation_typed (env : Env) (client : String) {t : String} {ann : Dict Json} (listed : t ∈ annotationTypes)
    (type : ann.get "type" = .str t) (kind : ann.get "kind" = .str t) :
    (Session.freshAnnotation env client ann).Typed ∧
      (Session.freshAnnotation env client ann).get "id" = .str ((ann.get "id").string?.getD env.freshId) := by
  have keys : ∀ key, key ≠ "id" → key ≠ "created_by" →
      (Session.freshAnnotation env client ann).get key = ann.get key := by
    intro key notId notCreator
    simp only [Session.freshAnnotation, Annotation.get]
    repeat' split
    all_goals simp [Dict.get_insert, Ne.symm notId, Ne.symm notCreator]
  have id : (Session.freshAnnotation env client ann).get "id" = .str ((ann.get "id").string?.getD env.freshId) := by
    simp only [Session.freshAnnotation, Annotation.get]
    cases named : (ann.get "id").string? with
    | none => by_cases created : "created_by" ∈ ann.insert "id" (.str env.freshId) <;> simp_all [Dict.get_insert]
    | some id =>
      have sent := Json.string?_eq_some.mp named
      by_cases created : "created_by" ∈ ann <;> simp_all [Dict.get_insert]
  refine ⟨⟨⟨_, id⟩, t, listed, ?_, ?_⟩, id⟩
  · rw [keys "type" (by decide) (by decide), type]
  · rw [keys "kind" (by decide) (by decide), kind]

/-- What an edit draws from outside is an id that no annotation of the session has. -/
def Session.Fresh (s : Session Annotation) (env : Env) : Prop :=
  ∀ a ∈ s.state.annotations, a.get "id" ≠ .str env.freshId

/-- Whether the op takes the random id, for a new annotation that has none of its own. -/
def StateOp.draws : StateOp → Bool
  | .annotationCreated payload => payload.any fun ann => (ann.get "id").string?.isNone
  | _ => false

namespace Session

variable {cfg : StoreConfig} {env : Env} {client : String} {trusted : Bool} {s : Session Annotation}

theorem id_ne_of_find_none {id : String} (absent : s.state.find id = none) :
    ∀ a ∈ s.state.annotations, a.get "id" ≠ .str id := by
  intro a member same
  have missing := List.find?_eq_none.mp absent a member
  exact missing ( Annotation.hasId_iff.mpr same)

theorem mergeEffect_sound (cfg : StoreConfig) (env : Env) {payload : Option (Dict Json)} {requireId : Bool} {ann : Dict Json} {id : String}
    {target : Annotation} (valid : validatePayload payload requireId = .ok ann)
    (sent : (ann.get "id").string? = some id) (found : s.state.find id = some target) :
    (AnnotationEdit.rewrite (replaceFirst (·.hasId id) (target.merge env.stamp ann) s.state.annotations)).Sound
      cfg.maxAnnotations s.state.annotations := by
  obtain ⟨t, listed, type, kind, hasType, hasKind⟩ := validatePayload_typed valid
  have named := Json.string?_eq_some.mp sent
  have held := State.hasId_of_find found
  exact replaceFirst_forall₂ (fun _ => ⟨rfl, fun typed => typed⟩) found
    ⟨ Annotation.get_id_merge held named env.stamp,
      fun _ => Annotation.typed_merge held named listed type kind hasType hasKind⟩

/-- Every branch makes a sound edit of the annotations, if the random id it may draw is new. -/
theorem plan_sound {op : StateOp} (fresh : op.draws = true → s.Fresh env) :
    (s.plan cfg env client trusted op).Satisfies
      (fun e => e.edit.Sound cfg.maxAnnotations s.state.annotations) fun _ _ => True := by
  have same := rewrite_same_sound cfg.maxAnnotations s.state.annotations
  cases op with
  | nodesRemoved nodeIds =>
    apply validated_satisfies trivial
    intro removals valid
    dsimp only
    split
    · trivial
    · rename_i contents filtered
      refine dropMembers_forall₂ (fun a b filtered => ?_) filtered
      unfold Annotation.withoutMembers at filtered
      split at filtered
      · cases filtered
        exact ⟨rfl, fun typed => typed⟩
      · split at filtered
        · cases filtered
          exact ⟨a.get_id_withMembers _, fun typed => Annotation.typed_withMembers typed _⟩
        · cases filtered
  | annotationCreated payload =>
    apply validated_satisfies trivial
    intro ann valid
    obtain ⟨t, listed, type, kind, -⟩ := validatePayload_typed valid
    obtain ⟨typed, id⟩ := freshAnnotation_typed env client listed type kind
    obtain ⟨payload, rfl, sameId⟩ := validatePayload_id valid
    dsimp only
    split
    · trivial
    · split
      · trivial
      · split
        · rename_i id target sent found
          split
          · trivial
          · rw [sent, Option.bind_some] at found
            exact mergeEffect_sound cfg env valid sent found
        · rename_i unmatched
          split
          · trivial
          · rename_i room
            refine ⟨typed, ?_, by omega⟩
            rw [id]
            cases sent : (ann.get "id").string? with
            | none => exact fresh (by rw [StateOp.draws, Option.any_some, ← sameId, sent]; rfl)
            | some id =>
              cases found : s.state.find id with
              | none => exact id_ne_of_find_none found
              | some target => exact absurd (by rw [sent, Option.bind_some, found]) (unmatched id target sent)
  | annotationUpdated payload baseVersion =>
    apply validated_satisfies trivial
    intro incoming valid
    dsimp only
    split
    · trivial
    · rename_i id sent
      split
      · trivial
      · rename_i target found
        have sound := mergeEffect_sound cfg env valid sent found
        repeat' split
        all_goals trivial
  | annotationDeleted annotationId id =>
    simp only [plan, planAnnotationDeleted]
    split <;> trivial
  | groupMembershipChanged groupId members =>
    simp only [plan, planGroupMembershipChanged]
    split
    · apply validated_satisfies trivial
      intro members valid
      split
      · trivial
      · rename_i group found
        exact replaceFirst_forall₂ (fun _ => ⟨rfl, fun typed => typed⟩) found
          ⟨group.get_id_withMembers _, fun typed => ( Annotation.typed_withMembers typed _).of_fields rfl⟩
    · trivial
  | nodeMoved nodeId position =>
    simp only [plan, planNodeMoved]
    split
    · exact validated_satisfies trivial fun _ _ => same
    · trivial
  | sessionRenamed name =>
    simp only [plan, planSessionRenamed]
    split
    · exact same
    · exact same
    · trivial
  | _ => exact validated_satisfies trivial fun _ _ => same

end Session

/-! ### The activity log -/

/-- A log within its bound whose records are numbered in ascending order up to `seq`. -/
structure LogSound (cfg : StoreConfig) (seq : Nat) (log : List ActivityRecord) : Prop where
  bounded : 0 < cfg.maxActivityRecords → log.length ≤ cfg.maxActivityRecords
  ascending : (log.map (·.seq)).Pairwise (· < ·)
  below : ∀ n ∈ log.map (·.seq), n ≤ seq

theorem pruneActivityLog_sublist (cfg : StoreConfig) (now : Nat) (log : List ActivityRecord) :
    (pruneActivityLog cfg now log).Sublist log := by
  have kept : (if cfg.activityMaxAge > 0 then
      log.filter fun r => now ≤ r.occurredAt * 1000000 + cfg.activityMaxAge else log).Sublist log := by
    split
    · exact List.filter_sublist
    · exact List.Sublist.refl log
  unfold pruneActivityLog
  dsimp only
  split
  · exact (List.drop_sublist _ _).trans kept
  · exact kept

theorem length_pruneActivityLog (cfg : StoreConfig) (now : Nat) (log : List ActivityRecord)
    (limited : 0 < cfg.maxActivityRecords) : (pruneActivityLog cfg now log).length ≤ cfg.maxActivityRecords := by
  unfold pruneActivityLog
  dsimp only
  rw [if_pos (show cfg.maxActivityRecords > 0 from limited), List.length_drop]
  omega

/-- The log after an op accepted under the next number. -/
theorem LogSound.log {cfg : StoreConfig} {seq : Nat} {log : List ActivityRecord} (sound : LogSound cfg seq log)
    (call : Call) (activity : Option ActivityDraft) : LogSound cfg (seq + 1) (call.log cfg (seq + 1) log activity) := by
  have older : LogSound cfg (seq + 1) log :=
    ⟨sound.bounded, sound.ascending, fun n member => (sound.below n member).trans (Nat.le_succ seq)⟩
  cases activity with
  | none => exact older
  | some draft =>
    rw [Call.log]
    split
    · generalize recorded : ({ op := call.op.name, actor := call.client, seq := seq + 1, occurredAt := call.env.stamp
                               affected := draft.affected, before := draft.before, after := draft.after
                               inverseOp := some draft.inverseOp } : ActivityRecord) = record
      have number : record.seq = seq + 1 := by rw [← recorded]
      have kept := (pruneActivityLog_sublist cfg call.env.now (log ++ [record])).map (·.seq)
      have appended : ((log ++ [record]).map (·.seq)).Pairwise (· < ·) := by
        rw [List.map_append, List.map_singleton, List.pairwise_append]
        refine ⟨sound.ascending, List.pairwise_singleton _ _, fun n old m new => ?_⟩
        have bound := sound.below n old
        rw [List.mem_singleton.mp new, number]
        omega
      refine ⟨length_pruneActivityLog cfg _ _, appended.sublist kept, fun n member => ?_⟩
      have member := kept.subset member
      rw [List.map_append, List.map_singleton, List.mem_append, List.mem_singleton, number] at member
      rcases member with old | rfl
      · exact older.below n old
      · exact le_refl _
    · exact older

/-- The mark of an undo changes neither the length of the log nor its numbers. -/
theorem Server.seq_markUndone (stamp : Nat) (actor : String) (log : List ActivityRecord) :
    (markUndone stamp actor log).map (·.seq) = log.map (·.seq) := by
  have latest : ∀ log, (markUndone.markLatest stamp actor log).map (·.seq) = log.map (·.seq) := by
    intro log
    induction log with
    | nil => rfl
    | cons r log ih =>
      rw [markUndone.markLatest]
      split
      · rfl
      · rw [List.map_cons, List.map_cons, ih]
  rw [markUndone, List.map_reverse, latest, List.map_reverse, List.reverse_reverse]

theorem LogSound.markUndone {cfg : StoreConfig} {seq : Nat} {log : List ActivityRecord} (sound : LogSound cfg seq log)
    (stamp : Nat) (actor : String) : LogSound cfg seq (Server.markUndone stamp actor log) := by
  have numbers := Server.seq_markUndone stamp actor log
  refine ⟨fun limited => ?_, numbers ▸ sound.ascending, numbers ▸ sound.below⟩
  rw [← List.length_map (f := (·.seq)), numbers, List.length_map]
  exact sound.bounded limited

/-! ### The whole session -/

/-- A session with a tidy canvas, sound annotations and a sound activity log. -/
structure Session.WellFormed (cfg : StoreConfig) (s : Session Annotation) : Prop where
  canvas : s.state.toCanvas.Tidy
  annotations : AnnotationsSound cfg.maxAnnotations s.state.annotations
  log : LogSound cfg s.seq s.activityLog

/-- None of the ids occurs among the nodes, the positions, the hidden and dimmed nodes or the
members of an annotation. -/
structure Session.Rid (ids : List String) (s : Session Annotation) : Prop where
  nodeRefs : ∀ id ∈ ids, id ∉ s.state.nodeRefs
  positions : ∀ id ∈ ids, id ∉ s.state.positions
  hidden : ∀ id ∈ ids, id ∉ s.state.hiddenNodeIds
  dimmed : ∀ id ∈ ids, id ∉ s.state.dimmedNodeIds
  members : ∀ a ∈ s.state.annotations, a.hasMemberIn ids = false

namespace Session

variable {cfg : StoreConfig} {s after : Session Annotation}

theorem wellFormed_empty (cfg : StoreConfig) (name : Option String) (now : Nat) :
    WellFormed cfg { name := name, updatedAt := now } := by
  refine ⟨⟨List.nodup_nil, fun set => ?_, zero_le_one, le_refl _⟩, ⟨List.nodup_nil, by simp, Nat.zero_le _⟩,
    ⟨fun _ => Nat.zero_le _, List.Pairwise.nil, by simp⟩⟩
  cases set <;> exact List.nodup_nil

theorem WellFormed.applied_of_draws {call : Call} {op : Applied Annotation} (wellFormed : s.WellFormed cfg)
    (fresh : call.op.draws = true → s.Fresh call.env) (accepted : s.applyStateOp cfg call = .applied op after) :
    after.WellFormed cfg := by
  obtain ⟨e, verdict, -, rfl⟩ := applyStateOp_applied accepted
  rw [judge] at verdict
  have tidy : (Verdict.accept e).Satisfies (·.canvas.Tidy) fun _ _ => True :=
    verdict ▸ plan_tidy wellFormed.canvas call.op
  have sound : (Verdict.accept e).Satisfies
      (fun e => e.edit.Sound cfg.maxAnnotations s.state.annotations) fun _ _ => True :=
    verdict ▸ plan_sound fresh
  exact ⟨tidy, sound.contents wellFormed.annotations, wellFormed.log.log call e.activity⟩

theorem WellFormed.applied {call : Call} {op : Applied Annotation} (wellFormed : s.WellFormed cfg)
    (fresh : s.Fresh call.env) (accepted : s.applyStateOp cfg call = .applied op after) : after.WellFormed cfg :=
  wellFormed.applied_of_draws (fun _ => fresh) accepted

theorem WellFormed.edit {edit : Edit} {op : Applied Annotation} (wellFormed : s.WellFormed cfg)
    (fresh : s.Fresh edit.env) (edited : s.edit cfg edit = some (after, op)) : after.WellFormed cfg := by
  cases edit with
  | op call => exact wellFormed.applied fresh (edit_op.mp edited)
  | undo env actor =>
    obtain ⟨record, inverse, replayed, -, -, -, accepted, rfl⟩ := undoLast_applied (edit_undo.mp edited)
    generalize forgot : ({ s with deletedAnnotationIds := (Server.forgetDeleted inverse s.deletedAnnotationIds) } :
      Session Annotation) = forgotten at accepted
    have wellFormed : forgotten.WellFormed cfg := by
      subst forgot
      exact ⟨wellFormed.canvas, wellFormed.annotations, wellFormed.log⟩
    have fresh : forgotten.Fresh env := by
      subst forgot
      exact fresh
    obtain ⟨canvas, annotations, log⟩ := wellFormed.applied fresh accepted
    exact ⟨canvas, annotations, log.markUndone _ _⟩

/-- The members that the filter of `nodes_removed` leaves. -/
theorem hasMemberIn_withoutMembers {ids : List String} {a b : Annotation} (filtered : a.withoutMembers ids = some b) :
    b.hasMemberIn ids = false := by
  unfold Annotation.withoutMembers at filtered
  split at filtered
  · rename_i unlisted
    cases filtered
    rw [ Annotation.hasMemberIn, unlisted]
    rfl
  · rename_i members listed
    split at filtered
    · cases filtered
      have kept : (a.withMembers (members.filter fun m => !m.isIdIn ids)).members? =
          some (members.filter fun m => !m.isIdIn ids) := by
        rw [ Annotation.members?_eq_some, Annotation.withMembers, Annotation.get, Dict.get_insert, if_pos rfl]
      simp [ Annotation.hasMemberIn, kept]
    · cases filtered

/-- An accepted `nodes_removed` leaves no trace of the nodes it names. -/
theorem rid_of_nodesRemoved {call : Call} {op : Applied Annotation} {nodeIds : Json} {ids : List String}
    (removal : call.op = .nodesRemoved nodeIds) (listed : nodeIds.strings? = some ids)
    (accepted : s.applyStateOp cfg call = .applied op after) : after.Rid ids := by
  obtain ⟨e, verdict, -, rfl⟩ := applyStateOp_applied accepted
  rw [judge, removal, plan, planNodesRemoved, requireIdList, listed] at verdict
  dsimp only [validated] at verdict
  split at verdict
  · cases verdict
  · rename_i contents filtered
    cases verdict
    refine ⟨?_, ?_, ?_, ?_, ?_⟩
    · intro id member
      simp [commit, member]
    · intro id member
      simp [commit, Std.ExtTreeMap.mem_filter, member]
    · intro id member
      simp [commit, member]
    · intro id member
      simp [commit, member]
    · intro b member
      have dropped : List.Forall₂ (fun _ b : Annotation => b.hasMemberIn ids = false) s.state.annotations contents :=
        dropMembers_forall₂ (fun a b filtered => hasMemberIn_withoutMembers filtered) filtered
      obtain ⟨i, inside, rfl⟩ := List.getElem_of_mem member
      change i < contents.length at inside
      have lengths := dropped.length_eq
      exact List.Forall₂.get dropped (by omega) inside

/-- Every session that accepted ops and undos lead to from an empty one is well-formed, if the
random ids are new, and right after a `nodes_removed` it holds none of the removed nodes. -/
theorem run_wellFormed {name : Option String} {now : Nat} {history : List (Edit × Applied Annotation)}
    (run : Run (Session.edit cfg) (fun _ s edit => s.Fresh edit.env) { name := name, updatedAt := now } history s) :
    s.WellFormed cfg ∧ ∀ call op after nodeIds ids, call.op = .nodesRemoved nodeIds →
      nodeIds.strings? = some ids → s.applyStateOp cfg call = .applied op after → after.Rid ids :=
  ⟨run.invariant (fun _ s => s.WellFormed cfg) (wellFormed_empty cfg name now)
    fun wellFormed fresh edited => wellFormed.edit fresh edited,
    fun _ _ _ _ _ removal listed accepted => rid_of_nodesRemoved removal listed accepted⟩

instance (s : Session Annotation) (env : Env) : Decidable (s.Fresh env) := by
  unfold Fresh
  infer_instance

/-- A node, a group that holds it, the group's deletion and its undo. -/
def groupRun : List Edit :=
  let call (op : StateOp) : Edit := .op { env := { now := 1000000, freshId := "new" }, client := "ada", op := op }
  [call (.nodesAdded (.ofStrings ["n"])),
    call (.annotationCreated (some (.of [("type", .str "group"), ("id", .str "g"),
      ("member_node_ids", .ofStrings ["n"])]))),
    call (.annotationDeleted (.str "g") .null), .undo { now := 2000000, freshId := "new" } "ada"]

theorem run_wellFormed_sample :
    ∃ s : Session Annotation, s.seq = 4 ∧ s.WellFormed {} ∧
      ∃ op after, s.applyStateOp {} { env := { now := 3000000, freshId := "new" }, client := "ada"
                                      op := .nodesRemoved (.ofStrings ["n"]) } = .applied op after ∧
        after.Rid ["n"] := by
  have taken : ((trace (edit {}) (fun s edit => s.Fresh edit.env) [] { updatedAt := 0 } groupRun).map fun ended =>
      (ended.2.seq, (ended.2.edit {} (.op { env := { now := 3000000, freshId := "new" }, client := "ada"
                                            op := .nodesRemoved (.ofStrings ["n"]) })).isSome)) =
      some (4, true) := by decide +kernel
  obtain ⟨⟨history, s⟩, traced, facts⟩ := Option.map_eq_some_iff.mp taken
  simp only [Prod.mk.injEq] at facts
  obtain ⟨number, enabled⟩ := facts
  obtain ⟨⟨after, op⟩, edited⟩ := Option.isSome_iff_exists.mp enabled
  obtain ⟨wellFormed, rid⟩ := run_wellFormed ((Run.trace .start traced).mono of_decide_eq_true)
  exact ⟨s, number, wellFormed, op, after, edit_op.mp edited,
    rid _ op after _ ["n"] rfl (by decide) (edit_op.mp edited)⟩

end Session

end MetadataGraph
