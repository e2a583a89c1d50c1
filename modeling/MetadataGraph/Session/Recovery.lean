import MetadataGraph.Session.Wellformed

namespace MetadataGraph

open ObjectHeap Runs

/-- The annotation objects that the entries of a ring name. -/
def ringRefs (ring : List (Applied Ref)) : List Ref := ring.filterMap (·.op.shared?)

def StateOp.deletes : StateOp → Bool
  | .annotationDeleted _ _ => true
  | _ => false

def StateOp.renames : StateOp → Bool
  | .sessionRenamed _ => true
  | _ => false

/-- Only a deletion touches the deleted-annotation memory, and only a rename the name. -/
theorem Session.judge_keeps (cfg : StoreConfig) (call : Call) (s : Session Annotation) :
    (s.judge cfg call).Satisfies
      (fun e => (call.op.deletes = false → e.deletedAnnotationIds = s.deletedAnnotationIds) ∧
        (call.op.renames = false → e.name = s.name))
      fun _ _ => True := by
  obtain ⟨env, client, recordActivity, trustedReplay, op⟩ := call
  simp only [judge]
  cases op with
  | annotationDeleted annotationId id =>
    simp only [plan, planAnnotationDeleted]
    split
    · exact ⟨by simp [StateOp.deletes], fun _ => rfl⟩
    · trivial
  | sessionRenamed name =>
    simp only [plan, planSessionRenamed]
    split
    · exact ⟨fun _ => rfl, by simp [StateOp.renames]⟩
    · exact ⟨fun _ => rfl, by simp [StateOp.renames]⟩
    · trivial
  | nodeMoved nodeId position =>
    simp only [plan, planNodeMoved]
    split
    · exact validated_satisfies trivial fun _ _ => ⟨fun _ => rfl, fun _ => rfl⟩
    · trivial
  | nodesRemoved nodeIds =>
    apply validated_satisfies trivial
    intro removals valid
    dsimp only
    split
    · trivial
    · exact ⟨fun _ => rfl, fun _ => rfl⟩
  | groupMembershipChanged groupId members =>
    simp only [plan, planGroupMembershipChanged]
    split
    · apply validated_satisfies trivial
      intro members valid
      split
      · trivial
      · exact ⟨fun _ => rfl, fun _ => rfl⟩
    · trivial
  | annotationCreated payload =>
    apply validated_satisfies trivial
    intro ann valid
    dsimp only
    repeat' split
    all_goals first | trivial | exact ⟨fun _ => rfl, fun _ => rfl⟩
  | annotationUpdated payload baseVersion =>
    apply validated_satisfies trivial
    intro incoming valid
    dsimp only
    repeat' split
    all_goals first | trivial | exact ⟨fun _ => rfl, fun _ => rfl⟩
  | _ => exact validated_satisfies trivial fun _ _ => ⟨fun _ => rfl, fun _ => rfl⟩

/-- A branch that raises has changed no annotation, but for `nodes_removed` when it meets a
member list that it cannot filter. -/
theorem Session.judge_rejects (cfg : StoreConfig) (call : Call) (s : Session Annotation) :
    (s.judge cfg call).Satisfies (fun _ => True) fun _ contents => contents = s.state.annotations ∨
      ∃ nodeIds drop, call.op = .nodesRemoved nodeIds ∧ nodeIds.strings? = some drop ∧
        dropMembers drop s.state.annotations = .error contents := by
  obtain ⟨env, client, recordActivity, trustedReplay, op⟩ := call
  simp only [judge]
  cases op with
  | nodesRemoved nodeIds =>
    simp only [plan, planNodesRemoved, requireIdList]
    cases listed : nodeIds.strings? with
    | none => exact Or.inl rfl
    | some drop =>
      simp only [validated]
      split
      · rename_i contents failed
        exact Or.inr ⟨nodeIds, drop, rfl, listed, failed⟩
      · trivial
  | nodeMoved nodeId position =>
    simp only [plan, planNodeMoved]
    split
    · exact validated_satisfies (Or.inl rfl) fun _ _ => trivial
    · exact Or.inl rfl
  | groupMembershipChanged groupId members =>
    simp only [plan, planGroupMembershipChanged]
    split
    · apply validated_satisfies (Or.inl rfl)
      intro members valid
      split
      · exact Or.inl rfl
      · trivial
    · exact Or.inl rfl
  | annotationCreated payload =>
    apply validated_satisfies (Or.inl rfl)
    intro ann valid
    dsimp only
    repeat' split
    all_goals first | trivial | exact Or.inl rfl
  | annotationUpdated payload baseVersion =>
    apply validated_satisfies (Or.inl rfl)
    intro incoming valid
    dsimp only
    repeat' split
    all_goals first | trivial | exact Or.inl rfl
  | annotationDeleted annotationId id =>
    simp only [plan, planAnnotationDeleted]
    split
    · trivial
    · exact Or.inl rfl
  | sessionRenamed name =>
    simp only [plan, planSessionRenamed]
    split
    · trivial
    · trivial
    · exact Or.inl rfl
  | _ => exact validated_satisfies (Or.inl rfl) fun _ _ => trivial

/-- The member list of the annotation, if it has one, can be filtered. -/
def Annotation.filterable (a : Annotation) : Bool := a.members?.all (·.all Json.hashable)

theorem Annotation.filterable_of_withoutMembers {a b : Annotation} {drop : List String}
    (filtered : a.withoutMembers drop = some b) : a.filterable = true := by
  unfold withoutMembers at filtered
  unfold filterable
  split at filtered
  · rename_i absent
    rw [absent, Option.all_none]
  · rename_i members listed
    split at filtered
    · rename_i hashable
      rw [listed, Option.all_some, hashable]
    · cases filtered

/-- What `nodes_removed` has assigned when it raises: only annotations before the one that it
cannot filter, and of them only those that lose a member. -/
theorem dropMembers_error {h : Heap Annotation} {nodeIds : Json} {drop : List String}
    (ids : nodeIds.strings? = some drop) {refs : List Ref} {contents : List Annotation}
    (failed : dropMembers drop (refs.map h.read) = .error contents) {r : Ref} {a : Annotation}
    (pair : (r, a) ∈ refs.zip contents) :
    a = h.read r ∨ r ∈ refs.takeWhile (fun r => (h.read r).filterable) ∧
      (StateOp.nodesRemoved nodeIds).rewrites (h.read r) = true := by
  induction refs generalizing contents with
  | nil => cases pair
  | cons s refs ih =>
    rw [List.map_cons, dropMembers] at failed
    cases filtered : (h.read s).withoutMembers drop with
    | none =>
      rw [filtered] at failed
      cases failed
      left
      rw [List.zip_cons_cons, List.mem_cons, Prod.mk.injEq] at pair
      rcases pair with ⟨rfl, rfl⟩ | later
      · rfl
      · exact of_mem_zip_map later
    | some b =>
      have reached := Annotation.filterable_of_withoutMembers filtered
      rw [filtered] at failed
      cases rest : dropMembers drop (refs.map h.read) with
      | ok later =>
        rw [rest] at failed
        cases failed
      | error later =>
        rw [rest] at failed
        cases failed
        rw [List.zip_cons_cons, List.mem_cons, Prod.mk.injEq] at pair
        rw [List.takeWhile_cons, if_pos reached, List.mem_cons]
        rcases pair with ⟨rfl, rfl⟩ | later
        · rcases Annotation.withoutMembers_rewritten ids filtered with same | ⟨rewrites, -⟩
          · exact Or.inl same
          · exact Or.inr ⟨Or.inl rfl, rewrites⟩
        · rcases ih rest later with same | ⟨before, rewrites⟩
          · exact Or.inl same
          · exact Or.inr ⟨Or.inr before, rewrites⟩

namespace Memory

variable {cfg : StoreConfig} {call : Call} {m : Memory}

/-- A call leaves the deleted-annotation memory alone unless it applies a deletion, and
the name unless it applies a rename. -/
theorem applyStateOp_keeps {after : Memory} (left : (m.applyStateOp cfg call).after? = some after) :
    ((∀ applied, m.applyStateOp cfg call = .applied applied after → call.op.deletes = false) →
        after.session.deletedAnnotationIds = m.session.deletedAnnotationIds) ∧
      ((∀ applied, m.applyStateOp cfg call = .applied applied after → call.op.renames = false) →
        after.session.name = m.session.name) := by
  have keeps := Session.judge_keeps cfg call m.view
  unfold applyStateOp at left ⊢
  cases verdict : m.view.judge cfg call with
  | drop =>
    rw [verdict] at left
    cases left
  | reject failure canvas contents =>
    rw [verdict] at left
    cases left
    exact ⟨fun _ => rfl, fun _ => rfl⟩
  | accept e =>
    rw [verdict] at left keeps
    cases left
    exact ⟨fun noDeletion => keeps.1 (noDeletion _ rfl), fun noRename => keeps.2 (noRename _ rfl)⟩

/-- The annotation objects that a call may assign to: all that its op rewrites when it is
applied, and when it raises the ones that `nodes_removed` has reached by then. -/
def assigned (cfg : StoreConfig) (call : Call) (m : Memory) : List Ref :=
  match m.applyStateOp cfg call, call.op with
  | .applied _ _, op => m.refs.filter fun r => op.rewrites (m.heap.read r)
  | .raised _ _, .nodesRemoved nodeIds =>
    (m.refs.takeWhile fun r => (m.heap.read r).filterable).filter fun r =>
      (StateOp.nodesRemoved nodeIds).rewrites (m.heap.read r)
  | _, _ => []

/-- Whatever the call leaves behind, a rollback takes all of it back: it applies no deletion
and assigns to no annotation object that the ring shares. -/
def Recoverable (cfg : StoreConfig) (call : Call) (shared : List Ref) (m : Memory) : Prop :=
  ((m.applyStateOp cfg call).accepted = true → call.op.deletes = false) ∧
    ∀ r ∈ shared, r ∉ m.assigned cfg call

instance (cfg : StoreConfig) (call : Call) (shared : List Ref) (m : Memory) :
    Decidable (m.Recoverable cfg call shared) :=
  inferInstanceAs (Decidable (_ ∧ _))

/-- A call changes no allocated object besides the ones it is said to assign. -/
theorem read_of_unassigned (wf : m.Wf) {after : Memory}
    (left : (m.applyStateOp cfg call).after? = some after) {r : Nat} (valid : r < m.heap.size)
    (unassigned : r ∉ m.assigned cfg call) : after.heap.read r = m.heap.read r := by
  cases outcome : m.applyStateOp cfg call with
  | dropped =>
    rw [outcome] at left
    cases left
  | applied applied m' =>
    apply (applyStateOp_extends wf left).frame r valid
    intro member
    simpa [assigned, outcome, member] using unassigned
  | raised failure m' =>
    have rejects := Session.judge_rejects cfg call m.view
    have raised := outcome
    rw [outcome] at left
    cases left
    unfold applyStateOp at raised
    cases verdict : m.view.judge cfg call with
    | drop | accept =>
      rw [verdict] at raised
      cases raised
    | reject failure canvas contents =>
      rw [verdict] at raised rejects
      cases raised
      by_cases member : r ∈ m.refs
      · apply Heap.read_writeAll_of_same wf.distinct wf.stateValid
        intro a pair
        rcases rejects with rfl | ⟨nodeIds, drop, op, ids, failed⟩
        · exact of_mem_zip_map pair
        · rcases dropMembers_error ids failed pair with same | ⟨before, rewrites⟩
          · exact same
          · refine absurd ?_ unassigned
            simp only [assigned, outcome, op]
            exact List.mem_filter.mpr ⟨before, rewrites⟩
      · exact Heap.read_writeAll_of_notMem member _

theorem Recoverable.kept {shared : List Ref} (recoverable : m.Recoverable cfg call shared) (wf : m.Wf)
    (below : m.heap.Valid shared) {after : Memory}
    (left : (m.applyStateOp cfg call).after? = some after) :
    (∀ r ∈ shared, after.heap.read r = m.heap.read r) ∧
      after.session.deletedAnnotationIds = m.session.deletedAnnotationIds := by
  obtain ⟨noDeletion, unassigned⟩ := recoverable
  refine ⟨fun r member => read_of_unassigned wf left (below r member) (unassigned r member), ?_⟩
  apply (applyStateOp_keeps left).1
  intro applied accepted
  exact noDeletion (by rw [accepted]; rfl)

end Memory

namespace Walk

variable {cfg : ManagerConfig} {client : String}

/-- The condition on one op of a batch, for the call of the store that it leads to. -/
def RecoverableOp (cfg : ManagerConfig) (client : String) (shared : List Ref) (w : Walk) : BatchOp → Prop
  | .state env op => leaseConflict client w.leases w.memory.view.state op = none →
      w.memory.Recoverable cfg.toStoreConfig (call client env op) shared
  | _ => True

instance (shared : List Ref) (w : Walk) : (op : BatchOp) → Decidable (w.RecoverableOp cfg client shared op)
  | .state _ _ => inferInstanceAs (Decidable (_ → _))
  | .selectionClaimed _ | .selectionReleased _ | .leaseAcquired _ | .leaseReleased _ => .isTrue trivial

/-- The condition on every op that the loop reaches. -/
def Recoverable (cfg : ManagerConfig) (client : String) (shared : List Ref) (ops : List BatchOp) (w : Walk) : Prop :=
  w.Always cfg client (RecoverableOp cfg client shared) ops

instance (shared : List Ref) (ops : List BatchOp) (w : Walk) : Decidable (w.Recoverable cfg client shared ops) :=
  decideAlways (RecoverableOp cfg client shared) ops w

/-- What a recoverable walk keeps of the memory it started from. -/
structure Keeps (start : Memory) (shared : List Ref) (m : Memory) : Prop where
  contents : ∀ r ∈ shared, m.heap.read r = start.heap.read r
  deleted : m.session.deletedAnnotationIds = start.session.deletedAnnotationIds

theorem Keeps.next {start : Memory} {shared : List Ref} {w : Walk} {op : BatchOp}
    (keeps : Keeps start shared w.memory) (sound : w.Sound start.heap.size)
    (below : start.heap.Valid shared) (recoverable : w.RecoverableOp cfg client shared op) :
    (∀ w', w.next cfg client op = .ok w' → Keeps start shared w'.memory) ∧
      ∀ failure m, w.next cfg client op = .error (failure, m) → Keeps start shared m := by
  have valid : w.memory.heap.Valid shared := fun r member => (below r member).trans_le sound.grown
  constructor
  · intro w' stepped
    rcases next_ok stepped with ⟨same, -⟩ | ⟨env, stateOp, applied, rfl, free, accepted, -, -⟩
    · rw [same]
      exact keeps
    · obtain ⟨contents, deleted⟩ := (recoverable free).kept sound.memory valid
        (congrArg Outcome.after? accepted)
      exact ⟨fun r member => (contents r member).trans (keeps.contents r member),
        deleted.trans keeps.deleted⟩
  · intro failure m failed
    obtain ⟨env, stateOp, rfl, ⟨-, rfl⟩ | ⟨free, raised⟩⟩ := next_error failed
    · exact keeps
    · obtain ⟨contents, deleted⟩ := (recoverable free).kept sound.memory valid
        (congrArg Outcome.after? raised)
      exact ⟨fun r member => (contents r member).trans (keeps.contents r member),
        deleted.trans keeps.deleted⟩

theorem run_keeps {start : Memory} {shared : List Ref} (below : start.heap.Valid shared)
    {ops : List BatchOp} {w : Walk} (sound : w.Sound start.heap.size)
    (keeps : Keeps start shared w.memory) (recoverable : w.Recoverable cfg client shared ops) :
    (∀ w', run cfg client ops w = .ok w' → Keeps start shared w'.memory) ∧
      ∀ failure m, run cfg client ops w = .error (failure, m) → Keeps start shared m := by
  obtain ⟨ok, error⟩ := always_induction
    (P := fun w => w.Sound start.heap.size ∧ Keeps start shared w.memory)
    (Q := fun _ m => Keeps start shared m)
    (fun before here stepped =>
      ⟨before.1.next stepped, (before.2.next before.1 below here).1 _ stepped⟩)
    (fun before here failed => (before.2.next before.1 below here).2 _ _ failed)
    ⟨sound, keeps⟩ recoverable
  exact ⟨fun w' ended => (ok w' ended).2, error⟩

end Walk

namespace Memory

theorem ringRefs_below {m : Memory} (wf : m.Wf) : m.heap.Valid (ringRefs m.ring) := by
  intro r member
  obtain ⟨entry, inRing, named⟩ := List.mem_filterMap.mp member
  exact wf.ringValid entry inRing r named

/-- After the rollback of a recoverable failure the memory reads as it did at the start. -/
theorem restore_reads {start after : Memory} (wf : start.Wf) (grown : start.heap.size ≤ after.heap.size)
    (keeps : Walk.Keeps start (ringRefs start.ring) after) {name : Option String}
    (sameName : name = start.session.name) :
    (after.restore start.view start.ring name).view = start.view ∧
      (after.restore start.view start.ring name).entries = start.entries := by
  constructor
  · rw [view_restore, sameName, keeps.deleted]
    rfl
  · apply List.map_congr_left
    intro entry inRing
    rw [Applied.map, Applied.map]
    congr 1
    apply AppliedOp.map_congr
    intro r named
    rw [read_restore _ _ _ _ ((wf.ringValid entry inRing r named).trans_le grown)]
    exact keeps.contents r (List.mem_filterMap.mpr ⟨entry, inRing, named⟩)

end Memory

end MetadataGraph
