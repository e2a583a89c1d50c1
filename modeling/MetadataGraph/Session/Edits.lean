import MetadataGraph.Session.Invariants

namespace MetadataGraph

open ObjectHeap Runs

/-- `undo_last_action` on the contents of a session, from the search for the record on. -/
def Session.undoLast (cfg : StoreConfig) (env : Env) (actor : String) (s : Session Annotation) :
    Outcome Annotation (Session Annotation) :=
  match findLatestUndoable s.activityLog actor with
  | none => .raised (.noUndoableAction actor) s
  | some record => match undoConflictReason s.state record with
    | some reason => .raised (.undoConflict record.seq reason) s
    | none => match record.inverseOp with
      | none => .raised (.noUndoableAction actor) s
      | some inverse =>
        let forgotten := { s with deletedAnnotationIds := Server.forgetDeleted inverse s.deletedAnnotationIds }
        let call : Call := { env := env, client := undoReplayClientId, op := inverse
                             recordActivity := false, trustedReplay := true }
        match forgotten.applyStateOp cfg call with
        | .applied op after =>
          .applied op { after with activityLog := Server.markUndone env.stamp actor after.activityLog }
        | .dropped => .raised (.undoConflict record.seq "action could not be reverted") forgotten
        | .raised failure after => .raised failure after

/-- One accepted change of a session: an op, or an undo of the actor's last action. -/
inductive Edit where
  | op (call : Call)
  | undo (env : Env) (actor : String)

/-- What the edit draws from outside. -/
def Edit.env : Edit → Env
  | .op call => call.env
  | .undo env _ => env

/-- The session after an edit that is accepted, with the op that was applied. -/
def Session.edit (cfg : StoreConfig) (s : Session Annotation) (edit : Edit) :
    Option (Session Annotation × Applied Annotation) :=
  let outcome := match edit with
    | .op call => s.applyStateOp cfg call
    | .undo env actor => s.undoLast cfg env actor
  match outcome with
  | .applied op after => some (after, op)
  | _ => none

variable {cfg : StoreConfig} {s after : Session Annotation}

theorem Session.edit_op {call : Call} {op : Applied Annotation} :
    s.edit cfg (.op call) = some (after, op) ↔ s.applyStateOp cfg call = .applied op after := by
  simp only [edit]
  split
  · rename_i op' after' applied
    simp [applied, and_comm]
  · rename_i other
    simp only [reduceCtorEq, false_iff]
    exact other op after

theorem Session.edit_undo {env : Env} {actor : String} {op : Applied Annotation} :
    s.edit cfg (.undo env actor) = some (after, op) ↔ s.undoLast cfg env actor = .applied op after := by
  simp only [edit]
  split
  · rename_i op' after' applied
    simp [applied, and_comm]
  · rename_i other
    simp only [reduceCtorEq, false_iff]
    exact other op after

/-- What an undo that succeeds has found and done. -/
theorem Session.undoLast_applied {env : Env} {actor : String} {op : Applied Annotation}
    (undone : s.undoLast cfg env actor = .applied op after) :
    ∃ record inverse replayed, findLatestUndoable s.activityLog actor = some record ∧
      undoConflictReason s.state record = none ∧ record.inverseOp = some inverse ∧
      ({ s with deletedAnnotationIds := Server.forgetDeleted inverse s.deletedAnnotationIds } : Session Annotation).applyStateOp
        cfg { env := env, client := undoReplayClientId, op := inverse, recordActivity := false
              trustedReplay := true } = .applied op replayed ∧
      after = { replayed with activityLog := Server.markUndone env.stamp actor replayed.activityLog } := by
  unfold undoLast at undone
  split at undone
  · cases undone
  · rename_i record latest
    split at undone
    · cases undone
    · rename_i unchanged
      split at undone
      · cases undone
      · rename_i inverse stored
        dsimp only at undone
        split at undone
        · rename_i replayed accepted
          cases undone
          exact ⟨record, inverse, replayed, latest, unchanged, stored, accepted, rfl⟩
        · cases undone
        · cases undone

theorem Session.undoLast_of_applied {env : Env} {actor : String} {record : ActivityRecord} {inverse : StateOp}
    {op : Applied Annotation} {replayed : Session Annotation}
    (latest : findLatestUndoable s.activityLog actor = some record)
    (unchanged : undoConflictReason s.state record = none) (stored : record.inverseOp = some inverse)
    (accepted : ({ s with deletedAnnotationIds :=
        Server.forgetDeleted inverse s.deletedAnnotationIds } : Session Annotation).applyStateOp
        cfg { env := env, client := undoReplayClientId, op := inverse, recordActivity := false
              trustedReplay := true } = .applied op replayed) :
    s.undoLast cfg env actor =
      .applied op { replayed with activityLog := Server.markUndone env.stamp actor replayed.activityLog } := by
  simp only [undoLast, latest, unchanged, stored, accepted]

/-- The op that was accepted, with what its branch has planned. -/
theorem Session.applyStateOp_applied {call : Call} {op : Applied Annotation}
    (accepted : s.applyStateOp cfg call = .applied op after) :
    ∃ e, s.judge cfg call = .accept e ∧ op = ⟨s.seq + 1, e.applied.at (e.edit.contents s.state.annotations)⟩ ∧
      after = s.commit cfg call e (e.edit.contents s.state.annotations) := by
  unfold applyStateOp at accepted
  split at accepted
  · cases accepted
  · cases accepted
  · rename_i e verdict
    cases accepted
    exact ⟨e, verdict, rfl, rfl⟩

/-- The lasting properties of sessions are kept by every edit. -/
theorem Session.Lasting.edit {P : Session Annotation → Prop} (lasting : Session.Lasting cfg P) (holds : P s)
    {edit : Edit} {op : Applied Annotation} (edited : s.edit cfg edit = some (after, op)) : P after := by
  cases edit with
  | op call => exact lasting.applied holds (Session.edit_op.mp edited)
  | undo env actor =>
    obtain ⟨record, inverse, replayed, -, -, -, accepted, rfl⟩ :=
      Session.undoLast_applied (Session.edit_undo.mp edited)
    exact lasting.undone _ _ (lasting.applied (lasting.restored s.name _ holds) accepted)

namespace Server

variable {cfg : ManagerConfig}

/-- A synchronous write that reports an op has made the edit that the op stands for. -/
theorem write_refines {σ τ : Server} (wf : σ.Wf) {request : Request} {call : SyncWrite} {applied : Applied Annotation}
    {revision : Nat} (written : σ.write cfg request call = (τ, .written (some applied) revision)) :
    ∃ s op after, σ.session? = some s ∧
      s.edit cfg.toStoreConfig (.op (writeCall request op)) = some (after, applied) ∧ τ.session? = some after := by
  obtain ⟨looked, ready⟩ := prepareWrite_looked cfg request call σ
  unfold write at written
  split at written
  · rename_i υ reply prepared
    unfold prepareWrite at prepared
    repeat' split at prepared
    all_goals cases (Prod.mk.inj prepared).2
    all_goals cases (Prod.mk.inj written).2
  · rename_i υ op prepared
    rw [prepared] at looked ready
    have loaded := (ready op rfl).1
    have wf' := looked.wf wf
    have before : σ.session? = some υ.memory.view := by
      rw [session?_eq, ← looked.memory?, memory?_of_loaded loaded]
      rfl
    rcases applyOpSync_cases cfg (writeCall request op) request.persists υ with
      ⟨-, same⟩ | ⟨failure, m, -, same⟩ | ⟨applied', m, accepted, -, same⟩
    · rw [writeCall] at same
      rw [same] at written
      dsimp only at written
      cases dropped : call.droppedFailure with
      | none =>
        rw [dropped] at written
        cases (Prod.mk.inj written).2
      | some failure =>
        rw [dropped] at written
        cases (Prod.mk.inj written).2
    · rw [writeCall] at same
      rw [same] at written
      cases (Prod.mk.inj written).2
    · have viewed := Memory.view_applied wf'.memory accepted
      rw [writeCall] at same
      rw [same] at written
      dsimp only [writtenReply] at written
      obtain ⟨rfl, reported⟩ := Prod.mk.inj written
      simp only [Option.map_some, Reply.written.injEq, Option.some.injEq] at reported
      refine ⟨υ.memory.view, op, m.view, before, ?_, ?_⟩
      · rw [← reported.1]
        exact Session.edit_op.mpr viewed
      · rw [session?_eq, memory?_of_loaded (by exact loaded)]
        rfl

/-- An undo that reports an op has made the edit. -/
theorem undo_refines {σ τ : Server} (wf : σ.Wf) {request : Request} {persistsAgain : Bool} {applied : Applied Annotation}
    {revision : Nat} (written : σ.undo cfg request persistsAgain = (τ, .written (some applied) revision)) :
    ∃ s after, σ.session? = some s ∧
      s.edit cfg.toStoreConfig (.undo request.env request.client) = some (after, applied) ∧
      τ.session? = some after := by
  obtain ⟨looked, ready⟩ := prepareUndo_looked request σ
  unfold undo at written
  split at written
  · cases (Prod.mk.inj written).2
  · rename_i υ record inverse prepared
    rw [prepared] at looked ready
    have loaded := (ready _ rfl).1
    have wf' := looked.wf wf
    obtain ⟨υ', passed, latest, unchanged, stored, free⟩ := prepareUndo_ok prepared
    have memory : υ.memory = υ'.memory := by
      have kept : (υ'.rejectIfLeased request.now request.client inverse).1.memory = υ'.memory := by
        unfold rejectIfLeased
        split <;> rfl
      rw [free] at kept
      exact kept
    rw [← memory] at latest unchanged
    have before : σ.session? = some υ.memory.view := by
      rw [session?_eq, ← looked.memory?, memory?_of_loaded loaded]
      rfl
    have forgottenWf : (υ.forgotten inverse).Wf := withSession_wf wf' _ fun _ => rfl
    rcases applyOpSync_cases cfg (undoCall request inverse) request.persists (υ.forgotten inverse) with
      ⟨-, same⟩ | ⟨failure, m, -, same⟩ | ⟨applied', m, accepted, -, same⟩
    · dsimp only [undoCall, forgotten] at same
      simp only [same] at written
      cases (Prod.mk.inj written).2
    · dsimp only [undoCall, forgotten] at same
      simp only [same] at written
      cases (Prod.mk.inj written).2
    · have viewed := Memory.view_applied forgottenWf.memory accepted
      dsimp only [undoCall, forgotten] at same
      simp only [same] at written
      split at written
      · obtain ⟨rfl, reported⟩ := Prod.mk.inj written
        simp only [writtenReply, withSession, Option.map_some, Reply.written.injEq, Option.some.injEq] at reported
        refine ⟨υ.memory.view, { m.view with
          activityLog := markUndone request.env.stamp request.client m.view.activityLog }, before, ?_, ?_⟩
        · apply Session.edit_undo.mpr
          rw [reported.1] at viewed
          exact Session.undoLast_of_applied latest unchanged stored viewed
        · rw [session?_eq, memory?_of_loaded (by exact loaded)]
          rfl
      · cases (Prod.mk.inj written).2

/-- The ops of a batch that was walked through are edits, one after the other. -/
theorem walk_refines {client : String} {ops : List BatchOp} {m : Memory} (wf : m.Wf) {leases : Dict String} {w : Walk}
    (walked : Walk.run cfg client ops { memory := m, leases := leases } = .ok w) :
    ∃ history, Run (Session.edit cfg.toStoreConfig) (fun _ _ _ => True) m.view history w.memory.view := by
  refine ((Walk.run_induction (P := fun w => w.memory.Wf ∧
    ∃ history, Run (Session.edit cfg.toStoreConfig) (fun _ _ _ => True) m.view history w.memory.view)
    (Q := fun _ _ => True) ?_ (fun _ _ => trivial) ⟨wf, [], .start⟩).1 w walked).2
  rintro w op w' ⟨wf, history, run⟩ stepped
  rcases Walk.next_ok stepped with ⟨same, -⟩ | ⟨env, stateOp, applied, -, -, accepted, -, -⟩
  · rw [same]
    exact ⟨wf, history, run⟩
  · exact ⟨(Memory.applyStateOp_extends wf (congrArg Outcome.after? accepted)).wf, _,
      run.next trivial (Session.edit_op.mpr (Memory.view_applied wf accepted))⟩

end Server

end MetadataGraph
