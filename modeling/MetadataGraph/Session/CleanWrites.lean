import MetadataGraph.Session.Invariants
import MetadataGraph.Session.Recovery

namespace MetadataGraph

open ObjectHeap Runs

namespace Server

variable {cfg : ManagerConfig}

/-- What a synchronous write that raises must leave: the session with its activity log and its
deleted-annotation memory, the ring and every queue exactly as they were. -/
structure Untouched (σ τ : Server) : Prop where
  session : τ.session? = σ.session?
  ring : τ.memory?.map Memory.entries = σ.memory?.map Memory.entries
  received : τ.subscribers = σ.subscribers

theorem Untouched.of_memory {σ τ : Server} (memory : τ.memory? = σ.memory?)
    (received : τ.subscribers = σ.subscribers) : Untouched σ τ :=
  ⟨by rw [session?_eq, session?_eq, memory], by rw [memory], received⟩

theorem Untouched.refl (σ : Server) : Untouched σ σ := .of_memory rfl rfl

theorem Untouched.trans {σ τ υ : Server} (first : Untouched σ τ) (second : Untouched τ υ) : Untouched σ υ :=
  ⟨second.session.trans first.session, second.ring.trans first.ring, second.received.trans first.received⟩

/-- A call that only looks leaves everything untouched. -/
theorem Looked.untouched {σ τ : Server} (looked : Looked σ τ) : Untouched σ τ :=
  .of_memory looked.memory? looked.frame.2.1

/-- Whether a call of `_apply_op_sync` ends with the op applied and saved. -/
def lands (cfg : ManagerConfig) (call : Call) (persists : Bool) (m : Memory) : Bool :=
  persists && (m.applyStateOp cfg.toStoreConfig call).accepted

theorem lands_iff {call : Call} {persists : Bool} {σ : Server} :
    lands cfg call persists σ.memory = true ↔ ∃ applied, (σ.applyOpSync cfg call persists).2 = .ok (some applied) := by
  unfold lands applyOpSync
  cases σ.memory.applyStateOp cfg.toStoreConfig call <;> cases persists <;> simp [Outcome.accepted]

/-- A recoverable `_apply_op_sync` that raises, or turns out a no-op, leaves everything untouched. -/
theorem applyOpSync_untouched {σ : Server} (wf : σ.Wf) (loaded : σ.loaded = true) (call : Call)
    {persists : Bool} (noRename : call.op.renames = false)
    (recoverable : lands cfg call persists σ.memory = true ∨
      σ.memory.Recoverable cfg.toStoreConfig call (ringRefs σ.memory.ring))
    (unapplied : ∀ applied, (σ.applyOpSync cfg call persists).2 ≠ .ok (some applied)) :
    Untouched σ (σ.applyOpSync cfg call persists).1 := by
  replace recoverable := recoverable.resolve_left fun landed =>
    (lands_iff.mp landed).elim fun applied ended => unapplied applied ended
  rcases applyOpSync_cases cfg call persists σ with
    ⟨-, same⟩ | ⟨failure, m, outcome, same⟩ | ⟨applied, m, -, -, same⟩
  · rw [same]
    exact Untouched.refl σ
  · have left : (σ.memory.applyStateOp cfg.toStoreConfig call).after? = some m := by
      rcases outcome with raised | ⟨applied, accepted, -, -⟩
      · exact congrArg Outcome.after? raised
      · exact congrArg Outcome.after? accepted
    obtain ⟨contents, deleted⟩ := recoverable.kept wf.memory (Memory.ringRefs_below wf.memory) left
    have name := (Memory.applyStateOp_keeps left).2 fun _ _ => noRename
    obtain ⟨view, entries⟩ := Memory.restore_reads wf.memory (Memory.applyStateOp_extends wf.memory left).size
      ⟨contents, deleted⟩ name
    rw [same]
    refine ⟨?_, ?_, rfl⟩
    · rw [session?_eq, session?_eq, memory?_of_loaded (by exact loaded), memory?_of_loaded loaded]
      exact congrArg some view
    · rw [memory?_of_loaded (by exact loaded), memory?_of_loaded loaded]
      exact congrArg some entries
  · rw [same] at unapplied
    exact absurd rfl (unapplied applied)

theorem prepare_renames {cfg : ManagerConfig} {s : Session Annotation} {call : SyncWrite} {op : StateOp}
    (prepared : call.prepare cfg s = .ok (some op)) : op.renames = false := by
  cases call <;> simp only [SyncWrite.prepare] at prepared
  all_goals repeat' split at prepared
  all_goals simp_all [StateOp.renames]
  all_goals subst op; rfl

theorem prepareWrite_renames {request : Request} {call : SyncWrite} {σ : Server} {op : StateOp}
    (prepared : (σ.prepareWrite cfg request call).2 = .ok op) : op.renames = false := by
  unfold prepareWrite at prepared
  repeat' split at prepared
  all_goals cases prepared
  all_goals exact prepare_renames ‹call.prepare cfg _ = .ok (some _)›

/-- The condition on a synchronous write: that its op, if it gets to the store and is not
applied and saved, neither deletes an annotation nor assigns to one that the ring shares. -/
def CleanWrite (cfg : ManagerConfig) (request : Request) (call : SyncWrite) (σ : Server) : Prop :=
  ∀ op ∈ (σ.prepareWrite cfg request call).2.toOption,
    let m := (σ.prepareWrite cfg request call).1.memory
    lands cfg (writeCall request op) request.persists m = true ∨
      m.Recoverable cfg.toStoreConfig (writeCall request op) (ringRefs m.ring)

instance (request : Request) (call : SyncWrite) (σ : Server) : Decidable (CleanWrite cfg request call σ) :=
  inferInstanceAs (Decidable (∀ op ∈ (σ.prepareWrite cfg request call).2.toOption, _ ∨ _))

theorem write_untouched {σ τ : Server} (wf : σ.Wf) {request : Request} {call : SyncWrite}
    (clean : CleanWrite cfg request call σ) {failure : Failure}
    (raised : σ.write cfg request call = (τ, .raised failure)) : Untouched σ τ := by
  obtain ⟨looked, ready⟩ := prepareWrite_looked cfg request call σ
  have noRename : ∀ op, (σ.prepareWrite cfg request call).2 = .ok op → op.renames = false :=
    fun op => prepareWrite_renames
  unfold CleanWrite at clean
  unfold write at raised
  split at raised
  · rename_i prepared
    rw [prepared] at looked
    cases raised
    exact looked.untouched
  · rename_i υ op prepared
    rw [prepared] at looked ready clean noRename
    have sync := applyOpSync_untouched (looked.wf wf) (ready op rfl).1 (writeCall request op)
      (noRename op rfl) (clean op rfl)
    dsimp only [writeCall] at looked sync
    split at raised <;> rename_i ended <;> rw [ended] at sync
    · cases raised
      exact looked.untouched.trans (sync (by simp))
    · cases raised
    · rw [← (Prod.mk.inj raised).1]
      exact looked.untouched.trans (sync (by simp))

/-- The condition on an undo: if the inverse is applied and saved, the second save succeeds
too; otherwise its id was not among the deleted ones, and the replay neither deletes an
annotation nor assigns to one that the ring shares. -/
def CleanUndo (cfg : ManagerConfig) (request : Request) (persistsAgain : Bool) (σ : Server) : Prop :=
  ∀ found ∈ (σ.prepareUndo request).2.toOption,
    let m := (σ.prepareUndo request).1.memory
    let replayed := ((σ.prepareUndo request).1.forgotten found.2).memory
    if lands cfg (undoCall request found.2) request.persists replayed then persistsAgain = true
    else forgetDeleted found.2 m.session.deletedAnnotationIds = m.session.deletedAnnotationIds ∧
      m.Recoverable cfg.toStoreConfig (undoCall request found.2) (ringRefs m.ring)

instance (request : Request) (persistsAgain : Bool) (σ : Server) :
    Decidable (CleanUndo cfg request persistsAgain σ) :=
  inferInstanceAs (Decidable (∀ found ∈ (σ.prepareUndo request).2.toOption, ite _ _ _))

theorem undoable_renames {op : StateOp} (undoable : op.undoable = true) : op.renames = false := by
  cases op <;> first | rfl | cases undoable

theorem undo_untouched {σ τ : Server} (wf : σ.Wf) (everywhere : σ.Everywhere Session.Reversible) {request : Request} {persistsAgain : Bool}
    (clean : CleanUndo cfg request persistsAgain σ) {failure : Failure}
    (raised : σ.undo cfg request persistsAgain = (τ, .raised failure)) : Untouched σ τ := by
  obtain ⟨looked, ready⟩ := prepareUndo_looked request σ
  unfold CleanUndo at clean
  unfold undo at raised
  split at raised
  · rename_i prepared
    rw [prepared] at looked
    cases raised
    exact looked.untouched
  · rename_i υ record inverse prepared
    have noRename := undoable_renames (prepareUndo_undoable everywhere prepared)
    rw [prepared] at looked ready clean
    replace clean := clean (record, inverse) rfl
    dsimp only at clean looked ready
    by_cases landed : lands cfg (undoCall request inverse) request.persists (υ.forgotten inverse).memory = true
    · obtain ⟨applied, ended⟩ := lands_iff.mp landed
      rw [if_pos landed] at clean
      dsimp only [undoCall, forgotten] at ended raised
      split at raised <;> rename_i other <;> rw [other] at ended
      · cases ended
      · cases ended
      · rw [if_pos clean] at raised
        cases raised
    · rw [if_neg landed] at clean
      obtain ⟨remembered, recoverable⟩ := clean
      have same : υ.forgotten inverse = υ := by rw [forgotten, withSession, remembered]
      rw [same] at landed
      have sync := applyOpSync_untouched (looked.wf wf) (ready _ rfl).1 (undoCall request inverse)
        noRename (Or.inr recoverable) fun applied ended => landed (lands_iff.mpr ⟨applied, ended⟩)
      dsimp only [undoCall] at sync
      rw [show υ.withSession _ = υ from same] at raised
      dsimp only at raised
      split at raised <;> rename_i ended <;> rw [ended] at sync
      · cases raised
        exact looked.untouched.trans sync
      · cases raised
        exact looked.untouched.trans sync
      · exact absurd (lands_iff.mpr ⟨_, congrArg Prod.snd ended⟩) landed

/-- What a client asks for when the save of its write fails. -/
def failingRequest (client : String) : Request :=
  { env := sampleEnv, now := 0, client := client, persists := false }

theorem step_write {σ : Server} {request : Request} {call : SyncWrite} {reply : Reply}
    (replied : (σ.write cfg request call).2 = reply) :
    σ.step cfg (.write request call) = some ((σ.write cfg request call).1, reply) := by
  rw [← replied]
  rfl

theorem step_undo {σ : Server} {request : Request} {persistsAgain : Bool} {reply : Reply}
    (replied : (σ.undo cfg request persistsAgain).2 = reply) :
    σ.step cfg (.undo request persistsAgain) = some ((σ.undo cfg request persistsAgain).1, reply) := by
  rw [← replied]
  rfl

end Server

end MetadataGraph
