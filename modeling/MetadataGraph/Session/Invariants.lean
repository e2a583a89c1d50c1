import MetadataGraph.Session.Flight

namespace MetadataGraph

open ObjectHeap Runs

/-- A property of session contents that survives everything the server does to a session:
its creation, every accepted op, a rollback or a save, and the mark of an undo. -/
structure Session.Lasting (cfg : StoreConfig) (P : Session Annotation → Prop) : Prop where
  created : ∀ now, P { updatedAt := now }
  applied : ∀ {call s op after}, P s → s.applyStateOp cfg call = .applied op after → P after
  restored : ∀ {s} name deleted, P s → P { s with name := name, deletedAnnotationIds := deleted }
  undone : ∀ {s} stamp actor, P s → P { s with activityLog := Server.markUndone stamp actor s.activityLog }

/-- A property of session contents that a new session has and that does not see the memory of
deleted ids, which is not serialised. -/
structure Session.Stored (P : Session Annotation → Prop) : Prop where
  created : ∀ now, P { updatedAt := now }
  kept : ∀ {s} deleted, P s → P { s with deletedAnnotationIds := deleted }

theorem Session.Lasting.stored {cfg : StoreConfig} {P : Session Annotation → Prop} (lasting : Session.Lasting cfg P) :
    Session.Stored P :=
  ⟨lasting.created, fun {s} deleted holds => lasting.restored s.name deleted holds⟩

theorem Memory.view_applied {cfg : StoreConfig} {call : Call} {m after : Memory} {applied : Applied Ref} (wf : m.Wf)
    (accepted : m.applyStateOp cfg call = .applied applied after) :
    m.view.applyStateOp cfg call = .applied (applied.map after.heap.read) after.view := by
  rw [← applyStateOp_view wf, accepted]
  rfl

namespace Server

variable {cfg : ManagerConfig} {P : Session Annotation → Prop}

/-- The property holds of every copy of the session: the one in memory, the one on the disk,
and the ones that a batch in flight or a worker thread has taken. -/
structure Everywhere (P : Session Annotation → Prop) (σ : Server) : Prop where
  memory : P σ.memory.view
  disk : ∀ saved ∈ σ.disk, P saved
  flight : ∀ batch ∈ σ.inFlight, P batch.saved ∧ P batch.snapshot
  workers : ∀ snapshot ∈ σ.workers, P snapshot

/-- What is assigned to a session besides its state and its number. -/
theorem withSession_everywhere {σ : Server} (everywhere : σ.Everywhere P) {f : Session Ref → Session Ref}
    (kept : P ({ σ.memory with session := f σ.memory.session } : Memory).view) : (σ.withSession f).Everywhere P :=
  ⟨kept, everywhere.disk, everywhere.flight, everywhere.workers⟩

section Stored

variable (stored : Session.Stored P)
include stored

theorem document_stored {s : Session Annotation} (holds : P s) : P s.document := stored.kept [] holds

theorem get?_everywhere {σ base : Server} (everywhere : σ.Everywhere P) (got : σ.get? = some base) :
    base.Everywhere P := by
  rcases get?_cases got with ⟨-, rfl⟩ | ⟨-, saved, onDisk, rfl⟩
  · exact everywhere
  · refine ⟨?_, everywhere.disk, everywhere.flight, everywhere.workers⟩
    have loaded : (σ.load saved).memory.view = saved.document := by
      simp only [load, Memory.view, Session.map, State.map, Heap.map_read_allocAll]
      rfl
    rw [loaded]
    exact document_stored stored (everywhere.disk saved onDisk)

theorem Looked.everywhere {σ τ : Server} (looked : Looked σ τ) (everywhere : σ.Everywhere P) :
    τ.Everywhere P := by
  obtain ⟨base, leases, rfl | ⟨-, got⟩, -, rfl⟩ := looked
  · exact ⟨everywhere.memory, everywhere.disk, everywhere.flight, everywhere.workers⟩
  · obtain ⟨memory, disk, flight, workers⟩ := get?_everywhere stored everywhere got
    exact ⟨memory, disk, flight, workers⟩

theorem persistDone_everywhere {σ : Server} (everywhere : σ.Everywhere P) {batch : InFlight}
    (flying : σ.inFlight = some batch) (now : Nat) (ok : Bool) :
    (σ.persistDone cfg now ok batch).1.Everywhere P := by
  obtain ⟨saved, snapshot⟩ := everywhere.flight batch flying
  cases ok with
  | true =>
    obtain ⟨events, claims, leases, committed, -⟩ := commitEach_broadcasts cfg now batch.client
      { σ with inFlight := none, disk := some batch.snapshot } batch.pending
    simp only [persistDone, if_true, commit]
    rw [committed]
    refine ⟨everywhere.memory, ?_, (by simp), everywhere.workers⟩
    rintro _ ⟨⟩
    exact snapshot
  | false =>
    refine ⟨?_, everywhere.disk, (by simp [persistDone, rollback]), everywhere.workers⟩
    simp only [persistDone, Bool.false_eq_true, if_false, rollback]
    rw [Memory.view_restore]
    exact stored.kept _ saved

theorem getOrCreate_everywhere {σ τ : Server} (everywhere : σ.Everywhere P) {now : Nat} {limitReached : Bool}
    (opened : σ.getOrCreate now limitReached = some τ) : τ.Everywhere P := by
  unfold getOrCreate at opened
  split at opened
  · rename_i got
    cases opened
    exact get?_everywhere stored everywhere got
  · split at opened
    · cases opened
    · cases opened
      refine ⟨stored.created now, ?_, everywhere.flight, everywhere.workers⟩
      rintro _ ⟨⟩
      exact stored.created now

/-- The actions that change no session keep such a property everywhere. -/
theorem passive_everywhere {σ τ : Server} (everywhere : σ.Everywhere P) {action : Action} {reply : Reply}
    (noBatch : ∀ now client ops, action ≠ .applyOps now client ops) (noWrite : ∀ request call, action ≠ .write request call)
    (noUndo : ∀ request again, action ≠ .undo request again)
    (noRename : ∀ request limitReached name, action ≠ .rename request limitReached name)
    (stepped : σ.step cfg action = some (τ, reply)) : τ.Everywhere P := by
  cases action with
  | applyOps now client ops => exact absurd rfl (noBatch now client ops)
  | write request call => exact absurd rfl (noWrite request call)
  | undo request again => exact absurd rfl (noUndo request again)
  | rename request limitReached name => exact absurd rfl (noRename request limitReached name)
  | persistDone now ok =>
    obtain ⟨batch, flying, same⟩ := Option.map_eq_some_iff.mp stepped
    have kept : (σ.persistDone cfg now ok batch).1.Everywhere P := persistDone_everywhere stored everywhere flying now ok
    rw [same] at kept
    exact kept
  | cancel =>
    obtain ⟨batch, flying, same⟩ := Option.map_eq_some_iff.mp stepped
    cases same
    refine ⟨everywhere.memory, everywhere.disk, (by simp), fun snapshot member => ?_⟩
    rcases List.mem_append.mp member with old | new
    · exact everywhere.workers snapshot old
    · rw [List.mem_singleton.mp new]
      exact (everywhere.flight batch flying).2
  | workerDone index landed =>
    obtain ⟨snapshot, taken, same⟩ := Option.map_eq_some_iff.mp stepped
    cases same
    refine ⟨everywhere.memory, ?_, everywhere.flight,
      fun other member => everywhere.workers other (List.mem_of_mem_eraseIdx member)⟩
    cases landed with
    | true =>
      rintro _ ⟨⟩
      exact everywhere.workers snapshot (List.mem_of_getElem? taken)
    | false => exact everywhere.disk
  | catchUp now sinceSeq =>
    obtain ⟨υ, claims, looked, same⟩ := catchUp_looked now sinceSeq σ
    obtain ⟨memory, disk, flight, workers⟩ := looked.everywhere stored everywhere
    rw [Option.some.inj stepped] at same
    rw [show τ = _ from same]
    exact ⟨memory, disk, flight, workers⟩
  | connect =>
    cases stepped
    exact ⟨everywhere.memory, everywhere.disk, everywhere.flight, everywhere.workers⟩
  | disconnect id client last =>
    obtain ⟨events, claims, leases, same, -⟩ := disconnect_broadcasts cfg id client last σ
    cases stepped
    rw [same]
    exact ⟨everywhere.memory, everywhere.disk, everywhere.flight, everywhere.workers⟩
  | deliver now id =>
    obtain ⟨υ, claims, subscribers, looked, same⟩ := deliver_frame now id σ
    obtain ⟨memory, disk, flight, workers⟩ := looked.everywhere stored everywhere
    rw [Option.some.inj stepped] at same
    rw [show τ = _ from same]
    exact ⟨memory, disk, flight, workers⟩
  | notify kind =>
    cases stepped
    exact ⟨everywhere.memory, everywhere.disk, everywhere.flight, everywhere.workers⟩
  | getOrCreate now limitReached =>
    obtain ⟨opened, created, same⟩ := Option.map_eq_some_iff.mp stepped
    cases same
    exact getOrCreate_everywhere stored everywhere created
  | delete =>
    simp only [step] at stepped
    split at stepped
    · cases stepped
    · cases stepped
      have emptied : ({ σ with
          loaded := false, disk := none
          memory := { heap := σ.memory.heap, session := {}, ring := [] } } : Server).Everywhere P :=
        ⟨stored.created 0, (by simp), everywhere.flight, everywhere.workers⟩
      unfold delete
      dsimp only
      split
      · exact ⟨emptied.memory, emptied.disk, emptied.flight, emptied.workers⟩
      · exact emptied
  | restart landed =>
    cases stepped
    refine ⟨stored.created 0, fun saved member => ?_, (by simp [restart]), (by simp [restart])⟩
    cases landed with
    | false => exact everywhere.disk saved member
    | true =>
      rw [restart, if_pos rfl, Option.mem_def, Option.or_eq_some_iff, Option.map_eq_some_iff] at member
      rcases member with ⟨batch, flying, rfl⟩ | ⟨-, onDisk⟩
      · exact (everywhere.flight batch flying).2
      · exact everywhere.disk saved onDisk

end Stored

section Lasting

variable (lasting : Session.Lasting cfg.toStoreConfig P)
include lasting

theorem walk_lasting {client : String} {ops : List BatchOp} {m : Memory} (wf : m.Wf) (holds : P m.view)
    {leases : Dict String} {w : Walk}
    (walked : Walk.run cfg client ops { memory := m, leases := leases } = .ok w) : P w.memory.view := by
  refine ((Walk.run_induction (P := fun w => w.memory.Wf ∧ P w.memory.view) (Q := fun _ _ => True) ?_
    (fun _ _ => trivial) ⟨wf, holds⟩).1 w walked).2
  rintro w op w' ⟨wf, holds⟩ stepped
  rcases Walk.next_ok stepped with ⟨same, -⟩ | ⟨env, stateOp, applied, -, -, accepted, -, -⟩
  · rw [same]
    exact ⟨wf, holds⟩
  · exact ⟨(Memory.applyStateOp_extends wf (congrArg Outcome.after? accepted)).wf,
      lasting.applied holds (Memory.view_applied wf accepted)⟩

theorem restore_lasting {saved : Session Annotation} (holds : P saved) (m : Memory)
    (ring : List (Applied Ref)) (name : Option String) : P (m.restore saved ring name).view := by
  rw [Memory.view_restore]
  exact lasting.restored _ _ holds

theorem applyOps_everywhere {σ : Server} (wf : σ.Wf) (everywhere : σ.Everywhere P) (idle : σ.inFlight = none)
    (now : Nat) (client : String) (ops : List BatchOp) : (σ.applyOps cfg now client ops).1.Everywhere P := by
  rcases applyOps_cases cfg now client ops σ with ⟨-, same⟩ | ⟨base, got, ended⟩
  · rw [same]
    exact everywhere
  · have here := get?_everywhere lasting.stored everywhere got
    have baseIdle : base.inFlight = none := (get?_frame got).1.trans idle
    have noFlight : ∀ batch ∈ base.inFlight, P batch.saved ∧ P batch.snapshot := here.flight
    rcases ended with ⟨failure, m, -, same⟩ | ⟨w, walked, ⟨-, same⟩ | ⟨-, ⟨-, same⟩ | ⟨-, same⟩⟩⟩
    · rw [same]
      exact ⟨restore_lasting lasting here.memory m _ _, here.disk, noFlight, here.workers⟩
    · have walk := walk_lasting lasting (get?_wf wf got).memory here.memory walked
      obtain ⟨events, claims, leases, committed, -⟩ := commitEach_broadcasts cfg now client
        { base with memory := w.memory, leases := base.leases.prune now } w.pending
      rw [same, commit]
      dsimp only
      rw [committed]
      exact ⟨walk, here.disk, noFlight, here.workers⟩
    · rw [same]
      exact ⟨restore_lasting lasting here.memory w.memory _ _, here.disk, noFlight, here.workers⟩
    · have walk := walk_lasting lasting (get?_wf wf got).memory here.memory walked
      rw [same]
      refine ⟨walk, here.disk, ?_, here.workers⟩
      rintro batch ⟨⟩
      exact ⟨here.memory, document_stored lasting.stored walk⟩

theorem applyOpSync_everywhere {σ : Server} (wf : σ.Wf) (everywhere : σ.Everywhere P) (call : Call)
    (persists : Bool) : (σ.applyOpSync cfg call persists).1.Everywhere P := by
  rcases applyOpSync_cases cfg call persists σ with
    ⟨-, same⟩ | ⟨failure, m, -, same⟩ | ⟨applied, m, accepted, -, same⟩
  · rw [same]
    exact everywhere
  · rw [same]
    exact ⟨restore_lasting lasting everywhere.memory m _ _, everywhere.disk, everywhere.flight, everywhere.workers⟩
  · have after := lasting.applied everywhere.memory (Memory.view_applied wf.memory accepted)
    rw [same]
    refine ⟨after, ?_, everywhere.flight, everywhere.workers⟩
    rintro _ ⟨⟩
    exact document_stored lasting.stored after

theorem write_everywhere {σ : Server} (wf : σ.Wf) (everywhere : σ.Everywhere P) (request : Request)
    (call : SyncWrite) : (σ.write cfg request call).1.Everywhere P := by
  obtain ⟨looked, -⟩ := prepareWrite_looked cfg request call σ
  unfold write
  split
  · rename_i prepared
    rw [prepared] at looked
    exact looked.everywhere lasting.stored everywhere
  · rename_i τ op prepared
    rw [prepared] at looked
    have applied := applyOpSync_everywhere lasting (looked.wf wf) (looked.everywhere lasting.stored everywhere)
      { env := request.env, client := request.client, op := op } request.persists
    split <;> rename_i ended <;> rw [ended] at applied <;> exact applied

theorem undo_everywhere {σ : Server} (wf : σ.Wf) (everywhere : σ.Everywhere P) (request : Request)
    (persistsAgain : Bool) : (σ.undo cfg request persistsAgain).1.Everywhere P := by
  obtain ⟨looked, -⟩ := prepareUndo_looked request σ
  unfold undo
  split
  · rename_i prepared
    rw [prepared] at looked
    exact looked.everywhere lasting.stored everywhere
  · rename_i τ record inverse prepared
    rw [prepared] at looked
    have here := looked.everywhere lasting.stored everywhere
    have forgotten : (τ.withSession fun s =>
        { s with deletedAnnotationIds := forgetDeleted inverse s.deletedAnnotationIds }).Everywhere P :=
      withSession_everywhere here (lasting.restored _ _ here.memory)
    have applied := applyOpSync_everywhere lasting
      (withSession_wf (looked.wf wf) (fun s =>
        { s with deletedAnnotationIds := forgetDeleted inverse s.deletedAnnotationIds }) fun _ => rfl) forgotten
      { env := request.env, client := undoReplayClientId, op := inverse
        recordActivity := false, trustedReplay := true } request.persists
    dsimp only
    split <;> rename_i ended <;> rw [ended] at applied
    · exact applied
    · exact applied
    · rename_i υ _
      have marked : (υ.withSession fun s => { s with
          activityLog := markUndone request.env.stamp request.client s.activityLog }).Everywhere P :=
        withSession_everywhere applied (lasting.undone _ _ applied.memory)
      split
      · refine ⟨marked.memory, ?_, marked.flight, marked.workers⟩
        rintro _ ⟨⟩
        exact document_stored lasting.stored marked.memory
      · exact marked

theorem rename_everywhere {σ : Server} (wf : σ.Wf) (everywhere : σ.Everywhere P) (request : Request)
    (limitReached : Bool) (name : Option String) : (σ.rename cfg request limitReached name).1.Everywhere P := by
  unfold rename
  split
  · exact everywhere
  · rename_i τ opened
    have here := getOrCreate_everywhere lasting.stored everywhere opened
    split
    · exact here
    · dsimp only
      generalize ({ env := request.env, client := if request.client = "" then "rest" else request.client
                    op := .sessionRenamed ((name.map .str).getD .null) } : Call) = call
      have applied := applyOpSync_everywhere lasting (getOrCreate_wf wf opened) here call request.persists
      split
      · exact withSession_everywhere (f := fun s => { s with name := τ.memory.session.name }) applied
          (lasting.restored _ _ applied.memory)
      · exact applied

/-- A lasting property of sessions is kept everywhere by every action. -/
theorem step_everywhere {σ τ : Server} (wf : σ.Wf) (everywhere : σ.Everywhere P) {action : Action} {reply : Reply}
    (stepped : σ.step cfg action = some (τ, reply)) : τ.Everywhere P := by
  cases action with
  | applyOps now client ops =>
    simp only [step] at stepped
    split at stepped
    · cases stepped
    · rename_i idle
      have kept := applyOps_everywhere lasting wf everywhere (by simpa using idle) now client ops
      rw [Option.some.inj stepped] at kept
      exact kept
  | write request call =>
    have kept := write_everywhere lasting wf everywhere request call
    rw [Option.some.inj stepped] at kept
    exact kept
  | undo request persistsAgain =>
    have kept := undo_everywhere lasting wf everywhere request persistsAgain
    rw [Option.some.inj stepped] at kept
    exact kept
  | rename request limitReached name =>
    have kept := rename_everywhere lasting wf everywhere request limitReached name
    rw [Option.some.inj stepped] at kept
    exact kept
  | _ => exact passive_everywhere lasting.stored everywhere (by simp) (by simp) (by simp) (by simp) stepped

/-- A lasting property of sessions holds everywhere in every run. -/
theorem run_everywhere {allowed : List (Action × Reply) → Server → Action → Prop} {history : List (Action × Reply)}
    {σ : Server} (run : Run (step cfg) allowed {} history σ) : σ.Everywhere P := by
  refine (run.invariant (fun _ σ => σ.Wf ∧ σ.Everywhere P) ⟨initial_wf, lasting.created 0, (by simp), (by simp), (by simp)⟩
    ?_).2
  rintro history σ action τ reply ⟨wf, everywhere⟩ - stepped
  exact ⟨step_wf wf stepped, step_everywhere lasting wf everywhere stepped⟩

end Lasting

end Server

/-- Every stored inverse takes back an action of a kind that is recorded. -/
def Session.Reversible (s : Session Annotation) : Prop :=
  ∀ r ∈ s.activityLog, ∀ inverse ∈ r.inverseOp, inverse.undoable = true

/-- The inverse that an effect stores in the log, if it stores any, is of a recorded kind. -/
def Effect.Invertible (e : Effect) : Prop := ∀ draft ∈ e.activity, draft.inverseOp.undoable = true

theorem Effect.invertible_of_none {e : Effect} (unrecorded : e.activity = none) : e.Invertible := by
  simp [Invertible, unrecorded]

theorem Effect.invertible_of_some {e : Effect} {draft : ActivityDraft} (recorded : e.activity = some draft)
    (undoable : draft.inverseOp.undoable = true) : e.Invertible := by
  simpa [Invertible, recorded] using undoable

/-- Every branch that records an activity stores an inverse of a kind that is recorded. -/
theorem Session.judge_inverse (cfg : StoreConfig) (call : Call) (s : Session Annotation) :
    (s.judge cfg call).Satisfies Effect.Invertible fun _ _ => True := by
  obtain ⟨env, client, recordActivity, trustedReplay, op⟩ := call
  simp only [judge]
  cases op with
  | annotationDeleted annotationId id =>
    simp only [plan, planAnnotationDeleted]
    split
    · rename_i id _
      cases s.state.find id with
      | none => exact Effect.invertible_of_none rfl
      | some removed => exact Effect.invertible_of_some rfl rfl
    · trivial
  | sessionRenamed name =>
    simp only [plan, planSessionRenamed]
    split
    · exact Effect.invertible_of_none rfl
    · exact Effect.invertible_of_none rfl
    · trivial
  | nodeMoved nodeId position =>
    simp only [plan, planNodeMoved]
    split
    · exact validated_satisfies trivial fun _ _ => Effect.invertible_of_some rfl rfl
    · trivial
  | nodesRemoved nodeIds =>
    apply validated_satisfies trivial
    intro removals valid
    dsimp only
    split
    · trivial
    · exact Effect.invertible_of_none rfl
  | groupMembershipChanged groupId members =>
    simp only [plan, planGroupMembershipChanged]
    split
    · apply validated_satisfies trivial
      intro members valid
      split
      · trivial
      · exact Effect.invertible_of_none rfl
    · trivial
  | annotationCreated payload =>
    apply validated_satisfies trivial
    intro ann valid
    dsimp only
    repeat' split
    all_goals first | trivial | exact Effect.invertible_of_some rfl rfl
  | annotationUpdated payload baseVersion =>
    apply validated_satisfies trivial
    intro incoming valid
    dsimp only
    repeat' split
    all_goals first | trivial | exact Effect.invertible_of_some rfl rfl
  | idsAdded set ids | idsDropped set ids =>
    apply validated_satisfies trivial
    intro requested valid
    by_cases recordable : set = .hiddenEdges
    · exact Effect.invertible_of_none (by simp [recordable])
    · dsimp only
      split
      · exact Effect.invertible_of_none rfl
      · exact Effect.invertible_of_some rfl (by simpa [StateOp.undoable] using recordable)
  | edgeIntensitySet value =>
    apply validated_satisfies trivial
    intro value valid
    dsimp only
    split
    · exact Effect.invertible_of_none rfl
    · exact Effect.invertible_of_some rfl rfl
  | layoutApplied positions =>
    exact validated_satisfies trivial fun _ _ => Effect.invertible_of_some rfl rfl
  | _ => exact validated_satisfies trivial fun _ _ => Effect.invertible_of_none rfl

theorem mem_pruneActivityLog {cfg : StoreConfig} {now : Nat} {log : List ActivityRecord} {r : ActivityRecord}
    (kept : r ∈ pruneActivityLog cfg now log) : r ∈ log := by
  unfold pruneActivityLog at kept
  have filtered : r ∈ if cfg.activityMaxAge > 0 then
      log.filter fun r => now ≤ r.occurredAt * 1000000 + cfg.activityMaxAge else log := by
    dsimp only at kept
    split at kept
    · exact List.mem_of_mem_drop kept
    · exact kept
  split at filtered
  · exact (List.mem_filter.mp filtered).1
  · exact filtered

/-- An op leaves the records of the log, apart from those that it prunes and its own. -/
theorem Call.mem_log {call : Call} {cfg : StoreConfig} {seq : Nat} {log : List ActivityRecord}
    {activity : Option ActivityDraft} {r : ActivityRecord} (member : r ∈ call.log cfg seq log activity) :
    r ∈ log ∨ ∃ draft ∈ activity, r.inverseOp = some draft.inverseOp := by
  cases activity with
  | none => exact Or.inl member
  | some draft =>
    rw [Call.log] at member
    split at member
    · rcases List.mem_append.mp (mem_pruneActivityLog member) with old | new
      · exact Or.inl old
      · rw [List.mem_singleton.mp new]
        exact Or.inr ⟨draft, rfl, rfl⟩
    · exact Or.inl member

/-- An undo marks a record and changes nothing else in the log. -/
theorem Server.mem_markUndone {stamp : Nat} {actor : String} {log : List ActivityRecord} {r : ActivityRecord}
    (member : r ∈ markUndone stamp actor log) : ∃ old ∈ log, r.inverseOp = old.inverseOp := by
  have latest : ∀ log, r ∈ markUndone.markLatest stamp actor log → ∃ old ∈ log, r.inverseOp = old.inverseOp := by
    intro log member
    induction log with
    | nil => cases member
    | cons first log ih =>
      rw [markUndone.markLatest] at member
      split at member
      · rcases List.mem_cons.mp member with rfl | later
        · exact ⟨first, List.mem_cons_self, rfl⟩
        · exact ⟨r, List.mem_cons_of_mem _ later, rfl⟩
      · rcases List.mem_cons.mp member with rfl | later
        · exact ⟨r, List.mem_cons_self, rfl⟩
        · obtain ⟨old, was, same⟩ := ih later
          exact ⟨old, List.mem_cons_of_mem _ was, same⟩
  obtain ⟨old, was, same⟩ := latest _ (List.mem_reverse.mp member)
  exact ⟨old, List.mem_reverse.mp was, same⟩

theorem Session.reversible_lasting (cfg : StoreConfig) : Session.Lasting cfg Session.Reversible where
  created := fun _ _ member => by cases member
  applied := by
    intro call s op after reversible accepted r member inverse stored
    have inverses := Session.judge_inverse cfg call s
    unfold Session.applyStateOp at accepted
    split at accepted
    · cases accepted
    · cases accepted
    · rename_i verdict
      cases accepted
      rw [verdict] at inverses
      rcases Call.mem_log member with old | ⟨draft, recorded, same⟩
      · exact reversible r old inverse stored
      · rw [same] at stored
        cases stored
        exact inverses draft recorded
  restored := fun _ _ reversible => reversible
  undone := by
    intro s stamp actor reversible r member inverse stored
    obtain ⟨old, was, same⟩ := Server.mem_markUndone member
    exact reversible old was inverse (same ▸ stored)

/-- An undo replays only ops of a kind that is recorded. -/
theorem Server.prepareUndo_undoable {σ τ : Server} (everywhere : σ.Everywhere Session.Reversible)
    {request : Request} {record : ActivityRecord} {inverse : StateOp}
    (prepared : σ.prepareUndo request = (τ, .ok (record, inverse))) : inverse.undoable = true := by
  obtain ⟨υ, passed, latest, -, stored, -⟩ := prepareUndo_ok prepared
  obtain ⟨looked, -⟩ := preflight_looked request σ
  rw [passed] at looked
  have reversible := (looked.everywhere (Session.reversible_lasting {}).stored everywhere).memory
  exact reversible record (List.mem_reverse.mp (List.mem_of_find?_eq_some latest)) inverse stored

end MetadataGraph
