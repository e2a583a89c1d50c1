import MetadataGraph.Session.Wellformed

namespace MetadataGraph

open ObjectHeap Runs

/-- What can happen while a batch awaits its persist without ending it. -/
def Action.meanwhile : Action → Bool
  | .persistDone _ _ | .cancel | .restart _ => false
  | _ => true

namespace Server

variable {cfg : ManagerConfig}

/-- The session's memory as the next reader gets it, loaded if it has to be. -/
def memory? (σ : Server) : Option Memory := σ.get?.map (·.memory)

theorem session?_eq (σ : Server) : σ.session? = σ.memory?.map Memory.view := by
  simp [session?, memory?, Function.comp_def]

theorem memory?_of_loaded {σ : Server} (loaded : σ.loaded = true) : σ.memory? = some σ.memory := by
  rw [memory?, get?_of_loaded loaded, Option.map_some]

theorem Looked.memory? {σ τ : Server} (looked : Looked σ τ) : τ.memory? = σ.memory? := by
  obtain ⟨base, leases, rfl | ⟨-, got⟩, -, rfl⟩ := looked
  · simp only [Server.memory?, get?]
    split
    · rfl
    · rw [Option.map_map, Option.map_map]
      rfl
  · have loaded := loaded_of_get? got
    rw [memory?_of_loaded (by exact loaded), Server.memory?, got, Option.map_some]

theorem Looked.frame {σ τ : Server} (looked : Looked σ τ) :
    τ.inFlight = σ.inFlight ∧ τ.subscribers = σ.subscribers ∧ τ.nextSubscriber = σ.nextSubscriber := by
  obtain ⟨base, leases, rfl | ⟨-, got⟩, -, rfl⟩ := looked
  · exact ⟨rfl, rfl, rfl⟩
  · rcases get?_cases got with ⟨-, rfl⟩ | ⟨-, saved, -, rfl⟩ <;> exact ⟨rfl, rfl, rfl⟩

theorem Looked.of_loaded {σ τ : Server} (looked : Looked σ τ) (loaded : σ.loaded = true) :
    ∃ leases, leases.Within σ.leases ∧ τ = { σ with leases := leases } := by
  obtain ⟨base, leases, rfl | ⟨unloaded, -⟩, within, rfl⟩ := looked
  · exact ⟨leases, within, rfl⟩
  · rw [loaded] at unloaded
    cases unloaded

/-- Looking does not see the subscribers. -/
theorem Looked.of_subscribers {σ τ : Server} {subscribers : List (Subscriber Ref)}
    (looked : Looked { σ with subscribers := subscribers } τ) :
    ∃ υ, Looked σ υ ∧ τ = { υ with subscribers := subscribers } := by
  obtain ⟨base, leases, rfl | ⟨unloaded, got⟩, within, rfl⟩ := looked
  · exact ⟨{ σ with leases := leases }, ⟨σ, leases, Or.inl rfl, within, rfl⟩, rfl⟩
  · rcases get?_cases got with ⟨loaded, -⟩ | ⟨-, saved, onDisk, rfl⟩
    · rw [loaded] at unloaded
      cases unloaded
    · refine ⟨{ σ.load saved with leases := leases }, ⟨σ.load saved, leases, Or.inr ⟨unloaded, ?_⟩, within, rfl⟩, rfl⟩
      have absent : σ.loaded = false := unloaded
      have present : σ.disk = some saved := onDisk
      simp [get?, absent, present]

theorem memory?_congr {σ τ : Server} (loaded : τ.loaded = σ.loaded) (memory : τ.memory = σ.memory) (disk : τ.disk = σ.disk) :
    τ.memory? = σ.memory? := by
  simp only [memory?, get?, loaded, disk]
  split
  · exact congrArg some memory
  · rw [Option.map_map, Option.map_map]
    congr 1
    funext saved
    simp only [Function.comp_apply, load, memory]

/-- A catch-up shows in the claims and the leases only. -/
theorem catchUp_frame (now : Nat) (sinceSeq : Option Int) (σ : Server) :
    (σ.catchUp now sinceSeq).1.memory? = σ.memory? ∧ (σ.catchUp now sinceSeq).1.inFlight = σ.inFlight ∧
      (σ.catchUp now sinceSeq).1.subscribers = σ.subscribers ∧
      (σ.catchUp now sinceSeq).1.nextSubscriber = σ.nextSubscriber := by
  obtain ⟨τ, claims, looked, same⟩ := catchUp_looked now sinceSeq σ
  have memory : ({ τ with claims := claims } : Server).memory? = τ.memory? := memory?_congr rfl rfl rfl
  rw [same]
  exact ⟨memory.trans looked.memory?, looked.frame⟩

theorem catchUp_none (now : Nat) (σ : Server) :
    (∃ failure, (σ.catchUp now none).2 = .raised failure) ∨
      ∃ seq session claims leases, (σ.catchUp now none).2 = .snapshot seq session claims leases := by
  unfold catchUp
  cases σ.get? with
  | none => exact Or.inl ⟨_, rfl⟩
  | some base => exact Or.inr ⟨_, _, _, _, rfl⟩

/-- A delivery takes the first event of the queue, if there is one, and hands it out; a
resync marker is resolved by a snapshot, unless the session is gone. -/
theorem deliver_cases (now id : Nat) (σ : Server) :
    σ.deliver now id = (σ, .done) ∨
    ∃ sub event queue, σ.subscribers.find? (·.id = id) = some sub ∧ sub.queue = event :: queue ∧
      (event ≠ .resync ∧ σ.deliver now id = (σ.popped id queue, .event (event.map σ.memory.heap.read)) ∨
        event = .resync ∧
          (σ.deliver now id = ({ ((σ.popped id queue).catchUp now none).1 with
              subscribers := ((σ.popped id queue).catchUp now none).1.subscribers.filter (·.id ≠ id) },
              .event .sessionDeleted) ∨
            (∃ seq session claims leases,
              ((σ.popped id queue).catchUp now none).2 = .snapshot seq session claims leases) ∧
            σ.deliver now id = (σ.popped id queue).catchUp now none)) := by
  unfold deliver
  split
  · exact Or.inl rfl
  · rename_i sub found
    split
    · exact Or.inl rfl
    · rename_i event queue queued
      refine Or.inr ⟨sub, event, queue, found, queued, ?_⟩
      dsimp only
      split
      · rename_i marker
        refine Or.inr ⟨marker, ?_⟩
        rcases catchUp_none now (σ.popped id queue) with ⟨failure, answer⟩ | ⟨seq, session, claims, leases, answer⟩
        · left
          have raised : (σ.popped id queue).catchUp now none =
              (((σ.popped id queue).catchUp now none).1, .raised failure) := Prod.ext rfl answer
          rw [raised]
        · right
          refine ⟨⟨seq, session, claims, leases, answer⟩, ?_⟩
          have given : (σ.popped id queue).catchUp now none =
              (((σ.popped id queue).catchUp now none).1, .snapshot seq session claims leases) := Prod.ext rfl answer
          rw [given]
      · rename_i other
        exact Or.inl ⟨other, rfl⟩

/-- A delivery only looks at the session. -/
theorem deliver_frame (now id : Nat) (σ : Server) :
    ∃ τ claims subscribers, Looked σ τ ∧
      (σ.deliver now id).1 = { τ with claims := claims, subscribers := subscribers } := by
  rcases deliver_cases now id σ with same | ⟨sub, event, queue, -, -, ⟨-, same⟩ | ⟨-, resolved⟩⟩
  · rw [same]
    exact ⟨σ, σ.claims, σ.subscribers, Looked.refl σ, rfl⟩
  · rw [same]
    exact ⟨σ, σ.claims, _, Looked.refl σ, rfl⟩
  · obtain ⟨τ, claims, looked, caught⟩ := catchUp_looked now none (σ.popped id queue)
    obtain ⟨υ, looked', rfl⟩ := Looked.of_subscribers looked
    rcases resolved with same | ⟨-, same⟩
    · rw [same, caught]
      exact ⟨υ, claims, _, looked', rfl⟩
    · rw [same, caught]
      exact ⟨υ, claims, _, looked', rfl⟩

theorem deliver_memory? (now id : Nat) (σ : Server) :
    (σ.deliver now id).1.memory? = σ.memory? ∧ (σ.deliver now id).1.inFlight = σ.inFlight := by
  obtain ⟨τ, claims, subscribers, looked, same⟩ := deliver_frame now id σ
  have memory : ({ τ with claims := claims, subscribers := subscribers } : Server).memory? = τ.memory? :=
    memory?_congr rfl rfl rfl
  rw [same]
  exact ⟨memory.trans looked.memory?, looked.frame.1⟩

/-- What a synchronous write has passed when it hands on its op. -/
theorem prepareWrite_ok {σ τ : Server} {request : Request} {call : SyncWrite} {op : StateOp}
    (prepared : σ.prepareWrite cfg request call = (τ, .ok op)) :
    ∃ υ, σ.preflight request = (υ, none) ∧ call.prepare cfg υ.memory.view = .ok (some op) ∧
      ((call.leaseIdentity request.client = none ∧ τ = υ) ∨
        ∃ client, call.leaseIdentity request.client = some client ∧
          υ.rejectIfLeased request.now client op = (τ, none)) := by
  unfold prepareWrite at prepared
  split at prepared
  · cases (Prod.mk.inj prepared).2
  · split at prepared
    · cases (Prod.mk.inj prepared).2
    · split at prepared
      · cases (Prod.mk.inj prepared).2
      · rename_i υ passed
        split at prepared
        · cases (Prod.mk.inj prepared).2
        · cases (Prod.mk.inj prepared).2
        · rename_i op' handed
          split at prepared
          · rename_i unchecked
            cases prepared
            exact ⟨_, passed, handed, Or.inl ⟨unchecked, rfl⟩⟩
          · rename_i client checked
            split at prepared
            · cases (Prod.mk.inj prepared).2
            · rename_i free
              cases prepared
              exact ⟨_, passed, handed, Or.inr ⟨client, checked, free⟩⟩

/-- What an undo has passed when it replays a stored inverse. -/
theorem prepareUndo_ok {σ τ : Server} {request : Request} {record : ActivityRecord} {inverse : StateOp}
    (prepared : σ.prepareUndo request = (τ, .ok (record, inverse))) :
    ∃ υ, σ.preflight request = (υ, none) ∧
      findLatestUndoable υ.memory.session.activityLog request.client = some record ∧
      undoConflictReason υ.memory.view.state record = none ∧ record.inverseOp = some inverse ∧
      υ.rejectIfLeased request.now request.client inverse = (τ, none) := by
  unfold prepareUndo at prepared
  split at prepared
  · cases (Prod.mk.inj prepared).2
  · split at prepared
    · cases (Prod.mk.inj prepared).2
    · rename_i υ passed
      split at prepared
      · cases (Prod.mk.inj prepared).2
      · rename_i record' latest
        split at prepared
        · cases (Prod.mk.inj prepared).2
        · rename_i unchanged
          split at prepared
          · cases (Prod.mk.inj prepared).2
          · rename_i inverse' stored
            split at prepared
            · cases (Prod.mk.inj prepared).2
            · rename_i free
              cases prepared
              exact ⟨_, passed, latest, unchanged, stored, free⟩

/-- Neither a synchronous write nor an undo gets past the lock of a batch in flight. -/
theorem write_of_flight (cfg : ManagerConfig) {σ : Server} {batch : InFlight} (loaded : σ.loaded = true)
    (flying : σ.inFlight = some batch) (request : Request) (call : SyncWrite) :
    ∃ leases, leases.Within σ.leases ∧ (σ.write cfg request call).1 = { σ with leases := leases } := by
  obtain ⟨looked, ready⟩ := prepareWrite_looked cfg request call σ
  obtain ⟨leases, within, same⟩ := looked.of_loaded loaded
  refine ⟨leases, within, ?_⟩
  unfold write
  split
  · rename_i prepared
    rw [prepared] at same
    exact same
  · rename_i op prepared
    rw [prepared] at same ready
    have idle := (ready op rfl).2
    rw [show _ = _ from same, flying] at idle
    cases idle

theorem undo_of_flight (cfg : ManagerConfig) {σ : Server} {batch : InFlight} (loaded : σ.loaded = true)
    (flying : σ.inFlight = some batch) (request : Request) (persistsAgain : Bool) :
    ∃ leases, leases.Within σ.leases ∧ (σ.undo cfg request persistsAgain).1 = { σ with leases := leases } := by
  obtain ⟨looked, ready⟩ := prepareUndo_looked request σ
  obtain ⟨leases, within, same⟩ := looked.of_loaded loaded
  refine ⟨leases, within, ?_⟩
  unfold undo
  split
  · rename_i prepared
    rw [prepared] at same
    exact same
  · rename_i found prepared
    rw [prepared] at same ready
    have idle := (ready _ rfl).2
    rw [show _ = _ from same, flying] at idle
    cases idle

theorem rename_of_flight {σ : Server} {batch : InFlight} (loaded : σ.loaded = true)
    (flying : σ.inFlight = some batch) (request : Request) (limitReached : Bool) (name : Option String) :
    σ.rename cfg request limitReached name = (σ, .raised .layoutBusy) := by
  simp only [rename, getOrCreate, get?_of_loaded loaded, flying, Option.isSome_some, if_true]

/-- While a batch is in flight no other action changes the session, grants a lease or ends
the flight. -/
theorem meanwhile_step {σ τ : Server} {batch : InFlight} (loaded : σ.loaded = true)
    (flying : σ.inFlight = some batch) {action : Action} (during : action.meanwhile = true) {reply : Reply}
    (stepped : σ.step cfg action = some (τ, reply)) :
    τ.memory = σ.memory ∧ τ.loaded = true ∧ τ.inFlight = some batch ∧ τ.leases.Within σ.leases := by
  have kept : ∀ {claims leases subscribers}, leases.Within σ.leases →
      τ = { σ with claims := claims, leases := leases, subscribers := subscribers } →
      τ.memory = σ.memory ∧ τ.loaded = true ∧ τ.inFlight = some batch ∧ τ.leases.Within σ.leases := by
    rintro claims leases subscribers within rfl
    exact ⟨rfl, loaded, flying, within⟩
  cases action with
  | persistDone | cancel | restart => cases during
  | applyOps | delete => simp [step, flying] at stepped
  | workerDone index landed =>
    obtain ⟨snapshot, -, same⟩ := Option.map_eq_some_iff.mp stepped
    cases same
    exact ⟨rfl, loaded, flying, .refl _⟩
  | write request call =>
    obtain ⟨leases, within, same⟩ := write_of_flight cfg loaded flying request call
    rw [Option.some.inj stepped] at same
    exact kept within same
  | undo request persistsAgain =>
    obtain ⟨leases, within, same⟩ := undo_of_flight cfg loaded flying request persistsAgain
    rw [Option.some.inj stepped] at same
    exact kept within same
  | rename request limitReached name =>
    rw [step, rename_of_flight loaded flying] at stepped
    cases stepped
    exact ⟨rfl, loaded, flying, .refl _⟩
  | catchUp now sinceSeq =>
    obtain ⟨υ, claims, looked, same⟩ := catchUp_looked now sinceSeq σ
    obtain ⟨leases, within, rfl⟩ := looked.of_loaded loaded
    rw [Option.some.inj stepped] at same
    exact kept within same
  | connect =>
    cases stepped
    exact ⟨rfl, loaded, flying, .refl _⟩
  | disconnect id client last =>
    obtain ⟨events, claims, leases, same, -, -, within⟩ := disconnect_broadcasts cfg id client last σ
    cases stepped
    exact kept within same
  | deliver now id =>
    obtain ⟨υ, claims, subscribers, looked, same⟩ := deliver_frame now id σ
    obtain ⟨leases, within, rfl⟩ := looked.of_loaded loaded
    rw [Option.some.inj stepped] at same
    exact kept within same
  | notify kind =>
    cases stepped
    exact ⟨rfl, loaded, flying, .refl _⟩
  | getOrCreate now limitReached =>
    rw [step, getOrCreate, get?_of_loaded loaded] at stepped
    cases stepped
    exact ⟨rfl, loaded, flying, .refl _⟩

theorem applyOpSync_frame (cfg : ManagerConfig) (call : Call) (persists : Bool) (σ : Server) :
    (σ.applyOpSync cfg call persists).1.loaded = σ.loaded ∧
      (σ.applyOpSync cfg call persists).1.inFlight = σ.inFlight := by
  rcases applyOpSync_cases cfg call persists σ with ⟨-, same⟩ | ⟨failure, m, -, same⟩ | ⟨applied, m, -, -, same⟩
  all_goals
    rw [same]
    exact ⟨rfl, rfl⟩

/-- The call of the store that a synchronous write comes to. -/
def writeCall (request : Request) (op : StateOp) : Call :=
  { env := request.env, client := request.client, op := op }

/-- The call with which an inverse op is replayed. -/
def undoCall (request : Request) (inverse : StateOp) : Call :=
  { env := request.env, client := undoReplayClientId, op := inverse, recordActivity := false,
    trustedReplay := true }

/-- The session as `undo_last_action` hands it to `_apply_op_sync`. -/
def forgotten (inverse : StateOp) (σ : Server) : Server :=
  σ.withSession fun s => { s with deletedAnnotationIds := forgetDeleted inverse s.deletedAnnotationIds }

/-- A synchronous write only looks, or ends in `_apply_op_sync`. -/
theorem write_cases (cfg : ManagerConfig) (request : Request) (call : SyncWrite) (σ : Server) :
    Looked σ (σ.write cfg request call).1 ∨ ∃ τ op, σ.prepareWrite cfg request call = (τ, .ok op) ∧
      (σ.write cfg request call).1 = (τ.applyOpSync cfg (writeCall request op) request.persists).1 := by
  obtain ⟨looked, -⟩ := prepareWrite_looked cfg request call σ
  unfold write
  split
  · rename_i prepared
    rw [prepared] at looked
    exact Or.inl looked
  · rename_i τ op prepared
    refine Or.inr ⟨τ, op, prepared, ?_⟩
    rw [writeCall]
    split <;> rename_i ended <;> rw [ended]

/-- An undo only looks, or ends in `_apply_op_sync` and perhaps in the mark of its record. -/
theorem undo_cases (cfg : ManagerConfig) (request : Request) (persistsAgain : Bool) (σ : Server) :
    Looked σ (σ.undo cfg request persistsAgain).1 ∨
      ∃ τ record inverse, σ.prepareUndo request = (τ, .ok (record, inverse)) ∧
        let υ := ((τ.forgotten inverse).applyOpSync cfg (undoCall request inverse) request.persists).1
        ((σ.undo cfg request persistsAgain).1 = υ ∨
          ∃ disk, (σ.undo cfg request persistsAgain).1 = { υ.withSession (fun s =>
            { s with activityLog := markUndone request.env.stamp request.client s.activityLog }) with
            disk := disk }) := by
  obtain ⟨looked, -⟩ := prepareUndo_looked request σ
  unfold undo
  split
  · rename_i prepared
    rw [prepared] at looked
    exact Or.inl looked
  · rename_i τ record inverse prepared
    refine Or.inr ⟨τ, record, inverse, prepared, ?_⟩
    rw [forgotten, undoCall]
    dsimp only
    split <;> rename_i ended <;> rw [ended]
    · exact Or.inl rfl
    · exact Or.inl rfl
    · refine Or.inr ?_
      split
      · exact ⟨_, rfl⟩
      · exact ⟨_, rfl⟩

/-- The call of the store that a rename comes to. -/
def renameCall (request : Request) (name : Option String) : Call :=
  { env := request.env, client := if request.client = "" then "rest" else request.client
    op := .sessionRenamed ((name.map .str).getD .null) }

/-- A rename opens the session and then ends in `_apply_op_sync`, unless a batch is in flight. -/
theorem rename_cases (cfg : ManagerConfig) (request : Request) (limitReached : Bool) (name : Option String) (σ : Server) :
    (σ.rename cfg request limitReached name).1 = σ ∨
      ∃ τ, σ.getOrCreate request.env.stamp limitReached = some τ ∧
        ((σ.rename cfg request limitReached name).1 = τ ∨ τ.inFlight = none ∧
          let υ := (τ.applyOpSync cfg (renameCall request name) request.persists).1
          ((σ.rename cfg request limitReached name).1 = υ ∨
            (σ.rename cfg request limitReached name).1 =
              υ.withSession fun s => { s with name := τ.memory.session.name })) := by
  unfold rename
  split
  · exact Or.inl rfl
  · rename_i τ opened
    refine Or.inr ⟨τ, opened, ?_⟩
    split
    · exact Or.inl rfl
    · rename_i free
      refine Or.inr ⟨by simpa using free, ?_⟩
      rw [renameCall]
      dsimp only
      split
      · exact Or.inr rfl
      · exact Or.inl rfl

/-- Nothing but a batch takes the lock. -/
theorem idle_step {σ τ : Server} (idle : σ.inFlight = none) {action : Action} {reply : Reply}
    (other : ∀ now client ops, action ≠ .applyOps now client ops)
    (stepped : σ.step cfg action = some (τ, reply)) : τ.inFlight = none := by
  have opened : ∀ {now limitReached τ}, σ.getOrCreate now limitReached = some τ → τ.inFlight = none := by
    intro now limitReached τ opened
    unfold getOrCreate at opened
    split at opened
    · rename_i got
      cases opened
      exact (get?_frame got).1.trans idle
    · split at opened <;> cases opened
      exact idle
  cases action with
  | applyOps now client ops => exact absurd rfl (other now client ops)
  | persistDone | cancel => simp [step, idle] at stepped
  | workerDone index landed =>
    obtain ⟨snapshot, -, same⟩ := Option.map_eq_some_iff.mp stepped
    cases same
    exact idle
  | write request call =>
    obtain rfl := congrArg Prod.fst (Option.some.inj stepped)
    rcases write_cases cfg request call σ with looked | ⟨υ, op, prepared, same⟩
    · exact looked.frame.1.trans idle
    · have ready := (prepareWrite_looked cfg request call σ).2 op (by rw [prepared])
      rw [prepared] at ready
      rw [same]
      exact (applyOpSync_frame cfg _ _ υ).2.trans ready.2
  | undo request persistsAgain =>
    obtain rfl := congrArg Prod.fst (Option.some.inj stepped)
    rcases undo_cases cfg request persistsAgain σ with looked | ⟨υ, record, inverse, prepared, same⟩
    · exact looked.frame.1.trans idle
    · have ready := (prepareUndo_looked request σ).2 (record, inverse) (by rw [prepared])
      rw [prepared] at ready
      have applied := (applyOpSync_frame cfg (undoCall request inverse) request.persists (υ.forgotten inverse)).2
      rcases same with same | ⟨disk, same⟩
      all_goals
        rw [same]
        exact applied.trans ready.2
  | rename request limitReached name =>
    obtain rfl := congrArg Prod.fst (Option.some.inj stepped)
    rcases rename_cases cfg request limitReached name σ with same | ⟨υ, created, same | ⟨free, ended⟩⟩
    · rw [same]
      exact idle
    · rw [same]
      exact opened created
    · have applied := (applyOpSync_frame cfg (renameCall request name) request.persists υ).2
      rcases ended with same | same
      all_goals
        rw [same]
        exact applied.trans free
  | catchUp now sinceSeq =>
    obtain rfl := congrArg Prod.fst (Option.some.inj stepped)
    exact (catchUp_frame now sinceSeq σ).2.1.trans idle
  | connect =>
    cases stepped
    exact idle
  | disconnect id client last =>
    cases stepped
    obtain ⟨events, claims, leases, same, -⟩ := disconnect_broadcasts cfg id client last σ
    rw [same]
    exact idle
  | deliver now id =>
    obtain rfl := congrArg Prod.fst (Option.some.inj stepped)
    exact (deliver_memory? now id σ).2.trans idle
  | notify kind =>
    cases stepped
    exact idle
  | getOrCreate now limitReached =>
    obtain ⟨υ, created, same⟩ := Option.map_eq_some_iff.mp stepped
    cases same
    exact opened created
  | delete =>
    simp only [step, idle, Option.isSome_none, Bool.false_eq_true, if_false] at stepped
    cases stepped
    unfold delete
    dsimp only
    split <;> exact idle
  | restart landed =>
    cases stepped
    rfl

/-- What a batch in flight started with is still there when its persist returns. -/
theorem meanwhile_run {σ τ : Server} {between : List (Action × Reply)}
    (run : Run (step cfg) (fun _ _ action => action.meanwhile = true) σ between τ) {batch : InFlight}
    (loaded : σ.loaded = true) (flying : σ.inFlight = some batch) :
    τ.memory = σ.memory ∧ τ.loaded = true ∧ τ.inFlight = some batch := by
  apply run.invariant fun _ τ => τ.memory = σ.memory ∧ τ.loaded = true ∧ τ.inFlight = some batch
  · exact ⟨rfl, loaded, flying⟩
  · rintro history ρ action ρ' reply ⟨memory, loaded, flying⟩ during stepped
    obtain ⟨memory', still, flying', -⟩ := meanwhile_step loaded flying during stepped
    exact ⟨memory'.trans memory, still, flying'⟩

end Server

end MetadataGraph
