import MetadataGraph.Lib.Feed
import MetadataGraph.Session.Flight

namespace MetadataGraph

open ObjectHeap Runs

/-- The state ops of a list of pending entries. -/
def pendingOps (pending : List (Pending Ref)) : List (Applied Ref) := pending.filterMap Pending.applied?

/-- A log of ops with consecutive sequence numbers from the one after `first` on. -/
def Numbered (first : Nat) (log : List (Applied Ref)) : Prop :=
  log.map Applied.seq = List.range' (first + 1) log.length

theorem numbered_nil (first : Nat) : Numbered first [] := rfl

theorem Numbered.snoc {first : Nat} {log : List (Applied Ref)} (numbered : Numbered first log)
    {applied : Applied Ref} (next : applied.seq = first + log.length + 1) : Numbered first (log ++ [applied]) := by
  have final : first + 1 + 1 * log.length = applied.seq := by omega
  rw [Numbered, List.map_append, numbered, List.length_append, List.length_singleton, List.range'_concat, final]
  rfl

theorem Numbered.split {first : Nat} {log later : List (Applied Ref)} (numbered : Numbered first (log ++ later)) :
    Numbered first log ∧ later.map Applied.seq = List.range' (first + log.length + 1) later.length := by
  have start : first + 1 + 1 * log.length = first + log.length + 1 := by omega
  rw [Numbered, List.map_append, List.length_append, ← List.range'_append, start] at numbered
  exact List.append_inj numbered (by rw [List.length_map, List.length_range'])

/-- The newest entries of a numbered log end at its last number. -/
theorem Numbered.endsAt {first : Nat} {log ring : List (Applied Ref)} (numbered : Numbered first log)
    (newest : ring <:+ log) : Feed.EndsAt (ring.map Applied.seq) (first + log.length) := by
  obtain ⟨older, rfl⟩ := newest
  have start : first + (older ++ ring).length + 1 - ring.length = first + older.length + 1 := by
    rw [List.length_append]
    omega
  rw [Feed.EndsAt, List.length_map, start]
  refine ⟨?_, numbered.split.2⟩
  rw [List.length_append]
  omega

theorem boundedAppend_suffix {α : Type} (maxlen : Nat) {deque log : List α} (newest : deque <:+ log) (item : α) :
    boundedAppend maxlen deque item <:+ log ++ [item] := by
  obtain ⟨older, rfl⟩ := newest
  refine (List.drop_suffix _ _).trans ⟨older, ?_⟩
  rw [List.append_assoc]

namespace Walk

variable {cfg : ManagerConfig} {client : String}

/-- Where a walk over a batch stands in the log: its ops follow what was there before. -/
structure Logged (first : Nat) (log : List (Applied Ref)) (w : Walk) : Prop where
  wf : w.memory.Wf
  numbered : Numbered first (log ++ pendingOps w.pending)
  seq : w.memory.session.seq = first + (log ++ pendingOps w.pending).length
  ring : w.memory.ring <:+ log ++ pendingOps w.pending

theorem Logged.next {first : Nat} {log : List (Applied Ref)} {w w' : Walk} {op : BatchOp}
    (logged : w.Logged first log) (stepped : w.next cfg client op = .ok w') : w'.Logged first log := by
  rcases next_ok stepped with ⟨same, extra, pending, quiet⟩ | ⟨env, stateOp, applied, -, -, accepted, -, pending⟩
  · have ops : pendingOps w'.pending = pendingOps w.pending := by
      rw [pending, pendingOps, List.filterMap_append, List.filterMap_eq_nil_iff.mpr quiet, List.append_nil]
      rfl
    exact ⟨same ▸ logged.wf, ops ▸ logged.numbered, by rw [same, ops, logged.seq],
      by rw [same, ops]; exact logged.ring⟩
  · have ops : log ++ pendingOps w'.pending = (log ++ pendingOps w.pending) ++ [applied] := by
      rw [pending, pendingOps, List.filterMap_append, List.append_assoc]
      rfl
    obtain ⟨number, seq, ring, -⟩ := Memory.applyStateOp_applied logged.wf accepted
    rw [logged.seq] at number seq
    refine ⟨(Memory.applyStateOp_extends logged.wf (congrArg Outcome.after? accepted)).wf, ?_, ?_, ?_⟩
    · rw [ops]
      exact logged.numbered.snoc number
    · rw [ops, seq]
      simp only [List.length_append, List.length_singleton]
      omega
    · rw [ops, ring]
      exact boundedAppend_suffix _ logged.ring _

theorem run_logged {first : Nat} {log : List (Applied Ref)} {ops : List BatchOp} {w w' : Walk}
    (logged : w.Logged first log) (ended : run cfg client ops w = .ok w') : w'.Logged first log :=
  (run_induction (Q := fun _ _ => True) (fun logged stepped => logged.next stepped)
    (fun _ _ => trivial) logged).1 w' ended

end Walk

namespace Server

variable {cfg : ManagerConfig}

/-- The ops of the batch in flight. -/
def flightOps (σ : Server) : List (Applied Ref) := (σ.inFlight.map fun batch => pendingOps batch.pending).getD []

/-- The last sequence number that is not subject to a rollback any more. -/
def published (σ : Server) : Nat := match σ.inFlight with
  | some batch => batch.saved.seq
  | none => (σ.memory?.map (·.session.seq)).getD 0

/-- The log of the ops that the session has committed since it was loaded, with the ops in
flight after it: all of them are numbered in a row, and the ring holds the newest. -/
structure Logged (first : Nat) (log : List (Applied Ref)) (σ : Server) : Prop where
  numbered : Numbered first (log ++ σ.flightOps)
  seq : (σ.memory?.map (·.session.seq)).getD 0 = first + (log ++ σ.flightOps).length
  ring : ∀ m ∈ σ.memory?, m.ring <:+ log ++ σ.flightOps
  flight : ∀ batch ∈ σ.inFlight, batch.saved.seq = first + log.length ∧ batch.savedRing <:+ log

theorem Logged.published {first : Nat} {log : List (Applied Ref)} {σ : Server} (logged : σ.Logged first log) :
    σ.published = first + log.length := by
  unfold Server.published
  cases flying : σ.inFlight with
  | some batch => exact (logged.flight batch flying).1
  | none =>
    have seq := logged.seq
    simpa [flightOps, flying] using seq

theorem Logged.of_same {first : Nat} {log : List (Applied Ref)} {σ τ : Server} (logged : σ.Logged first log)
    (memory : τ.memory? = σ.memory?) (flight : τ.inFlight = σ.inFlight) : τ.Logged first log := by
  have ops : τ.flightOps = σ.flightOps := by rw [flightOps, flight, flightOps]
  exact ⟨ops ▸ logged.numbered, by rw [memory, ops, logged.seq], by rw [memory, ops]; exact logged.ring,
    by rw [flight]; exact logged.flight⟩

/-- The log of a session that no batch holds. -/
theorem logged_of_idle {first : Nat} {log : List (Applied Ref)} {σ : Server} (idle : σ.inFlight = none)
    (numbered : Numbered first log) (seq : (σ.memory?.map (·.session.seq)).getD 0 = first + log.length)
    (ring : ∀ m ∈ σ.memory?, m.ring <:+ log) : σ.Logged first log := by
  have ops : σ.flightOps = [] := by rw [flightOps, idle]; rfl
  refine ⟨?_, ?_, ?_, ?_⟩
  · rw [ops, List.append_nil]
    exact numbered
  · rw [ops, List.append_nil]
    exact seq
  · rw [ops, List.append_nil]
    exact ring
  · rw [idle]
    simp

theorem Logged.of_idle {first : Nat} {log : List (Applied Ref)} {σ : Server} (logged : σ.Logged first log)
    (idle : σ.inFlight = none) : Numbered first log ∧
      (σ.memory?.map (·.session.seq)).getD 0 = first + log.length ∧ ∀ m ∈ σ.memory?, m.ring <:+ log := by
  have ops : log ++ σ.flightOps = log := by rw [flightOps, idle]; exact List.append_nil log
  exact ⟨ops ▸ logged.numbered, ops ▸ logged.seq, ops ▸ logged.ring⟩

/-- From one server to the next: the subscribers get some events, and the ops among them
are what the log has grown by. -/
def Publishes (cfg : ManagerConfig) (first : Nat) (log : List (Applied Ref)) (σ τ : Server) : Prop :=
  ∃ events : List (Event Ref), τ.subscribers = broadcast cfg.queueMax events σ.subscribers ∧
    (∀ e ∈ events, e.Plain) ∧ τ.Logged first (log ++ events.filterMap Event.applied?) ∧
    τ.nextSubscriber = σ.nextSubscriber

variable {first : Nat} {log : List (Applied Ref)} {σ τ υ : Server}

theorem Publishes.trans (before : Publishes cfg first log σ τ)
    (after : ∀ {log}, τ.Logged first log → Publishes cfg first log τ υ) : Publishes cfg first log σ υ := by
  obtain ⟨events, sent, plain, logged, next⟩ := before
  obtain ⟨events', sent', plain', logged', next'⟩ := after logged
  refine ⟨events ++ events', ?_, ?_, ?_, next'.trans next⟩
  · rw [sent', sent, broadcast_append]
  · intro e member
    rcases List.mem_append.mp member with early | late
    · exact plain e early
    · exact plain' e late
  · rw [List.filterMap_append, ← List.append_assoc]
    exact logged'

/-- A step that publishes nothing. -/
theorem publishes_nothing (logged : τ.Logged first log) (subscribers : τ.subscribers = σ.subscribers)
    (next : τ.nextSubscriber = σ.nextSubscriber) : Publishes cfg first log σ τ :=
  ⟨[], subscribers, by simp, by simpa using logged, next⟩

/-- The disk does not show in a session that is loaded. -/
theorem memory?_of_disk (loaded : σ.loaded = true) (disk : Option (Session Annotation)) :
    ({ σ with disk := disk } : Server).memory? = σ.memory? := by
  rw [memory?_of_loaded (by exact loaded), memory?_of_loaded loaded]

theorem Looked.publishes (looked : Looked σ τ) (cfg : ManagerConfig) (logged : σ.Logged first log) : Publishes cfg first log σ τ :=
  publishes_nothing (logged.of_same looked.memory? looked.frame.1) looked.frame.2.1 looked.frame.2.2

/-- The rollback of a batch brings back the log without the ops of the batch. -/
theorem rollback_logged {saved : Session Annotation} {savedRing : List (Applied Ref)} {m : Memory}
    (loaded : σ.loaded = true) (idle : σ.inFlight = none) (numbered : Numbered first log)
    (seq : saved.seq = first + log.length) (ring : savedRing <:+ log) :
    (σ.rollback saved savedRing m).Logged first log := by
  have memory : (σ.rollback saved savedRing m).memory? = some (m.restore saved savedRing saved.name) :=
    memory?_of_loaded (by exact loaded)
  refine logged_of_idle idle numbered ?_ ?_
  · rw [memory, Option.map_some, Option.getD_some, Memory.restore, seq]
  · rw [memory]
    rintro _ ⟨⟩
    exact ring

/-- The commit of a batch publishes its ops. -/
theorem commit_publishes (cfg : ManagerConfig) {pending : List (Pending Ref)} (logged : σ.Logged first (log ++ pendingOps pending))
    (now : Nat) (client : String) : Publishes cfg first log σ (σ.commit cfg now client pending).1 := by
  obtain ⟨events, claims, leases, same, ops, plain⟩ := commitEach_broadcasts cfg now client σ pending
  rw [commit]
  dsimp only
  rw [same]
  refine ⟨events, rfl, plain, ?_, rfl⟩
  rw [ops]
  exact logged.of_same (memory?_congr rfl rfl rfl) rfl

/-- The memory of a loaded session that no batch holds, in its log. -/
theorem Logged.loaded (logged : σ.Logged first log) (loaded : σ.loaded = true) (idle : σ.inFlight = none) :
    Numbered first log ∧ σ.memory.session.seq = first + log.length ∧ σ.memory.ring <:+ log := by
  obtain ⟨numbered, seq, ring⟩ := logged.of_idle idle
  rw [memory?_of_loaded loaded] at seq ring
  exact ⟨numbered, seq, ring _ rfl⟩

theorem logged_of_memory (loaded : σ.loaded = true) (idle : σ.inFlight = none) (numbered : Numbered first log)
    (seq : σ.memory.session.seq = first + log.length) (ring : σ.memory.ring <:+ log) : σ.Logged first log := by
  apply logged_of_idle idle numbered
  · rw [memory?_of_loaded loaded]
    exact seq
  · rw [memory?_of_loaded loaded]
    rintro _ ⟨⟩
    exact ring

theorem applyOps_publishes (cfg : ManagerConfig) (logged : σ.Logged first log) (wf : σ.Wf) (idle : σ.inFlight = none) (now : Nat)
    (client : String) (ops : List BatchOp) : Publishes cfg first log σ (σ.applyOps cfg now client ops).1 := by
  rcases applyOps_cases cfg now client ops σ with ⟨-, same⟩ | ⟨base, got, ended⟩
  · rw [same]
    exact (Looked.refl σ).publishes cfg logged
  · obtain ⟨sameFlight, sameSubscribers, -⟩ := get?_frame got
    have looked := looked_of_get? got
    have loaded := loaded_of_get? got
    have baseIdle : base.inFlight = none := sameFlight.trans idle
    obtain ⟨numbered, seq, ring⟩ :=
      (logged.of_same looked.memory? looked.frame.1).loaded loaded baseIdle
    have start : Walk.Logged first log
        { memory := base.memory, leases := (base.leases.prune now).snapshot now } :=
      ⟨(get?_wf wf got).memory, by simpa [pendingOps] using numbered, by simpa [pendingOps] using seq,
        by simpa [pendingOps] using ring⟩
    rcases ended with ⟨failure, m, -, same⟩ | ⟨w, walked, ⟨quiet, same⟩ | ⟨-, ⟨-, same⟩ | ⟨-, same⟩⟩⟩
    · rw [same]
      exact publishes_nothing (rollback_logged loaded baseIdle numbered seq ring) sameSubscribers
        looked.frame.2.2
    · have walk := Walk.run_logged start walked
      rw [same]
      have before : Publishes cfg first log σ
          { base with memory := w.memory, leases := base.leases.prune now } := by
        have nothing : pendingOps w.pending = [] := List.filterMap_eq_nil_iff.mpr quiet
        refine publishes_nothing (logged_of_memory loaded baseIdle numbered ?_ ?_) sameSubscribers
          looked.frame.2.2
        · simpa [nothing] using walk.seq
        · simpa [nothing] using walk.ring
      refine before.trans fun {log} logged => ?_
      have nothing : pendingOps w.pending = [] := List.filterMap_eq_nil_iff.mpr quiet
      exact commit_publishes cfg (by rw [nothing, List.append_nil]; exact logged) now client
    · rw [same]
      exact publishes_nothing (rollback_logged loaded baseIdle numbered seq ring) sameSubscribers
        looked.frame.2.2
    · have walk := Walk.run_logged start walked
      rw [same]
      refine publishes_nothing ⟨walk.numbered, ?_, ?_, ?_⟩ sameSubscribers looked.frame.2.2
      · rw [memory?_of_loaded (by exact loaded)]
        exact walk.seq
      · rw [memory?_of_loaded (by exact loaded)]
        rintro _ ⟨⟩
        exact walk.ring
      · rintro _ ⟨⟩
        exact ⟨seq, ring⟩

theorem persistDone_publishes (cfg : ManagerConfig) (logged : σ.Logged first log) (wf : σ.Wf) {batch : InFlight}
    (flying : σ.inFlight = some batch) (now : Nat) (ok : Bool) :
    Publishes cfg first log σ (σ.persistDone cfg now ok batch).1 := by
  have loaded := (wf.flight batch flying).1
  obtain ⟨saved, savedRing⟩ := logged.flight batch flying
  have ops : σ.flightOps = pendingOps batch.pending := by rw [flightOps, flying]; rfl
  obtain ⟨numbered, seq, ring, -⟩ := logged
  rw [ops] at numbered seq ring
  rw [memory?_of_loaded loaded] at seq ring
  cases ok with
  | true =>
    have landed : ({ σ with inFlight := none, disk := some batch.snapshot } : Server).Logged first
        (log ++ pendingOps batch.pending) :=
      logged_of_memory loaded rfl numbered seq (ring _ rfl)
    obtain ⟨events, sent, plain, logged, next⟩ := commit_publishes cfg landed now batch.client
    exact ⟨events, sent, plain, logged, next⟩
  | false =>
    exact publishes_nothing (rollback_logged loaded rfl numbered.split.1 saved savedRing) rfl rfl

/-- `_apply_op_sync` publishes the op that it has saved, and nothing otherwise. -/
theorem applyOpSync_publishes (cfg : ManagerConfig) (logged : σ.Logged first log) (wf : σ.Wf) (loaded : σ.loaded = true)
    (idle : σ.inFlight = none) (call : Call) (persists : Bool) :
    Publishes cfg first log σ (σ.applyOpSync cfg call persists).1 := by
  obtain ⟨numbered, seq, ring⟩ := logged.loaded loaded idle
  rcases applyOpSync_cases cfg call persists σ with
    ⟨-, same⟩ | ⟨failure, m, -, same⟩ | ⟨applied, m, accepted, -, same⟩
  · rw [same]
    exact (Looked.refl σ).publishes cfg logged
  · rw [same]
    exact publishes_nothing (logged_of_memory loaded idle numbered seq ring) rfl rfl
  · obtain ⟨number, seq', ring', -⟩ := Memory.applyStateOp_applied wf.memory accepted
    rw [same]
    refine ⟨[.op call.client applied], rfl, by simp [Event.Plain], ?_, rfl⟩
    refine logged_of_memory loaded idle (numbered.snoc (by rw [number, seq])) ?_ ?_
    · rw [List.length_append, seq', seq]
      rfl
    · rw [ring']
      exact boundedAppend_suffix _ ring _

/-- What is assigned to a session besides its number does not show in its log. -/
theorem withSession_publishes (logged : σ.Logged first log) (loaded : σ.loaded = true) (idle : σ.inFlight = none)
    {f : Session Ref → Session Ref} (kept : ∀ s, (f s).seq = s.seq) :
    Publishes cfg first log σ (σ.withSession f) := by
  obtain ⟨numbered, seq, ring⟩ := logged.loaded loaded idle
  refine publishes_nothing (logged_of_memory loaded idle numbered ?_ ring) rfl rfl
  rw [withSession, kept, seq]

theorem write_publishes (cfg : ManagerConfig) (logged : σ.Logged first log) (wf : σ.Wf) (request : Request) (call : SyncWrite) :
    Publishes cfg first log σ (σ.write cfg request call).1 := by
  obtain ⟨looked, ready⟩ := prepareWrite_looked cfg request call σ
  unfold write
  split
  · rename_i prepared
    rw [prepared] at looked
    exact looked.publishes cfg logged
  · rename_i τ op prepared
    rw [prepared] at looked ready
    obtain ⟨loaded, idle⟩ := ready op rfl
    have applied := (looked.publishes cfg logged).trans fun {log} logged =>
      applyOpSync_publishes cfg logged (looked.wf wf) loaded idle
        { env := request.env, client := request.client, op := op } request.persists
    split <;> rename_i ended <;> rw [ended] at applied <;> exact applied

theorem undo_publishes (cfg : ManagerConfig) (logged : σ.Logged first log) (wf : σ.Wf) (request : Request) (persistsAgain : Bool) :
    Publishes cfg first log σ (σ.undo cfg request persistsAgain).1 := by
  obtain ⟨looked, ready⟩ := prepareUndo_looked request σ
  unfold undo
  split
  · rename_i prepared
    rw [prepared] at looked
    exact looked.publishes cfg logged
  · rename_i τ record inverse prepared
    rw [prepared] at looked ready
    obtain ⟨loaded, idle⟩ := ready _ rfl
    dsimp only
    generalize forget : (fun s : Session Ref =>
      { s with deletedAnnotationIds := forgetDeleted inverse s.deletedAnnotationIds }) = f
    have kept : ∀ s, (f s).state = s.state ∧ (f s).seq = s.seq := by
      subst forget
      exact fun s => ⟨rfl, rfl⟩
    have forgotten := (looked.publishes cfg logged).trans fun {log} logged =>
      withSession_publishes logged loaded idle fun s => (kept s).2
    have forgottenWf : (τ.withSession f).Wf := withSession_wf (looked.wf wf) f fun s => (kept s).1
    generalize replay : ({ env := request.env, client := undoReplayClientId, op := inverse
                           recordActivity := false, trustedReplay := true } : Call) = call
    have applied := forgotten.trans fun {log} logged =>
      applyOpSync_publishes cfg logged forgottenWf loaded idle call request.persists
    obtain ⟨loaded', idle'⟩ := applyOpSync_frame cfg call request.persists (τ.withSession f)
    split <;> rename_i ended <;> rw [ended] at applied loaded' idle'
    · exact applied
    · exact applied
    · rename_i υ landed
      have markedLoaded : (υ.withSession fun s => { s with
          activityLog := markUndone request.env.stamp request.client s.activityLog }).loaded = true :=
        loaded'.trans loaded
      have marked := applied.trans fun {log} logged =>
        withSession_publishes (f := fun s => { s with
          activityLog := markUndone request.env.stamp request.client s.activityLog })
          logged (loaded'.trans loaded) (idle'.trans idle) fun _ => rfl
      split
      · exact marked.trans fun {log} logged =>
          publishes_nothing (logged.of_same (memory?_of_disk markedLoaded _) rfl) rfl rfl
      · exact marked

theorem getOrCreate_publishes (cfg : ManagerConfig) (logged : σ.Logged first log) (wf : σ.Wf) {now : Nat} {limitReached : Bool}
    (opened : σ.getOrCreate now limitReached = some τ) : Publishes cfg first log σ τ ∧ τ.loaded = true := by
  unfold getOrCreate at opened
  split at opened
  · rename_i base got
    cases opened
    exact ⟨(looked_of_get? got).publishes cfg logged, loaded_of_get? got⟩
  · rename_i missing
    split at opened
    · cases opened
    · cases opened
      have idle : σ.inFlight = none := by
        cases flying : σ.inFlight with
        | none => rfl
        | some batch =>
          rw [get?_of_loaded (wf.flight batch flying).1] at missing
          cases missing
      obtain ⟨numbered, seq, -⟩ := logged.of_idle idle
      rw [memory?, missing] at seq
      exact ⟨publishes_nothing (logged_of_memory rfl idle numbered seq (List.nil_suffix)) rfl rfl, rfl⟩

theorem rename_publishes (cfg : ManagerConfig) (logged : σ.Logged first log) (wf : σ.Wf) (request : Request) (limitReached : Bool)
    (name : Option String) : Publishes cfg first log σ (σ.rename cfg request limitReached name).1 := by
  unfold rename
  split
  · exact (Looked.refl σ).publishes cfg logged
  · rename_i τ opened
    obtain ⟨created, loaded⟩ := getOrCreate_publishes cfg logged wf opened
    split
    · exact created
    · rename_i free
      have idle : τ.inFlight = none := by simpa using free
      dsimp only
      generalize named : ({ env := request.env, client := if request.client = "" then "rest" else request.client
                            op := .sessionRenamed ((name.map .str).getD .null) } : Call) = call
      have applied := created.trans fun {log} logged =>
        applyOpSync_publishes cfg logged (getOrCreate_wf wf opened) loaded idle call request.persists
      obtain ⟨loaded', idle'⟩ := applyOpSync_frame cfg call request.persists τ
      split
      · exact applied.trans fun {log} logged =>
          withSession_publishes logged (loaded'.trans loaded) (idle'.trans idle) fun _ => rfl
      · exact applied

theorem catchUp_publishes (cfg : ManagerConfig) (logged : σ.Logged first log) (now : Nat) (sinceSeq : Option Int) :
    Publishes cfg first log σ (σ.catchUp now sinceSeq).1 := by
  obtain ⟨memory, flight, subscribers, next⟩ := catchUp_frame now sinceSeq σ
  exact publishes_nothing (logged.of_same memory flight) subscribers next

/-- An event that carries no op. -/
theorem publish_publishes (logged : σ.Logged first log) {event : Event Ref} (quiet : event.applied? = none)
    (plain : event.Plain) : Publishes cfg first log σ (σ.publish cfg event) := by
  refine ⟨[event], rfl, by simpa using plain, ?_, rfl⟩
  have nothing : [event].filterMap Event.applied? = [] := by simp [quiet]
  rw [nothing, List.append_nil]
  exact logged.of_same (memory?_congr rfl rfl rfl) rfl

/-- The actions of one session in one process but for the cancellation of a batch. The late
write of a worker does not matter to a session that is loaded. -/
def undisturbed (σ : Server) : Action → Bool
  | .cancel | .delete | .restart _ => false
  | .workerDone _ _ => σ.loaded
  | _ => true

/-- The subscribers as an action leaves them before it publishes anything. -/
def settled (σ : Server) : Action → Server
  | .connect => σ.joined
  | .disconnect id _ _ => { σ with subscribers := σ.subscribers.filter (·.id ≠ id) }
  | _ => σ

theorem Logged.of_settled {action : Action} (logged : (σ.settled action).Logged first log) :
    σ.Logged first log := by
  cases action with
  | connect | disconnect => exact logged.of_same (memory?_congr rfl rfl rfl) rfl
  | _ => exact logged

/-- Every action that is not excluded publishes the ops by which the log grows. -/
theorem step_publishes (logged : σ.Logged first log) (wf : σ.Wf) {action : Action} {reply : Reply}
    (undisturbed : σ.undisturbed action = true) (other : ∀ now id, action ≠ .deliver now id)
    (stepped : σ.step cfg action = some (τ, reply)) : Publishes cfg first log (σ.settled action) τ := by
  cases action with
  | cancel | delete | restart => cases undisturbed
  | deliver now id => exact absurd rfl (other now id)
  | workerDone index landed =>
    obtain ⟨snapshot, -, same⟩ := Option.map_eq_some_iff.mp stepped
    cases same
    refine publishes_nothing (logged.of_same ?_ rfl) rfl rfl
    rw [memory?_of_loaded (by exact undisturbed), memory?_of_loaded (by exact undisturbed)]
  | applyOps now client ops =>
    simp only [Server.step] at stepped
    split at stepped
    · cases stepped
    · rename_i idle
      have published := applyOps_publishes cfg logged wf (by simpa using idle) now client ops
      rw [Option.some.inj stepped] at published
      exact published
  | persistDone now ok =>
    obtain ⟨batch, flying, same⟩ := Option.map_eq_some_iff.mp stepped
    have published := persistDone_publishes cfg logged wf flying now ok
    rw [same] at published
    exact published
  | write request call =>
    have published := write_publishes cfg logged wf request call
    rw [Option.some.inj stepped] at published
    exact published
  | undo request persistsAgain =>
    have published := undo_publishes cfg logged wf request persistsAgain
    rw [Option.some.inj stepped] at published
    exact published
  | rename request limitReached name =>
    have published := rename_publishes cfg logged wf request limitReached name
    rw [Option.some.inj stepped] at published
    exact published
  | catchUp now sinceSeq =>
    have published := catchUp_publishes cfg logged now sinceSeq
    rw [Option.some.inj stepped] at published
    exact published
  | getOrCreate now limitReached =>
    obtain ⟨opened, created, same⟩ := Option.map_eq_some_iff.mp stepped
    cases same
    exact (getOrCreate_publishes cfg logged wf created).1
  | notify kind =>
    cases stepped
    exact publish_publishes logged rfl trivial
  | connect =>
    cases stepped
    have joined : σ.joined.Logged first log := logged.of_same (memory?_congr rfl rfl rfl) rfl
    exact publish_publishes joined rfl trivial
  | disconnect id client last =>
    cases stepped
    obtain ⟨events, claims, leases, same, ops, plain, -⟩ := disconnect_broadcasts cfg id client last σ
    rw [same]
    refine ⟨events, rfl, plain, ?_, rfl⟩
    rw [ops, List.append_nil]
    exact logged.of_same (memory?_congr rfl rfl rfl) rfl

/-- The log of a session that is on the disk only starts after what is saved. -/
theorem logged_of_unloaded (unloaded : σ.loaded = false) (idle : σ.inFlight = none) :
    ∃ first log, σ.Logged first log := by
  refine ⟨(σ.memory?.map (·.session.seq)).getD 0, [], logged_of_idle idle (numbered_nil _) rfl ?_⟩
  intro m held
  simp only [memory?, get?, unloaded, Bool.false_eq_true, if_false, Option.map_map, Option.mem_def,
    Option.map_eq_some_iff] at held
  obtain ⟨saved, -, rfl⟩ := held
  exact List.nil_suffix

/-- Every action leaves a session whose ops are numbered in a row. -/
theorem step_logged (wf : σ.Wf) (logged : ∃ first log, σ.Logged first log) {action : Action} {reply : Reply}
    (stepped : σ.step cfg action = some (τ, reply)) : ∃ first log, τ.Logged first log := by
  obtain ⟨first, log, logged⟩ := logged
  have idle_of_unloaded : σ.loaded = false → σ.inFlight = none := by
    intro unloaded
    cases flying : σ.inFlight with
    | none => rfl
    | some batch =>
      rw [(wf.flight batch flying).1] at unloaded
      cases unloaded
  by_cases undisturbed : σ.undisturbed action = true
  · by_cases delivery : ∃ now stream, action = .deliver now stream
    · obtain ⟨now, stream, rfl⟩ := delivery
      obtain ⟨memory, flight⟩ := deliver_memory? now stream σ
      rw [show (σ.deliver now stream).1 = τ from congrArg Prod.fst (Option.some.inj stepped)] at memory flight
      exact ⟨first, log, logged.of_same memory flight⟩
    · obtain ⟨events, -, -, logged', -⟩ := step_publishes logged wf undisturbed
        (fun now stream same => delivery ⟨now, stream, same⟩) stepped
      exact ⟨first, _, logged'⟩
  · cases action with
    | cancel =>
      obtain ⟨batch, flying, same⟩ := Option.map_eq_some_iff.mp stepped
      cases same
      have memory : ({ σ with inFlight := none, workers := σ.workers ++ [batch.snapshot] } : Server).memory? =
          σ.memory? := memory?_congr rfl rfl rfl
      exact ⟨first, log ++ σ.flightOps, logged_of_idle rfl logged.numbered (memory ▸ logged.seq)
        (memory ▸ logged.ring)⟩
    | workerDone index landed =>
      obtain ⟨snapshot, -, same⟩ := Option.map_eq_some_iff.mp stepped
      cases same
      have unloaded : σ.loaded = false := by simpa [Server.undisturbed] using undisturbed
      exact logged_of_unloaded unloaded (idle_of_unloaded unloaded)
    | delete =>
      simp only [Server.step] at stepped
      split at stepped
      · cases stepped
      · rename_i idle
        cases stepped
        have emptied := logged_of_unloaded (σ := σ.delete cfg) ?_ ?_
        · exact emptied
        · unfold Server.delete
          dsimp only
          split <;> rfl
        · unfold Server.delete
          dsimp only
          split <;> simpa [publish] using idle
    | restart landed =>
      cases stepped
      exact logged_of_unloaded rfl rfl
    | _ => exact absurd rfl undisturbed

end Server

end MetadataGraph
