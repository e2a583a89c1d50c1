import MetadataGraph.Session.Log
import MetadataGraph.Session.Recovery

namespace MetadataGraph

open ObjectHeap Runs

/-- The ops that a reply shows to the client, in their contents of that moment. -/
def Reply.ops : Reply → List (Applied Annotation)
  | .applied entries _ => entries.filterMap Pending.applied?
  | .written op _ => op.toList
  | .catchUp _ ops _ _ => ops
  | .event shown => shown.applied?.toList
  | _ => []

/-- The sequence number that a reply states besides those of its ops. -/
def Reply.number? : Reply → Option Nat
  | .applied _ seq | .written _ seq | .snapshot seq _ _ _ | .catchUp seq _ _ _ => some seq
  | _ => none

def opsHanded (history : List (Action × Reply)) : List (Applied Annotation) := history.flatMap (·.2.ops)

/-- Every sequence number that a client was handed. -/
def numbersHanded (history : List (Action × Reply)) : List Nat :=
  history.filterMap (·.2.number?) ++ (opsHanded history).map Applied.seq

/-- Whether a snapshot or a catch-up was answered since the last batch began to wait. -/
def answeredSince (history : List (Action × Reply)) : Bool :=
  history.foldl (fun answered taken => match taken.2 with
    | .suspended => false
    | .snapshot _ _ _ _ | .catchUp _ _ _ _ => true
    | _ => answered) false

namespace Walk

variable {cfg : ManagerConfig} {client : String}

/-- The condition on one op of a batch: the call of the store that it leads to assigns to none of these
annotation objects. -/
def SparesOp (cfg : ManagerConfig) (client : String) (shared : List Ref) (w : Walk) : BatchOp → Prop
  | .state env op => leaseConflict client w.leases w.memory.view.state op = none →
      ∀ r ∈ shared, r ∉ w.memory.assigned cfg.toStoreConfig (call client env op)
  | _ => True

instance (shared : List Ref) (w : Walk) : (op : BatchOp) → Decidable (w.SparesOp cfg client shared op)
  | .state _ _ => inferInstanceAs (Decidable (_ → _))
  | .selectionClaimed _ | .selectionReleased _ | .leaseAcquired _ | .leaseReleased _ => .isTrue trivial

/-- The condition on every op that the loop reaches. -/
def Spares (cfg : ManagerConfig) (client : String) (shared : List Ref) (ops : List BatchOp) (w : Walk) : Prop :=
  w.Always cfg client (SparesOp cfg client shared) ops

instance (shared : List Ref) (ops : List BatchOp) (w : Walk) : Decidable (w.Spares cfg client shared ops) :=
  decideAlways (SparesOp cfg client shared) ops w

/-- A batch that spares some objects leaves their contents as they are. -/
theorem run_spares {start : Memory} {shared : List Ref} (below : start.heap.Valid shared) {ops : List BatchOp} {w : Walk}
    (sound : w.Sound start.heap.size) (same : ∀ r ∈ shared, w.memory.heap.read r = start.heap.read r)
    (spares : w.Spares cfg client shared ops) :
    (∀ w', run cfg client ops w = .ok w' → ∀ r ∈ shared, w'.memory.heap.read r = start.heap.read r) ∧
      ∀ failure m, run cfg client ops w = .error (failure, m) → ∀ r ∈ shared, m.heap.read r = start.heap.read r := by
  have stays : ∀ {w : Walk} {env : Env} {op : StateOp} {after : Memory}, w.Sound start.heap.size →
      (∀ r ∈ shared, w.memory.heap.read r = start.heap.read r) →
      (∀ r ∈ shared, r ∉ w.memory.assigned cfg.toStoreConfig (call client env op)) →
      (w.memory.applyStateOp cfg.toStoreConfig (call client env op)).after? = some after →
      ∀ r ∈ shared, after.heap.read r = start.heap.read r := by
    intro w env op after sound same unassigned left r member
    rw [Memory.read_of_unassigned sound.memory left ((below r member).trans_le sound.grown) (unassigned r member)]
    exact same r member
  obtain ⟨ok, error⟩ := always_induction
    (P := fun w => w.Sound start.heap.size ∧ ∀ r ∈ shared, w.memory.heap.read r = start.heap.read r)
    (Q := fun _ m => ∀ r ∈ shared, m.heap.read r = start.heap.read r)
    (fun {w op w'} before here stepped => by
      refine ⟨before.1.next stepped, ?_⟩
      rcases next_ok stepped with ⟨same, -⟩ | ⟨env, stateOp, applied, rfl, free, accepted, -, -⟩
      · rw [same]
        exact before.2
      · exact stays before.1 before.2 (here free) (congrArg Outcome.after? accepted))
    (fun {w op failure m} before here failed => by
      obtain ⟨env, stateOp, rfl, ⟨-, rfl⟩ | ⟨free, raised⟩⟩ := next_error failed
      · exact before.2
      · exact stays before.1 before.2 (here free) (congrArg Outcome.after? raised))
    ⟨sound, same⟩ spares
  exact ⟨fun w' ended => (ok w' ended).2, error⟩

end Walk

namespace Server

variable {cfg : ManagerConfig} {first : Nat} {log : List (Applied Ref)} {history : List (Action × Reply)} {σ τ : Server}

/-- The ops that wait in the queues of the streams. -/
def queuedOps (σ : Server) : List (Applied Ref) :=
  σ.subscribers.flatMap fun sub => sub.queue.filterMap Event.applied?

/-- The ops that may still be handed out: the ring has them, now or after a rollback, the batch in flight
has them, or they wait in a queue. -/
def live (σ : Server) : List (Applied Ref) :=
  σ.memory.ring ++ (σ.inFlight.map InFlight.savedRing).getD [] ++ σ.flightOps ++ σ.queuedOps

/-- The actions of batches and readers of one session, where no persist fails in whose wait a snapshot or
a catch-up was answered, and no batch assigns to an annotation object of an op that may still be handed
out. -/
def Steady (cfg : ManagerConfig) (history : List (Action × Reply)) (σ : Server) : Action → Prop
  | .applyOps now client ops => ∀ base ∈ σ.get?, Walk.Spares cfg client (ringRefs σ.live) ops
      { memory := base.memory, leases := (base.leases.prune now).snapshot now }
  | .persistDone _ ok => ok = true ∨ answeredSince history = false
  | .catchUp _ _ | .connect | .disconnect _ _ _ | .deliver _ _ | .getOrCreate _ _ => True
  | _ => False

instance (history : List (Action × Reply)) (σ : Server) : (action : Action) → Decidable (σ.Steady cfg history action)
  | .applyOps now client ops => inferInstanceAs (Decidable (∀ base ∈ σ.get?, Walk.Spares cfg client (ringRefs σ.live) ops
      { memory := base.memory, leases := (base.leases.prune now).snapshot now }))
  | .persistDone _ ok => inferInstanceAs (Decidable (ok = true ∨ answeredSince history = false))
  | .catchUp _ _ | .connect | .disconnect _ _ _ | .deliver _ _ | .getOrCreate _ _ => .isTrue trivial
  | .cancel | .workerDone _ _ | .write _ _ | .undo _ _ | .rename _ _ _ | .notify _ | .delete | .restart _ => .isFalse id

/-- Nothing that was handed out is taken back: the session has got to every number that a client was
handed, an op whose number the ring holds is the ring's, and a number always denotes the same op. -/
structure Truthful (history : List (Action × Reply)) (σ : Server) : Prop where
  lasts : ∀ n ∈ numbersHanded history, n ≤ (σ.session?.map (·.seq)).getD 0
  held : ∀ op ∈ opsHanded history, ∀ m ∈ σ.memory?, ∀ entry ∈ m.ring, entry.seq = op.seq → op = entry.map m.heap.read
  same : ∀ op ∈ opsHanded history, ∀ other ∈ opsHanded history, op.seq = other.seq → op = other

end Server

theorem opsHanded_snoc (action : Action) (reply : Reply) (history : List (Action × Reply)) :
    opsHanded (history ++ [(action, reply)]) = opsHanded history ++ reply.ops := by
  simp [opsHanded]

theorem mem_numbersHanded_snoc {action : Action} {reply : Reply} {history : List (Action × Reply)} {n : Nat} :
    n ∈ numbersHanded (history ++ [(action, reply)]) ↔
      n ∈ numbersHanded history ∨ n ∈ reply.number? ∨ ∃ op ∈ reply.ops, op.seq = n := by
  simp only [numbersHanded, opsHanded_snoc, List.filterMap_append, List.map_append, List.mem_append, List.mem_map]
  have last : n ∈ [(action, reply)].filterMap (·.2.number?) ↔ n ∈ reply.number? := by
    cases stated : reply.number? <;> simp [stated, eq_comm]
  rw [last]
  exact or_or_or_comm

/-- An op of a numbered log is its only one of that number. -/
theorem Numbered.unique {first : Nat} {log : List (Applied Ref)} (numbered : Numbered first log) {a b : Applied Ref}
    (here : a ∈ log) (there : b ∈ log) (same : a.seq = b.seq) : a = b := by
  have distinct : (log.map Applied.seq).Nodup := by
    rw [numbered]
    exact List.nodup_range'
  exact List.inj_on_of_nodup_map distinct here there same

theorem Numbered.bounds {first : Nat} {log : List (Applied Ref)} (numbered : Numbered first log) {a : Applied Ref}
    (here : a ∈ log) : first < a.seq ∧ a.seq ≤ first + log.length := by
  have listed : a.seq ∈ List.range' (first + 1) log.length := by
    rw [← numbered]
    exact List.mem_map_of_mem here
  rw [List.mem_range'_1] at listed
  omega

theorem answeredSince_snoc (action : Action) (reply : Reply) (history : List (Action × Reply)) :
    answeredSince (history ++ [(action, reply)]) = match reply with
      | .suspended => false
      | .snapshot _ _ _ _ | .catchUp _ _ _ _ => true
      | _ => answeredSince history := by
  rw [answeredSince, List.foldl_append]
  rfl

namespace Server

variable {cfg : ManagerConfig} {first : Nat} {log : List (Applied Ref)} {history : List (Action × Reply)} {σ τ : Server}

theorem mem_live {entry : Applied Ref} : entry ∈ σ.live ↔ entry ∈ σ.memory.ring ∨
    (∃ batch ∈ σ.inFlight, entry ∈ batch.savedRing) ∨ entry ∈ σ.flightOps ∨
      ∃ sub ∈ σ.subscribers, ∃ event ∈ sub.queue, entry ∈ event.applied? := by
  simp only [live, queuedOps, List.mem_append, List.mem_flatMap, List.mem_filterMap, Option.mem_def]
  cases σ.inFlight <;> simp [or_assoc]

theorem Wf.live_below (wf : σ.Wf) {entry : Applied Ref} (member : entry ∈ σ.live) : entry.Below σ.memory.heap.size := by
  rcases mem_live.mp member with inRing | ⟨batch, flying, saved⟩ | pending | ⟨sub, joined, event, queued, carried⟩
  · exact wf.memory.ringValid entry inRing
  · exact (wf.flight batch flying).2.1 entry saved
  · cases flying : σ.inFlight with
    | none =>
      rw [flightOps, flying] at pending
      cases pending
    | some batch =>
      rw [flightOps, flying] at pending
      obtain ⟨p, listed, named⟩ := List.mem_filterMap.mp pending
      exact (wf.flight batch flying).2.2 p listed entry named
  · exact wf.queued sub joined event queued entry carried

/-- What has been handed out in a history, as it stands in the log of the session. -/
structure Served (first : Nat) (log : List (Applied Ref)) (history : List (Action × Reply)) (σ : Server) : Prop where
  wf : σ.Wf
  logged : σ.Logged first log
  queued : ∀ sub ∈ σ.subscribers, ∀ event ∈ sub.queue, ∀ entry ∈ event.applied?, entry ∈ log
  numbers : ∀ n ∈ numbersHanded history, n ≤ first + log.length ∨
    answeredSince history = true ∧ n ≤ first + (log ++ σ.flightOps).length
  told : ∀ op ∈ opsHanded history, ∃ entry ∈ log ++ σ.flightOps, op.seq = entry.seq ∧
    (entry ∈ σ.live → op = entry.map σ.memory.heap.read)
  same : ∀ op ∈ opsHanded history, ∀ other ∈ opsHanded history, op.seq = other.seq → op = other

/-- From one server to the next, while the log grows: the ops that were there are handed out no more, or
they could be before and read the same. -/
structure Grows (first : Nat) (log : List (Applied Ref)) (σ : Server) (new : List (Applied Ref)) (τ : Server) : Prop where
  wf : τ.Wf
  logged : τ.Logged first (log ++ new)
  queued : ∀ sub ∈ τ.subscribers, ∀ event ∈ sub.queue, ∀ entry ∈ event.applied?, entry ∈ log ++ new
  after : ∃ rest, log ++ new ++ τ.flightOps = log ++ σ.flightOps ++ rest
  kept : ∀ entry ∈ log ++ σ.flightOps, entry ∈ τ.live → entry ∈ σ.live
  reads : ∀ entry ∈ σ.live, entry.map τ.memory.heap.read = entry.map σ.memory.heap.read

theorem Served.next {new : List (Applied Ref)} (served : σ.Served first log history) (grows : Grows first log σ new τ)
    (action : Action) (reply : Reply) (waits : reply = .suspended → σ.inFlight = none)
    (ops : ∀ op ∈ reply.ops, ∃ entry ∈ log ++ new ++ τ.flightOps, op = entry.map τ.memory.heap.read ∧
      (entry ∈ σ.live ∨ entry ∈ τ.live))
    (number : ∀ n ∈ reply.number?, n ≤ first + (log ++ new ++ τ.flightOps).length)
    (answered : answeredSince (history ++ [(action, reply)]) = true ∨ ((∀ n ∈ reply.number?, n ≤ first + (log ++ new).length) ∧
      ∀ op ∈ reply.ops, op.seq ≤ first + (log ++ new).length)) :
    τ.Served first (log ++ new) (history ++ [(action, reply)]) := by
  obtain ⟨rest, after⟩ := grows.after
  have length : (log ++ σ.flightOps).length ≤ (log ++ new ++ τ.flightOps).length := by
    have longer : (log ++ σ.flightOps ++ rest).length = (log ++ σ.flightOps).length + rest.length := List.length_append
    rw [after, longer]
    exact Nat.le_add_right _ _
  have longer : log.length ≤ (log ++ new).length := by
    rw [List.length_append]
    exact Nat.le_add_right _ _
  have numbered := grows.logged.numbered
  have unique : ∀ {old entry : Applied Ref}, old ∈ log ++ σ.flightOps → entry ∈ log ++ new ++ τ.flightOps →
      old.seq = entry.seq → old = entry := fun here there => numbered.unique (after ▸ List.mem_append_left rest here) there
  -- an op handed out before and one handed out now
  have again : ∀ op ∈ opsHanded history, ∀ other ∈ reply.ops, op.seq = other.seq → op = other := by
    intro op before other shown alike
    obtain ⟨old, listed, number, read⟩ := served.told op before
    obtain ⟨entry, listed', rfl, lives⟩ := ops other shown
    obtain rfl := unique listed listed' (number.symm.trans alike)
    have lived : old ∈ σ.live := lives.elim id (grows.kept old listed)
    rw [read lived, grows.reads old lived]
  refine ⟨grows.wf, grows.logged, grows.queued, ?_, ?_, ?_⟩
  · intro n handed
    rcases mem_numbersHanded_snoc.mp handed with before | now
    · rcases served.numbers n before with past | ⟨told, ahead⟩
      · exact .inl (past.trans (Nat.add_le_add_left longer first))
      · by_cases waiting : reply = .suspended
        · have nothing : σ.flightOps = [] := by rw [flightOps, waits waiting]; rfl
          rw [nothing, List.append_nil] at ahead
          exact .inl (ahead.trans (Nat.add_le_add_left longer first))
        · refine .inr ⟨?_, ahead.trans (Nat.add_le_add_left length first)⟩
          rw [answeredSince_snoc]
          cases reply with
          | suspended => exact absurd rfl waiting
          | snapshot | catchUp => rfl
          | _ => exact told
    · rcases answered with told | ⟨stated, shown⟩
      · refine .inr ⟨told, ?_⟩
        rcases now with now | ⟨op, carried, rfl⟩
        · exact number n now
        · obtain ⟨entry, listed, rfl, -⟩ := ops op carried
          exact (numbered.bounds listed).2
      · rcases now with now | ⟨op, carried, rfl⟩
        · exact .inl (stated n now)
        · exact .inl (shown op carried)
  · intro op handed
    rw [opsHanded_snoc] at handed
    rcases List.mem_append.mp handed with before | now
    · obtain ⟨entry, listed, number, read⟩ := served.told op before
      refine ⟨entry, after ▸ List.mem_append_left rest listed, number, fun lives => ?_⟩
      have lived := grows.kept entry listed lives
      rw [grows.reads entry lived]
      exact read lived
    · obtain ⟨entry, listed, rfl, -⟩ := ops op now
      exact ⟨entry, listed, rfl, fun _ => rfl⟩
  · intro op handed other handed' alike
    rw [opsHanded_snoc] at handed handed'
    rcases List.mem_append.mp handed with before | now <;> rcases List.mem_append.mp handed' with before' | now'
    · exact served.same op before other before' alike
    · exact again op before other now' alike
    · exact (again other before' op now alike.symm).symm
    · obtain ⟨entry, listed, rfl, -⟩ := ops op now
      obtain ⟨entry', listed', rfl, -⟩ := ops other now'
      rw [numbered.unique listed listed' alike]

theorem Applied.map_read {entry : Applied Ref} {before after : Heap Annotation} (below : entry.Below before.size)
    (same : ∀ r : Nat, r < before.size → after.read r = before.read r) : entry.map after.read = entry.map before.read := by
  rw [Applied.map, Applied.map]
  congr 1
  exact AppliedOp.map_congr fun r named => same r (below r named)

theorem Grows.refl (served : σ.Served first log history) : Grows first log σ [] σ where
  wf := served.wf
  logged := by rw [List.append_nil]; exact served.logged
  queued := by rw [List.append_nil]; exact served.queued
  after := ⟨[], by rw [List.append_nil, List.append_nil]⟩
  kept _ _ lives := lives
  reads _ _ := rfl

/-- What else happens to a server after its log has grown: its claims and leases, and streams that hold no
more ops than before. -/
theorem Grows.streams {new : List (Applied Ref)} (grows : Grows first log σ new τ) {υ : Server} (memory : υ.memory = τ.memory)
    (loaded : υ.loaded = τ.loaded) (disk : υ.disk = τ.disk) (flight : υ.inFlight = τ.inFlight)
    (queues : ∀ sub ∈ υ.subscribers, ∀ event ∈ sub.queue, ∀ entry ∈ event.applied?,
      ∃ old ∈ τ.subscribers, ∃ before ∈ old.queue, entry ∈ before.applied?) : Grows first log σ new υ := by
  have sameOps : υ.flightOps = τ.flightOps := by rw [flightOps, flight, flightOps]
  refine ⟨grows.wf.of_same memory loaded flight ?_, grows.logged.of_same (memory?_congr loaded memory disk) flight, ?_, ?_, ?_, ?_⟩
  · intro sub joined event queued entry carried
    obtain ⟨old, was, before, waited, same⟩ := queues sub joined event queued entry carried
    exact grows.wf.queued old was before waited entry same
  · intro sub joined event queued entry carried
    obtain ⟨old, was, before, waited, same⟩ := queues sub joined event queued entry carried
    exact grows.queued old was before waited entry same
  · rw [sameOps]
    exact grows.after
  · intro entry listed lives
    apply grows.kept entry listed
    rw [mem_live, memory, flight, sameOps] at lives
    rw [mem_live]
    refine lives.imp_right (.imp_right (.imp_right ?_))
    rintro ⟨sub, joined, event, queued, carried⟩
    exact queues sub joined event queued entry carried
  · rw [memory]
    exact grows.reads

/-- A session that is looked up, and loaded if it was not. -/
theorem Served.get? (served : σ.Served first log history) {base : Server} (got : σ.get? = some base) :
    Grows first log σ [] base := by
  rcases get?_cases got with ⟨-, rfl⟩ | ⟨unloaded, saved, -, rfl⟩
  · exact .refl served
  · have logged := served.logged.of_same (looked_of_get? got).memory? (looked_of_get? got).frame.1
    have reads : ∀ r : Nat, r < σ.memory.heap.size → (σ.load saved).memory.heap.read r = σ.memory.heap.read r :=
      fun r below => Heap.read_allocAll_of_lt below _
    refine ⟨get?_wf served.wf got, by rw [List.append_nil]; exact logged, by rw [List.append_nil]; exact served.queued,
      ⟨[], by rw [List.append_nil, List.append_nil]; rfl⟩, fun entry _ lives => ?_, fun entry lives => ?_⟩
    · rcases mem_live.mp lives with inRing | others
      · cases inRing
      · exact mem_live.mpr (.inr others)
    · exact Applied.map_read (served.wf.live_below lives) reads

theorem Served.catchUp (served : σ.Served first log history) (now : Nat) (sinceSeq : Option Int) :
    Grows first log σ [] (σ.catchUp now sinceSeq).1 := by
  unfold Server.catchUp
  cases got : σ.get? with
  | none => exact .refl served
  | some base =>
    have grows : Grows first log σ [] { base with claims := base.claims.prune now, leases := base.leases.prune now } :=
      (served.get? got).streams rfl rfl rfl rfl fun sub joined event queued entry carried =>
        ⟨sub, joined, event, queued, carried⟩
    dsimp only
    split <;> exact grows

theorem mem_opsSince {m : Memory} {sinceSeq : Int} {ops : List (Applied Ref)} (since : m.opsSince sinceSeq = some ops)
    {entry : Applied Ref} (listed : entry ∈ ops) : entry ∈ m.ring := by
  unfold Memory.opsSince at since
  split at since
  · cases since
    cases listed
  · split at since
    · cases since
    · split at since
      · cases since
      · rename_i oldest rest held _
        cases since
        exact held ▸ (List.mem_filter.mp listed).1

/-- What a catch-up answers is in the ring, and its number is the last of the log. -/
theorem catchUp_reply (history : List (Action × Reply)) (logged : σ.Logged first log) (now : Nat) (sinceSeq : Option Int) :
    let answer := σ.catchUp now sinceSeq
    answer.2 ≠ .suspended ∧
    (∀ op ∈ answer.2.ops, ∃ entry ∈ answer.1.memory.ring, op = entry.map answer.1.memory.heap.read ∧ entry ∈ log ++ σ.flightOps) ∧
    (∀ n ∈ answer.2.number?, n ≤ first + (log ++ σ.flightOps).length) ∧
    ∀ action, answeredSince (history ++ [(action, answer.2)]) = true ∨ answer.2.number? = none ∧ answer.2.ops = [] := by
  unfold Server.catchUp
  cases got : σ.get? with
  | none => exact ⟨by simp, by simp [Reply.ops], by simp [Reply.number?], fun _ => .inr ⟨rfl, rfl⟩⟩
  | some base =>
    have memory : σ.memory? = some base.memory := by rw [memory?, got]; rfl
    have seq : base.memory.session.seq = first + (log ++ σ.flightOps).length := by
      have seq := logged.seq
      rw [memory] at seq
      exact seq
    have ring := logged.ring base.memory memory
    dsimp only
    split
    · rename_i ops since
      obtain ⟨sinceSeq, -, since⟩ := Option.bind_eq_some_iff.mp since
      refine ⟨by simp, fun op shown => ?_, fun n stated => ?_, fun action => .inl (answeredSince_snoc _ _ _)⟩
      · obtain ⟨entry, listed, rfl⟩ := List.mem_map.mp shown
        have inRing := mem_opsSince since listed
        exact ⟨entry, inRing, rfl, ring.subset inRing⟩
      · cases stated
        exact seq.le
    · refine ⟨by simp, by simp [Reply.ops], fun n stated => ?_, fun action => .inl (answeredSince_snoc _ _ _)⟩
      cases stated
      exact seq.le

theorem Served.answered (served : σ.Served first log history) (now : Nat) (sinceSeq : Option Int) (action : Action)
    (grows : Grows first log σ [] τ) (same : τ.memory = (σ.catchUp now sinceSeq).1.memory) (flight : τ.inFlight = σ.inFlight) :
    τ.Served first log (history ++ [(action, (σ.catchUp now sinceSeq).2)]) := by
  obtain ⟨answered, ops, number, flag⟩ := catchUp_reply history served.logged now sinceSeq
  have sameOps : log ++ [] ++ τ.flightOps = log ++ σ.flightOps := by
    rw [List.append_nil, flightOps, flight, flightOps]
  have next := served.next grows action _ (fun waiting => absurd waiting answered) ?_ ?_ ?_
  · rw [List.append_nil] at next
    exact next
  · intro op shown
    obtain ⟨entry, inRing, rfl, listed⟩ := ops op shown
    exact ⟨entry, sameOps ▸ listed, by rw [same], .inr (mem_live.mpr (.inl (same ▸ inRing)))⟩
  · rw [sameOps]
    exact number
  · rcases flag action with told | ⟨noNumber, noOps⟩
    · exact .inl told
    · rw [noNumber, noOps]
      exact .inr ⟨fun n stated => (by cases stated), fun op shown => by cases shown⟩

/-- A step after which nothing was shown. -/
theorem Served.silent (served : σ.Served first log history) {new : List (Applied Ref)} (grows : Grows first log σ new τ)
    (action : Action) (reply : Reply) (number : reply.number? = none) (ops : reply.ops = [])
    (waits : reply = .suspended → σ.inFlight = none) : τ.Served first (log ++ new) (history ++ [(action, reply)]) := by
  refine served.next grows action reply waits ?_ ?_ ?_
  · rw [ops]
    exact fun op shown => by cases shown
  · rw [number]
    exact fun n stated => by cases stated
  · rw [number, ops]
    exact .inr ⟨fun n stated => (by cases stated), fun op shown => by cases shown⟩

theorem Grows.popped (served : σ.Served first log history) {id : Nat} {sub : Subscriber Ref} {event : Event Ref}
    {queue : List (Event Ref)} (found : σ.subscribers.find? (·.id = id) = some sub) (queued : sub.queue = event :: queue) :
    Grows first log σ [] (σ.popped id queue) := by
  refine (Grows.refl served).streams rfl rfl rfl rfl ?_
  intro s joined shown waiting entry carried
  obtain ⟨old, was, rfl⟩ := List.mem_map.mp joined
  split at waiting
  · exact ⟨sub, List.mem_of_find?_eq_some found, shown, queued ▸ List.mem_cons_of_mem _ waiting, carried⟩
  · exact ⟨old, was, shown, waiting, carried⟩

theorem Served.popped (served : σ.Served first log history) {id : Nat} {sub : Subscriber Ref} {event : Event Ref}
    {queue : List (Event Ref)} (found : σ.subscribers.find? (·.id = id) = some sub) (queued : sub.queue = event :: queue) :
    (σ.popped id queue).Served first log history := by
  have grows := Grows.popped served found queued
  have logged := grows.logged
  have waiting := grows.queued
  rw [List.append_nil] at logged waiting
  exact ⟨grows.wf, logged, waiting, served.numbers, fun op handed => by
    obtain ⟨entry, listed, number, read⟩ := served.told op handed
    exact ⟨entry, listed, number, fun lives => read (grows.kept entry listed lives)⟩, served.same⟩

theorem Served.deliver (served : σ.Served first log history) (now id : Nat) (action : Action) :
    (σ.deliver now id).1.Served first log (history ++ [(action, (σ.deliver now id).2)]) := by
  rcases deliver_cases now id σ with same | ⟨sub, event, queue, found, queued, ⟨other, same⟩ | ⟨-, resolved⟩⟩
  · rw [same]
    have next := served.silent (.refl served) action .done rfl rfl (fun waiting => by cases waiting)
    rw [List.append_nil] at next
    exact next
  · rw [same]
    have joined := List.mem_of_find?_eq_some found
    have waiting : event ∈ sub.queue := queued ▸ List.mem_cons_self
    have carried : ∀ op ∈ (Reply.event (event.map σ.memory.heap.read)).ops, ∃ entry ∈ event.applied?,
        op = entry.map σ.memory.heap.read := by
      intro op shown
      cases event with
      | op client entry =>
        rw [List.mem_singleton.mp shown]
        exact ⟨entry, rfl, rfl⟩
      | elements | notice | sessionDeleted | resync => cases shown
    have next := served.next (Grows.popped served found queued) action (.event (event.map σ.memory.heap.read))
      (fun waiting => by cases waiting) ?_ (fun n stated => by cases stated) (.inr ⟨fun n stated => (by cases stated), ?_⟩)
    · rw [List.append_nil] at next
      exact next
    · intro op shown
      obtain ⟨entry, named, rfl⟩ := carried op shown
      refine ⟨entry, ?_, rfl, .inl (mem_live.mpr (.inr (.inr (.inr ⟨sub, joined, event, waiting, named⟩))))⟩
      rw [List.append_nil]
      exact List.mem_append_left _ (served.queued sub joined event waiting entry named)
    · intro op shown
      obtain ⟨entry, named, rfl⟩ := carried op shown
      rw [List.append_nil]
      exact (served.logged.numbered.split.1.bounds (served.queued sub joined event waiting entry named)).2
  · have popped := served.popped found queued
    have caught := popped.catchUp now none
    rcases resolved with same | ⟨-, same⟩
    · rw [same]
      have dropped : Grows first log (σ.popped id queue) [] { ((σ.popped id queue).catchUp now none).1 with
          subscribers := ((σ.popped id queue).catchUp now none).1.subscribers.filter (·.id ≠ id) } :=
        caught.streams rfl rfl rfl rfl fun s member shown waiting entry named =>
          ⟨s, (List.mem_filter.mp member).1, shown, waiting, named⟩
      have next := popped.silent dropped action (.event .sessionDeleted) rfl rfl (fun waiting => by cases waiting)
      rw [List.append_nil] at next
      exact next
    · rw [same]
      exact popped.answered now none action caught rfl (catchUp_frame now none _).2.1

/-- A persist that fails unseen takes back nothing that was handed out. -/
theorem Served.persistFailed (cfg : ManagerConfig) (served : σ.Served first log history)
    (unseen : answeredSince history = false) {batch : InFlight} (flying : σ.inFlight = some batch) (now : Nat) (action : Action) :
    (σ.persistDone cfg now false batch).1.Served first log (history ++ [(action, (σ.persistDone cfg now false batch).2)]) := by
  have loaded := (served.wf.flight batch flying).1
  obtain ⟨saved, savedRing⟩ := served.logged.flight batch flying
  have numbered := served.logged.numbered
  set τ := (σ.persistDone cfg now false batch).1 with named
  have logged : τ.Logged first log := rollback_logged loaded rfl numbered.split.1 saved savedRing
  have nothing : τ.flightOps = [] := rfl
  have reads : ∀ r : Nat, r < σ.memory.heap.size → τ.memory.heap.read r = σ.memory.heap.read r :=
    fun r below => Memory.read_restore _ _ _ _ below
  have numbers : ∀ n ∈ numbersHanded history, n ≤ first + log.length := by
    intro n handed
    rcases served.numbers n handed with past | ⟨seen, -⟩
    · exact past
    · rw [unseen] at seen
      cases seen
  have kept : ∀ entry, entry ∈ τ.live → entry ∈ σ.live := by
    intro entry lives
    rw [mem_live]
    rcases mem_live.mp lives with inRing | ⟨other, flown, -⟩ | pending | queued
    · exact .inr (.inl ⟨batch, flying, inRing⟩)
    · cases flown
    · rw [nothing] at pending
      cases pending
    · exact .inr (.inr (.inr queued))
  have shown : opsHanded (history ++ [(action, (σ.persistDone cfg now false batch).2)]) = opsHanded history := by
    rw [opsHanded_snoc]
    exact List.append_nil _
  refine ⟨persistDone_wf cfg served.wf flying now false, logged, served.queued, fun n handed => ?_, fun op handed => ?_, ?_⟩
  · left
    rcases mem_numbersHanded_snoc.mp handed with before | stated | ⟨op, carried, -⟩
    · exact numbers n before
    · cases stated
    · cases carried
  · rw [shown] at handed
    obtain ⟨entry, listed, number, read⟩ := served.told op handed
    refine ⟨entry, ?_, number, fun lives => ?_⟩
    · rw [nothing, List.append_nil]
      have early := numbers op.seq (List.mem_append_right _ (List.mem_map_of_mem handed))
      rcases List.mem_append.mp listed with past | pending
      · exact past
      · have late : entry.seq ∈ List.range' (first + log.length + 1) σ.flightOps.length := by
          rw [← numbered.split.2]
          exact List.mem_map_of_mem pending
        rw [List.mem_range'_1] at late
        omega
    · have lived := kept entry lives
      rw [read lived, Applied.map_read (served.wf.live_below lived) reads]
  · rw [shown]
    exact served.same

theorem commitEach_reported (cfg : ManagerConfig) (now : Nat) (client : String) (pending : List (Pending Ref)) (σ : Server) :
    pendingOps (σ.commitEach cfg now client pending).2 = pendingOps pending := by
  induction pending generalizing σ with
  | nil => rfl
  | cons entry pending ih =>
    have rest := ih (σ.commitEntry cfg now client entry).1
    rw [pendingOps] at rest
    rw [commitEach]
    dsimp only
    rw [pendingOps, List.filterMap_cons, rest]
    cases entry <;> rfl

theorem Reply.ops_applied (entries : List (Pending Ref)) (read : Ref → Annotation) (seq : Nat) :
    (Reply.applied (entries.map (Pending.map read)) seq).ops = (pendingOps entries).map (Applied.map read) := by
  rw [Reply.ops, pendingOps, List.filterMap_map, List.map_filterMap]
  congr 1
  funext entry
  cases entry <;> rfl

/-- What a commit leaves and answers. -/
theorem commit_reply (cfg : ManagerConfig) (now : Nat) (client : String) (pending : List (Pending Ref)) (σ : Server) :
    let done := σ.commit cfg now client pending
    done.1.memory = σ.memory ∧ done.1.inFlight = σ.inFlight ∧ done.2.number? = some σ.memory.session.seq ∧
      done.2.ops = (pendingOps pending).map (Applied.map σ.memory.heap.read) ∧ done.2 ≠ .suspended := by
  obtain ⟨events, claims, leases, same, -⟩ := commitEach_broadcasts cfg now client σ pending
  have reported := commitEach_reported cfg now client pending σ
  rw [Server.commit]
  dsimp only
  rw [same]
  refine ⟨rfl, rfl, rfl, ?_, by simp⟩
  rw [Reply.ops_applied, reported]

/-- The commit of ops that could be handed out before. -/
theorem Grows.commit {new : List (Applied Ref)} (grows : Grows first log σ new τ) (now : Nat) (client : String)
    {pending : List (Pending Ref)} (below : ∀ entry ∈ pendingOps pending, entry.Below τ.memory.heap.size)
    (lived : ∀ entry ∈ pendingOps pending, entry ∈ σ.live ∧ entry ∈ log ++ new) :
    Grows first log σ new (τ.commit cfg now client pending).1 := by
  obtain ⟨events, claims, leases, same, ops, plain⟩ := commitEach_broadcasts cfg now client τ pending
  have queues : ∀ sub ∈ broadcast cfg.queueMax events τ.subscribers, ∀ event ∈ sub.queue, ∀ entry ∈ event.applied?,
      entry ∈ pendingOps pending ∨ ∃ old ∈ τ.subscribers, event ∈ old.queue := by
    intro sub joined event queued entry carried
    rcases mem_broadcast joined queued with sent | rfl | old
    · left
      rw [pendingOps, ← ops]
      exact List.mem_filterMap.mpr ⟨event, sent, carried⟩
    · cases carried
    · exact .inr old
  rw [Server.commit]
  dsimp only
  rw [same]
  refine ⟨?_, grows.logged.of_same (memory?_congr rfl rfl rfl) rfl, ?_, grows.after, ?_, grows.reads⟩
  · refine grows.wf.broadcast rfl rfl rfl rfl ?_
    rw [ops]
    exact below
  · intro sub joined event queued entry carried
    rcases queues sub joined event queued entry carried with committed | ⟨old, was, waited⟩
    · exact (lived entry committed).2
    · exact grows.queued old was event waited entry carried
  · intro entry listed lives
    rcases mem_live.mp lives with inRing | saved | pending | ⟨sub, joined, event, queued, carried⟩
    · exact grows.kept entry listed (mem_live.mpr (.inl inRing))
    · exact grows.kept entry listed (mem_live.mpr (.inr (.inl saved)))
    · exact grows.kept entry listed (mem_live.mpr (.inr (.inr (.inl pending))))
    · rcases queues sub joined event queued entry carried with committed | ⟨old, was, waited⟩
      · exact (lived entry committed).1
      · exact grows.kept entry listed (mem_live.mpr (.inr (.inr (.inr ⟨old, was, event, waited, carried⟩))))

theorem Served.persistLanded (cfg : ManagerConfig) (served : σ.Served first log history) {batch : InFlight}
    (flying : σ.inFlight = some batch) (now : Nat) (action : Action) : (σ.persistDone cfg now true batch).1.Served first (log ++ σ.flightOps)
      (history ++ [(action, (σ.persistDone cfg now true batch).2)]) := by
  have loaded := (served.wf.flight batch flying).1
  have pending : σ.flightOps = pendingOps batch.pending := by rw [flightOps, flying]; rfl
  have lived : ∀ entry ∈ pendingOps batch.pending, entry ∈ σ.live := fun entry listed =>
    mem_live.mpr (.inr (.inr (.inl (pending ▸ listed))))
  set τ : Server := { σ with inFlight := none, disk := some batch.snapshot } with named
  have nothing : log ++ σ.flightOps ++ τ.flightOps = log ++ σ.flightOps := List.append_nil _
  have numbered := served.logged.numbered
  have seq := served.logged.seq
  have ring := served.logged.ring
  rw [memory?_of_loaded loaded] at seq ring
  have landed : Grows first log σ σ.flightOps τ := by
    refine ⟨served.wf.of_memory served.wf.memory (le_refl _) rfl rfl, logged_of_memory loaded rfl numbered seq (ring _ rfl),
      fun sub joined event queued entry carried => List.mem_append_left _ (served.queued sub joined event queued entry carried),
      ⟨[], by rw [nothing, List.append_nil]⟩, fun entry _ lives => ?_, fun _ _ => rfl⟩
    rcases mem_live.mp lives with inRing | ⟨other, flown, -⟩ | waiting | queued
    · exact mem_live.mpr (.inl inRing)
    · cases flown
    · cases waiting
    · exact mem_live.mpr (.inr (.inr (.inr queued)))
  have committed : Grows first log σ σ.flightOps (τ.commit cfg now batch.client batch.pending).1 :=
    landed.commit now batch.client (fun entry listed => served.wf.live_below (lived entry listed))
      fun entry listed => ⟨lived entry listed, List.mem_append_right _ (pending ▸ listed)⟩
  obtain ⟨memory, idle, number, ops, answered⟩ := commit_reply cfg now batch.client batch.pending τ
  have whole : log ++ σ.flightOps ++ (τ.commit cfg now batch.client batch.pending).1.flightOps = log ++ σ.flightOps := by
    have none : (τ.commit cfg now batch.client batch.pending).1.flightOps = [] := by rw [flightOps, idle]; rfl
    rw [none, List.append_nil]
  have last : ∀ n ∈ (τ.commit cfg now batch.client batch.pending).2.number?, n ≤ first + (log ++ σ.flightOps).length := by
    intro n stated
    rw [number] at stated
    cases stated
    exact seq.le
  refine served.next committed action (τ.commit cfg now batch.client batch.pending).2 (fun waiting => absurd waiting answered)
    ?_ (by rw [whole]; exact last) (.inr ⟨last, ?_⟩)
  · rw [ops]
    intro op here
    obtain ⟨entry, listed, rfl⟩ := List.mem_map.mp here
    refine ⟨entry, ?_, by rw [memory], .inl (lived entry listed)⟩
    rw [whole]
    exact List.mem_append_right _ (pending ▸ listed)
  · rw [ops]
    intro op here
    obtain ⟨entry, listed, rfl⟩ := List.mem_map.mp here
    exact (numbered.bounds (List.mem_append_right _ (pending ▸ listed))).2

/-- A memory that a batch leads to, committed or rolled back: its ring holds what was in the ring before and
the ops of the batch, and the objects of the ops that were there read the same. -/
theorem Grows.walked {base : Server} (grows : Grows first log σ [] base) (idle : σ.inFlight = none)
    {m : Memory} {leases : Holders} {flight : Option InFlight}
    (wf : ({ base with memory := m, leases := leases, inFlight := flight } : Server).Wf)
    (logged : ({ base with memory := m, leases := leases, inFlight := flight } : Server).Logged first log)
    (ring : ∀ entry ∈ log, entry ∈ m.ring → entry ∈ base.memory.ring)
    (saved : ∀ batch ∈ flight, batch.savedRing = base.memory.ring ∧ ∀ entry ∈ pendingOps batch.pending, entry ∉ log)
    (reads : ∀ entry ∈ σ.live, entry.map m.heap.read = entry.map σ.memory.heap.read) :
    Grows first log σ [] { base with memory := m, leases := leases, inFlight := flight } := by
  have nothing : σ.flightOps = [] := by rw [flightOps, idle]; rfl
  refine ⟨wf, by rw [List.append_nil]; exact logged, grows.queued, ⟨_, by rw [nothing]⟩, ?_, reads⟩
  intro entry listed lives
  rw [nothing, List.append_nil] at listed
  have before : entry ∈ log ++ σ.flightOps := List.mem_append_left _ listed
  rcases mem_live.mp lives with inRing | ⟨batch, flown, inSaved⟩ | pending | queued
  · exact grows.kept entry before (mem_live.mpr (.inl (ring entry listed inRing)))
  · rw [(saved batch flown).1] at inSaved
    exact grows.kept entry before (mem_live.mpr (.inl inSaved))
  · cases flight with
    | none => cases pending
    | some batch => exact absurd listed ((saved batch rfl).2 entry pending)
  · exact grows.kept entry before (mem_live.mpr (.inr (.inr (.inr queued))))

/-- A batch adds its own ops to the log, and to the ring only those. -/
theorem walked_ring {m : Memory} (wf : m.Wf) (numbered : Numbered first log) (seq : m.session.seq = first + log.length)
    (ring : m.ring <:+ log) {client : String} {leases : Dict String} {ops : List BatchOp} {w : Walk}
    (walked : Walk.run cfg client ops { memory := m, leases := leases } = .ok w) :
    Walk.Logged first log w ∧ (∀ entry ∈ pendingOps w.pending, entry ∉ log) ∧
      ∀ entry ∈ log, entry ∈ w.memory.ring → entry ∈ m.ring := by
  have start : Walk.Logged first log { memory := m, leases := leases } :=
    ⟨wf, by simpa [pendingOps] using numbered, by simpa [pendingOps] using seq, by simpa [pendingOps] using ring⟩
  have whole := Walk.run_logged start walked
  have fresh : ∀ entry ∈ pendingOps w.pending, entry ∉ log := by
    intro entry new old
    have late : entry.seq ∈ List.range' (first + log.length + 1) (pendingOps w.pending).length := by
      rw [← whole.numbered.split.2]
      exact List.mem_map_of_mem new
    have early := numbered.bounds old
    rw [List.mem_range'_1] at late
    omega
  obtain ⟨older, rfl⟩ := ring
  have newest : Numbered (first + older.length) m.ring := numbered.split.2
  have last : m.session.seq = first + older.length + m.ring.length := by
    rw [seq, List.length_append]
    omega
  have part : Walk.Logged (first + older.length) m.ring { memory := m, leases := leases } :=
    ⟨wf, by simpa [pendingOps] using newest, by simpa [pendingOps] using last, by simp [pendingOps]⟩
  replace part := Walk.run_logged part walked
  refine ⟨whole, fresh, fun entry old inRing => ?_⟩
  rcases List.mem_append.mp (part.ring.subset inRing) with here | new
  · exact here
  · exact absurd old (fresh entry new)

theorem size_of_get? {base : Server} (got : σ.get? = some base) : σ.memory.heap.size ≤ base.memory.heap.size := by
  rcases get?_cases got with ⟨-, rfl⟩ | ⟨-, saved, -, rfl⟩
  · exact le_refl _
  · rw [load, Heap.size_allocAll]
    exact Nat.le_add_right _ _

theorem Served.applyOps (served : σ.Served first log history) (idle : σ.inFlight = none) (now : Nat) (client : String)
    (ops : List BatchOp) (steady : σ.Steady cfg history (.applyOps now client ops)) (action : Action) :
    (σ.applyOps cfg now client ops).1.Served first log (history ++ [(action, (σ.applyOps cfg now client ops).2)]) := by
  have wf' := applyOps_wf cfg served.wf idle now client ops
  rcases applyOps_cases cfg now client ops σ with ⟨-, same⟩ | ⟨base, got, ended⟩
  · rw [same]
    have next := served.silent (.refl served) action (.raised .sessionNotFound) rfl rfl (fun waiting => by cases waiting)
    rw [List.append_nil] at next
    exact next
  have grows := served.get? got
  have loaded := loaded_of_get? got
  have flying : base.inFlight = none := (get?_frame got).1.trans idle
  have logged := grows.logged
  rw [List.append_nil] at logged
  obtain ⟨numbered, seq, ring⟩ := logged.loaded loaded flying
  -- the objects that may be handed out, through the loop
  have size := size_of_get? got
  have allocated : ∀ entry ∈ σ.live, entry.Below base.memory.heap.size := fun entry lives =>
    (served.wf.live_below lives).mono size
  have below : base.memory.heap.Valid (ringRefs σ.live) := by
    intro r member
    obtain ⟨entry, lives, names⟩ := List.mem_filterMap.mp member
    exact allocated entry lives r names
  have baseWf := (get?_wf served.wf got).memory
  have sound : Walk.Sound base.memory.heap.size
      { memory := base.memory, leases := (base.leases.prune now).snapshot now } := ⟨baseWf, le_refl _, by simp⟩
  obtain ⟨okReads, errorReads⟩ := Walk.run_spares below sound (fun _ _ => rfl) (steady base got)
  obtain ⟨okSound, errorGrown⟩ := Walk.run_sound cfg client baseWf ((base.leases.prune now).snapshot now) ops
  have reads : ∀ {m : Memory}, (∀ r ∈ ringRefs σ.live, m.heap.read r = base.memory.heap.read r) → ∀ entry ∈ σ.live,
      entry.map m.heap.read = entry.map σ.memory.heap.read := by
    intro m same entry lives
    rw [← grows.reads entry lives, Applied.map, Applied.map]
    congr 1
    exact AppliedOp.map_congr fun r names => same r (List.mem_filterMap.mpr ⟨entry, lives, names⟩)
  have rolled : ∀ {m : Memory}, (∀ r ∈ ringRefs σ.live, m.heap.read r = base.memory.heap.read r) →
      base.memory.heap.size ≤ m.heap.size →
      Grows first log σ [] (({ base with leases := base.leases.prune now } : Server).rollback base.memory.view
        base.memory.ring m) := by
    intro m same grown
    have logged : (({ base with leases := base.leases.prune now } : Server).rollback base.memory.view base.memory.ring m).Logged
        first log := rollback_logged loaded flying numbered seq ring
    have pruned : ({ base with leases := base.leases.prune now } : Server).Wf := grows.wf.of_same rfl rfl rfl grows.wf.queued
    have wf : (({ base with leases := base.leases.prune now } : Server).rollback base.memory.view base.memory.ring m).Wf :=
      rollback_wf pruned grown flying fun entry inRing => (baseWf.ringValid entry inRing).mono grown
    refine grows.walked idle wf logged (fun entry _ inRing => inRing) (fun batch flown => ?_) fun entry lives => ?_
    · rw [flying] at flown
      cases flown
    · rw [Applied.map_read ((allocated entry lives).mono grown) fun r valid => Memory.read_restore _ _ _ _ valid]
      exact reads same entry lives
  have walk : ∀ {w : Walk}, Walk.run cfg client ops { memory := base.memory, leases := (base.leases.prune now).snapshot now } = .ok w →
      Walk.Logged first log w ∧ (∀ entry ∈ pendingOps w.pending, entry ∉ log) ∧
        ∀ entry ∈ log, entry ∈ w.memory.ring → entry ∈ base.memory.ring := fun walked =>
    walked_ring baseWf numbered seq ring walked
  rcases ended with ⟨failure, m, failed, same⟩ | ⟨w, walked, ⟨quiet, same⟩ | ⟨-, ⟨-, same⟩ | ⟨-, same⟩⟩⟩
  · rw [same]
    have next := served.silent (rolled (errorReads _ m failed) (errorGrown _ m failed)) action (.raised failure) rfl rfl
      (fun waiting => by cases waiting)
    rw [List.append_nil] at next
    exact next
  · obtain ⟨walk, fresh, inRing⟩ := walk walked
    have nothing : pendingOps w.pending = [] := List.filterMap_eq_nil_iff.mpr quiet
    have landed : ({ base with leases := base.leases.prune now, memory := w.memory } : Server).Logged first log :=
      logged_of_memory loaded flying numbered (by simpa [nothing] using walk.seq) (by simpa [nothing] using walk.ring)
    have wf : ({ base with leases := base.leases.prune now, memory := w.memory } : Server).Wf :=
      grows.wf.of_memory (okSound w walked).memory (okSound w walked).grown flying rfl
    have walked : Grows first log σ [] { base with leases := base.leases.prune now, memory := w.memory } :=
      grows.walked idle wf landed inRing (fun batch flown => by rw [flying] at flown; cases flown)
        (reads (okReads w walked))
    have committed : Grows first log σ []
        (({ base with leases := base.leases.prune now, memory := w.memory } : Server).commit cfg now client w.pending).1 :=
      walked.commit now client (fun entry listed => by rw [nothing] at listed; cases listed)
        fun entry listed => by rw [nothing] at listed; cases listed
    obtain ⟨memory, idle', number, ops, answered⟩ := commit_reply cfg now client w.pending
      { base with leases := base.leases.prune now, memory := w.memory }
    rw [nothing] at ops
    have last : w.memory.session.seq = first + log.length := by simpa [nothing] using walk.seq
    rw [same]
    have next := served.next committed action _ (fun waiting => absurd waiting answered) ?_ ?_ (.inr ⟨?_, ?_⟩)
    · rw [List.append_nil] at next
      exact next
    · rw [ops]
      exact fun op shown => by cases shown
    · rw [number]
      rintro _ ⟨⟩
      rw [List.append_nil, List.length_append, last]
      omega
    · rw [number]
      rintro _ ⟨⟩
      rw [List.append_nil, last]
    · rw [ops]
      exact fun op shown => by cases shown
  · rw [same]
    have next := served.silent (rolled (okReads w walked) (okSound w walked).grown) action (.raised .imageBudgetExceeded) rfl rfl
      (fun waiting => by cases waiting)
    rw [List.append_nil] at next
    exact next
  · obtain ⟨walk, fresh, inRing⟩ := walk walked
    have waiting : ({ base with
        leases := base.leases.prune now
        memory := w.memory
        inFlight := some { client := client, saved := base.memory.view, savedRing := base.memory.ring
                           pending := w.pending, snapshot := w.memory.view.document } } : Server).Logged first log := by
      refine ⟨walk.numbered, ?_, ?_, ?_⟩
      · rw [memory?_of_loaded (by exact loaded)]
        exact walk.seq
      · rw [memory?_of_loaded (by exact loaded)]
        rintro _ ⟨⟩
        exact walk.ring
      · rintro _ ⟨⟩
        exact ⟨seq, ring⟩
    rw [same] at wf' ⊢
    have next := served.silent (grows.walked idle wf' waiting inRing
      (fun batch flown => by cases flown; exact ⟨rfl, fresh⟩) (reads (okReads w walked))) action .suspended rfl rfl fun _ => idle
    rw [List.append_nil] at next
    exact next

theorem Served.connect (served : σ.Served first log history) : Grows first log σ [] (σ.connect cfg) := by
  refine (Grows.refl served).streams rfl rfl rfl rfl fun sub joined event queued entry carried => ?_
  rcases mem_publish joined queued with rfl | rfl | ⟨old, was, waited⟩
  · cases carried
  · cases carried
  · rcases List.mem_append.mp was with before | new
    · exact ⟨old, before, event, waited, carried⟩
    · rw [List.mem_singleton.mp new] at waited
      cases waited

theorem Served.disconnect (served : σ.Served first log history) (id : Nat) (client : String) (last : Bool) :
    Grows first log σ [] (σ.disconnect cfg id client last) := by
  obtain ⟨events, claims, leases, same, ops, -⟩ := disconnect_broadcasts cfg id client last σ
  rw [same]
  refine (Grows.refl served).streams rfl rfl rfl rfl fun sub joined event queued entry carried => ?_
  rcases mem_broadcast joined queued with sent | rfl | ⟨old, was, waited⟩
  · have listed : entry ∈ events.filterMap Event.applied? := List.mem_filterMap.mpr ⟨event, sent, carried⟩
    rw [ops] at listed
    cases listed
  · cases carried
  · exact ⟨old, (List.mem_filter.mp was).1, event, waited, carried⟩

theorem Served.getOrCreate (served : σ.Served first log history) {now : Nat} {limitReached : Bool}
    (opened : σ.getOrCreate now limitReached = some τ) : Grows first log σ [] τ := by
  have wf := getOrCreate_wf served.wf opened
  unfold Server.getOrCreate at opened
  split at opened
  · rename_i base got
    cases opened
    exact served.get? got
  · rename_i missing
    split at opened
    · cases opened
    · cases opened
      have idle : σ.inFlight = none := by
        cases flying : σ.inFlight with
        | none => rfl
        | some batch =>
          rw [get?_of_loaded (served.wf.flight batch flying).1] at missing
          cases missing
      obtain ⟨numbered, seq, -⟩ := served.logged.of_idle idle
      rw [memory?, missing] at seq
      have logged : ({ σ with
          loaded := true
          memory := { heap := σ.memory.heap, session := { updatedAt := now }, ring := [] }
          disk := some { updatedAt := now } } : Server).Logged first log :=
        logged_of_memory rfl idle numbered seq List.nil_suffix
      refine ⟨wf, by rw [List.append_nil]; exact logged, by rw [List.append_nil]; exact served.queued,
        ⟨[], by rw [List.append_nil, List.append_nil]; rfl⟩, fun entry _ lives => ?_, fun _ _ => rfl⟩
      rcases mem_live.mp lives with inRing | others
      · cases inRing
      · exact mem_live.mpr (.inr others)

theorem Served.step (served : σ.Served first log history) {action : Action} {reply : Reply}
    (steady : σ.Steady cfg history action) (stepped : σ.step cfg action = some (τ, reply)) :
    ∃ log, τ.Served first log (history ++ [(action, reply)]) := by
  have silent : ∀ {τ : Server} {reply : Reply}, Grows first log σ [] τ → reply = .done →
      ∃ log, τ.Served first log (history ++ [(action, reply)]) := by
    rintro τ _ grows rfl
    exact ⟨_, served.silent grows action .done rfl rfl fun waiting => by cases waiting⟩
  cases action with
  | applyOps now client ops =>
    simp only [Server.step] at stepped
    split at stepped
    · cases stepped
    · rename_i idle
      have next := served.applyOps (by simpa using idle) now client ops steady (.applyOps now client ops)
      rw [Option.some.inj stepped] at next
      exact ⟨log, next⟩
  | persistDone now ok =>
    obtain ⟨batch, flying, same⟩ := Option.map_eq_some_iff.mp stepped
    cases ok with
    | true =>
      have next := served.persistLanded cfg flying now (.persistDone now true)
      rw [same] at next
      exact ⟨_, next⟩
    | false =>
      have next := served.persistFailed cfg (steady.resolve_left (by simp)) flying now (.persistDone now false)
      rw [same] at next
      exact ⟨log, next⟩
  | catchUp now sinceSeq =>
    have next := served.answered now sinceSeq (.catchUp now sinceSeq) (served.catchUp now sinceSeq) rfl
      (catchUp_frame now sinceSeq σ).2.1
    rw [Option.some.inj stepped] at next
    exact ⟨log, next⟩
  | connect =>
    cases stepped
    exact silent served.connect rfl
  | disconnect id client last =>
    cases stepped
    exact silent (served.disconnect id client last) rfl
  | deliver now id =>
    have next := served.deliver now id (.deliver now id)
    rw [Option.some.inj stepped] at next
    exact ⟨log, next⟩
  | getOrCreate now limitReached =>
    obtain ⟨opened, created, same⟩ := Option.map_eq_some_iff.mp stepped
    cases same
    exact silent (served.getOrCreate created) rfl
  | cancel | workerDone | write | undo | rename | notify | delete | restart => cases steady

theorem run_served {disk : Option (Session Annotation)}
    (run : Run (step cfg) (fun history σ action => σ.Steady cfg history action) { disk := disk } history σ) :
    ∃ first log, σ.Served first log history := by
  refine run.invariant (fun history σ => ∃ first log, σ.Served first log history) ?_ ?_
  · obtain ⟨first, log, logged⟩ : ∃ first log, ({ disk := disk } : Server).Logged first log := logged_of_unloaded rfl rfl
    exact ⟨first, log, fresh_wf disk, logged, nofun, nofun, nofun, nofun⟩
  · rintro history σ action τ reply ⟨first, log, served⟩ steady stepped
    exact ⟨first, served.step steady stepped⟩

/-- In every steady run of batches and readers nothing that a client was handed is taken back, and a number
always denotes the same op. -/
theorem handed_out_lasts {disk : Option (Session Annotation)}
    (run : Run (step cfg) (fun history σ action => σ.Steady cfg history action) { disk := disk } history σ) :
    σ.Truthful history := by
  obtain ⟨first, log, served⟩ := run_served run
  refine ⟨fun n handed => ?_, fun op handed m held entry inRing number => ?_, served.same⟩
  · have seq := served.logged.seq
    rw [session?_eq, Option.map_map]
    refine le_trans ?_ seq.ge
    rcases served.numbers n handed with past | ⟨-, ahead⟩
    · rw [List.length_append]
      omega
    · exact ahead
  · obtain ⟨old, listed, same, read⟩ := served.told op handed
    have inLog := (served.logged.ring m held).subset inRing
    obtain rfl := served.logged.numbered.unique listed inLog (same.symm.trans number.symm)
    obtain ⟨base, got, rfl⟩ := Option.map_eq_some_iff.mp held
    rcases get?_cases got with ⟨-, rfl⟩ | ⟨-, saved, -, rfl⟩
    · exact read (mem_live.mpr (.inl inRing))
    · cases inRing

/-- A reader joins while a batch awaits its persist, and another comes when it has landed. -/
def sharedRun : List Action :=
  [.getOrCreate 0 false, .connect, .applyOps 0 "ada" [.state sampleEnv (.annotationCreated (some (sampleNote "a" "first")))],
    .catchUp 0 (some 0), .persistDone 0 true, .applyOps 0 "ada" [.state sampleEnv (.nodesAdded (.ofStrings ["n"]))],
    .persistDone 0 false, .catchUp 0 (some 0), .deliver 0 0, .deliver 0 0]

theorem handed_out_lasts_sample : ∃ history σ,
    Run (step {}) (fun history σ action => σ.Steady {} history action) {} history σ ∧
      (opsHanded history).map Applied.seq = [1, 1, 1, 1] ∧ σ.Truthful history := by
  have taken : ((follow (step {}) (fun history σ action => σ.Steady {} history action) [] {} sharedRun).map fun ended =>
      (opsHanded ended.1).map Applied.seq) = some [1, 1, 1, 1] := by decide +kernel
  obtain ⟨⟨history, σ⟩, followed, numbers⟩ := Option.map_eq_some_iff.mp taken
  have run : Run (step {}) (fun history σ action => σ.Steady {} history action) {} history σ :=
    (Run.follow .start followed).mono of_decide_eq_true
  exact ⟨history, σ, run, numbers, handed_out_lasts run⟩

/-- A reader is answered while a batch awaits a persist that fails, and once more after the next batch. -/
def dirtyRun : List Action :=
  [.getOrCreate 0 false, .applyOps 0 "ada" [.state sampleEnv (.annotationCreated (some (sampleNote "a" "first")))],
    .catchUp 0 (some 0), .persistDone 0 false, .applyOps 0 "ada" [.state sampleEnv (.nodesAdded (.ofStrings ["n"]))],
    .persistDone 0 true, .catchUp 0 (some 0)]

/-- A reader is answered before and after a batch that edits the note of an op that the ring holds. -/
def editedRun : List Action :=
  [.getOrCreate 0 false, .applyOps 0 "ada" [.state sampleEnv (.annotationCreated (some (sampleNote "a" "first")))],
    .persistDone 0 true, .catchUp 0 (some 0),
    .applyOps 0 "ada" [.state sampleEnv (.annotationUpdated (some (sampleNote "a" "second")) .null)],
    .persistDone 0 true, .catchUp 0 (some 0)]

/-- Whether two different ops were handed out under one number. -/
def contradicts (history : List (Action × Reply)) : Bool :=
  (opsHanded history).any fun op => (opsHanded history).any fun other => op.seq = other.seq && decide (op ≠ other)

theorem not_truthful_of_contradicts (contradicts : contradicts history = true) : ¬ σ.Truthful history := by
  intro truthful
  obtain ⟨op, handed, rest⟩ := List.any_eq_true.mp contradicts
  obtain ⟨other, handed', differ⟩ := List.any_eq_true.mp rest
  simp only [Bool.and_eq_true, decide_eq_true_eq] at differ
  exact differ.2 (truthful.same op handed other handed' differ.1)

theorem not_truthful_of_trace {labels : List Action}
    (taken : (trace (step {}) (fun _ _ => true) [] {} labels).map (fun ended => contradicts ended.1) = some true) :
    ∃ history σ, Run (step {}) (fun _ _ _ => True) {} history σ ∧ ¬ σ.Truthful history := by
  obtain ⟨⟨history, σ⟩, traced, found⟩ := Option.map_eq_some_iff.mp taken
  exact ⟨history, σ, Run.of_trace traced, not_truthful_of_contradicts found⟩

/-- Either way two different ops are handed out under the number one. -/
theorem number_handed_out_twice :
    (∃ history σ, Run (step {}) (fun _ _ _ => True) {} history σ ∧ ¬ σ.Truthful history) ∧
      ((trace (step {}) (fun _ _ => true) [] {} dirtyRun).map fun ended => contradicts ended.1) = some true ∧
      ((trace (step {}) (fun _ _ => true) [] {} editedRun).map fun ended => contradicts ended.1) = some true := by
  have dirty : ((trace (step {}) (fun _ _ => true) [] {} dirtyRun).map fun ended => contradicts ended.1) = some true := by
    decide +kernel
  have edited : ((trace (step {}) (fun _ _ => true) [] {} editedRun).map fun ended => contradicts ended.1) = some true := by
    decide +kernel
  exact ⟨not_truthful_of_trace dirty, dirty, edited⟩

end Server

end MetadataGraph
