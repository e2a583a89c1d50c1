import MetadataGraph.Session.Server

namespace MetadataGraph

open ObjectHeap Runs

namespace Memory

/-- What a reader sees after a rollback: the saved session under the name the caller
restores, with the deleted-annotation memory as the failed call left it. -/
theorem view_restore (m : Memory) (saved : Session Annotation) (savedRing : List (Applied Ref))
    (name : Option String) :
    (m.restore saved savedRing name).view =
      { saved with name := name, deletedAnnotationIds := m.session.deletedAnnotationIds } := by
  simp only [restore, view, Session.map, State.map, Heap.map_read_allocAll]

theorem read_restore (m : Memory) (saved : Session Annotation) (savedRing : List (Applied Ref))
    (name : Option String) {r : Nat} (valid : r < m.heap.size) :
    (m.restore saved savedRing name).heap.read r = m.heap.read r :=
  Heap.read_allocAll_of_lt valid _

theorem size_restore (m : Memory) (saved : Session Annotation) (savedRing : List (Applied Ref))
    (name : Option String) : m.heap.size ≤ (m.restore saved savedRing name).heap.size := by
  rw [restore, Heap.size_allocAll]
  omega

theorem restore_wf {m : Memory} (saved : Session Annotation) {savedRing : List (Applied Ref)}
    (name : Option String)
    (valid : ∀ entry ∈ savedRing, entry.Below m.heap.size) :
    (m.restore saved savedRing name).Wf := by
  refine ⟨Heap.allocAll_nodup _ _, fun r member => ?_, fun entry inRing => ?_⟩
  · rw [restore, Heap.size_allocAll]
    exact (Heap.allocAll_fresh member).2
  · exact (valid entry inRing).mono (m.size_restore saved savedRing name)

end Memory

namespace Walk

variable {cfg : ManagerConfig} {client : String} {w : Walk} {op : BatchOp}

/-- The call of the store that a state op of a batch makes. -/
def call (client : String) (env : Env) (op : StateOp) : Call := { env := env, client := client, op := op }

/-- An iteration either leaves the memory alone and adds no state op, or applies one. -/
theorem next_ok {w' : Walk} (stepped : w.next cfg client op = .ok w') :
    (w'.memory = w.memory ∧ ∃ extra : List (Pending Ref), w'.pending = w.pending ++ extra ∧
        ∀ entry ∈ extra, entry.applied? = none) ∨
      ∃ env stateOp applied, op = .state env stateOp ∧
        leaseConflict client w.leases w.memory.view.state stateOp = none ∧
        w.memory.applyStateOp cfg.toStoreConfig (call client env stateOp) = .applied applied w'.memory ∧
        w'.leases = w.leases ∧ w'.pending = w.pending ++ [.state applied] := by
  cases op with
  | state env stateOp =>
    simp only [next] at stepped
    split at stepped
    · cases stepped
    · rename_i free
      split at stepped
      · cases stepped
      · cases stepped
        exact Or.inl ⟨rfl, [], (List.append_nil _).symm, by simp⟩
      · rename_i applied after accepted
        cases stepped
        exact Or.inr ⟨env, stateOp, applied, rfl, free, accepted, rfl, rfl⟩
  | _ =>
    cases stepped
    exact Or.inl ⟨rfl, _, rfl, by simp [Pending.applied?]⟩

/-- An iteration raises for a lease before it touches anything, or inside the store. -/
theorem next_error {failure : Failure} {m : Memory} (failed : w.next cfg client op = .error (failure, m)) :
    ∃ env stateOp, op = .state env stateOp ∧
      ((leaseConflict client w.leases w.memory.view.state stateOp = some failure ∧ m = w.memory) ∨
        leaseConflict client w.leases w.memory.view.state stateOp = none ∧
        w.memory.applyStateOp cfg.toStoreConfig (call client env stateOp) = .raised failure m) := by
  cases op with
  | state env stateOp =>
    simp only [next] at failed
    refine ⟨env, stateOp, rfl, ?_⟩
    split at failed
    · rename_i held
      cases failed
      exact Or.inl ⟨held, rfl⟩
    · rename_i free
      split at failed
      · rename_i raised
        cases failed
        exact Or.inr ⟨free, raised⟩
      · cases failed
      · cases failed
  | _ => cases failed

/-- What holds of every op of a batch at the walk that the loop has come to by then. -/
def Always (cfg : ManagerConfig) (client : String) (P : Walk → BatchOp → Prop) : List BatchOp → Walk → Prop
  | [], _ => True
  | op :: ops, w => P w op ∧ match w.next cfg client op with
    | .ok w' => Always cfg client P ops w'
    | .error _ => True

def decideAlways (P : Walk → BatchOp → Prop) [∀ w op, Decidable (P w op)] :
    (ops : List BatchOp) → (w : Walk) → Decidable (w.Always cfg client P ops)
  | [], _ => .isTrue trivial
  | op :: ops, w => match next : w.next cfg client op with
    | .ok w' =>
      have := decideAlways P ops w'
      decidable_of_iff (P w op ∧ w'.Always cfg client P ops) (by rw [Always, next])
    | .error _ => decidable_of_iff (P w op) (by rw [Always, next, and_true])

instance (P : Walk → BatchOp → Prop) [∀ w op, Decidable (P w op)] (ops : List BatchOp) (w : Walk) :
    Decidable (w.Always cfg client P ops) :=
  decideAlways P ops w

/-- What every iteration that meets a condition preserves, and what it owes when it raises,
a loop whose iterations all meet the condition does. -/
theorem always_induction {C : Walk → BatchOp → Prop} {P : Walk → Prop} {Q : Failure → Memory → Prop}
    (ok : ∀ {w op w'}, P w → C w op → w.next cfg client op = .ok w' → P w')
    (error : ∀ {w op failure m}, P w → C w op → w.next cfg client op = .error (failure, m) → Q failure m)
    {ops : List BatchOp} (base : P w) (always : w.Always cfg client C ops) :
    (∀ w', run cfg client ops w = .ok w' → P w') ∧
      ∀ failure m, run cfg client ops w = .error (failure, m) → Q failure m := by
  induction ops generalizing w with
  | nil =>
    constructor
    · rintro _ ⟨⟩
      exact base
    · intro _ _ failed
      cases failed
  | cons op ops ih =>
    obtain ⟨here, later⟩ := always
    rw [run]
    cases stepped : w.next cfg client op with
    | error failed =>
      constructor
      · intro _ ended
        cases ended
      · rintro failure m ⟨⟩
        exact error base here stepped
    | ok w' =>
      rw [stepped] at later
      exact ih (ok base here stepped) later

theorem always_true (ops : List BatchOp) (w : Walk) : w.Always cfg client (fun _ _ => True) ops := by
  induction ops generalizing w with
  | nil => trivial
  | cons op ops ih =>
    refine ⟨trivial, ?_⟩
    split
    · exact ih _
    · trivial

/-- What every iteration preserves, and what it owes when it raises, the whole loop does. -/
theorem run_induction {P : Walk → Prop} {Q : Failure → Memory → Prop}
    (ok : ∀ {w op w'}, P w → w.next cfg client op = .ok w' → P w')
    (error : ∀ {w op failure m}, P w → w.next cfg client op = .error (failure, m) → Q failure m)
    {ops : List BatchOp} (base : P w) :
    (∀ w', run cfg client ops w = .ok w' → P w') ∧
      ∀ failure m, run cfg client ops w = .error (failure, m) → Q failure m :=
  always_induction (C := fun _ _ => True) (fun holds _ => ok holds) (fun holds _ => error holds) base
    (always_true ops w)

/-- A walk that starts well-formed stays so, only allocates, and its entries are allocated. -/
structure Sound (size : Nat) (w : Walk) : Prop where
  memory : w.memory.Wf
  grown : size ≤ w.memory.heap.size
  pending : ∀ entry ∈ w.pending, ∀ applied ∈ entry.applied?, applied.Below w.memory.heap.size

theorem Sound.next {size : Nat} (sound : w.Sound size) {w' : Walk}
    (stepped : w.next cfg client op = .ok w') : w'.Sound size := by
  rcases next_ok stepped with ⟨same, extra, pending, quiet⟩ | ⟨env, stateOp, applied, -, -, accepted, -, pending⟩
  · refine ⟨same ▸ sound.memory, same ▸ sound.grown, ?_⟩
    intro entry member a named
    rw [pending, List.mem_append] at member
    rcases member with old | new
    · exact same ▸ sound.pending entry old a named
    · rw [quiet entry new] at named
      cases named
  · have extends_ := Memory.applyStateOp_extends sound.memory (congrArg Outcome.after? accepted)
    refine ⟨extends_.wf, sound.grown.trans extends_.size, ?_⟩
    intro entry member a named
    rw [pending, List.mem_append, List.mem_singleton] at member
    rcases member with old | rfl
    · exact (sound.pending entry old a named).mono extends_.size
    · cases named
      exact (Memory.applyStateOp_applied sound.memory accepted).2.2.2

theorem run_sound (cfg : ManagerConfig) (client : String) {m : Memory} (wf : m.Wf) (leases : Dict String) (ops : List BatchOp) :
    (∀ w', run cfg client ops { memory := m, leases := leases } = .ok w' → w'.Sound m.heap.size) ∧
      ∀ failure after, run cfg client ops { memory := m, leases := leases } = .error (failure, after) →
        m.heap.size ≤ after.heap.size := by
  refine run_induction (fun {w op w'} (sound : w.Sound m.heap.size) stepped => sound.next stepped) ?_ ?_
  · intro w op failure after sound failed
    obtain ⟨env, stateOp, -, ⟨-, rfl⟩ | ⟨-, raised⟩⟩ := next_error failed
    · exact sound.grown
    · exact sound.grown.trans
        (Memory.applyStateOp_extends sound.memory (congrArg Outcome.after? raised)).size
  · exact ⟨wf, le_refl _, by simp⟩

end Walk

/-- A run of publications to every subscriber. -/
def broadcast {α : Type} (queueMax : Nat) (events : List (Event α)) (subs : List (Subscriber α)) :
    List (Subscriber α) :=
  events.foldl (fun subs event => publish queueMax event subs) subs

theorem broadcast_append {α : Type} (queueMax : Nat) (first second : List (Event α))
    (subs : List (Subscriber α)) :
    broadcast queueMax (first ++ second) subs = broadcast queueMax second (broadcast queueMax first subs) :=
  List.foldl_append

/-- The events that the bus itself never makes up. -/
def Event.Plain {α : Type} : Event α → Prop
  | .resync | .sessionDeleted => False
  | _ => True

theorem mem_publish {α : Type} {queueMax : Nat} {event e : Event α} {subs : List (Subscriber α)}
    {sub : Subscriber α} (member : sub ∈ MetadataGraph.publish queueMax event subs) (queued : e ∈ sub.queue) :
    e = event ∨ e = .resync ∨ ∃ old ∈ subs, e ∈ old.queue := by
  obtain ⟨old, was, rfl⟩ := List.mem_map.mp member
  unfold Subscriber.put at queued
  split at queued
  · rcases List.mem_append.mp queued with before | new
    · exact Or.inr (Or.inr ⟨old, was, before⟩)
    · exact Or.inl (List.mem_singleton.mp new)
  · exact Or.inr (Or.inl (List.mem_singleton.mp queued))

theorem mem_broadcast {α : Type} {queueMax : Nat} {events : List (Event α)} {e : Event α}
    {subs : List (Subscriber α)} {sub : Subscriber α} (member : sub ∈ broadcast queueMax events subs)
    (queued : e ∈ sub.queue) : e ∈ events ∨ e = .resync ∨ ∃ old ∈ subs, e ∈ old.queue := by
  induction events generalizing subs with
  | nil => exact Or.inr (Or.inr ⟨sub, member, queued⟩)
  | cons event events ih =>
    rcases ih member with new | marker | ⟨middle, was, before⟩
    · exact Or.inl (List.mem_cons_of_mem _ new)
    · exact Or.inr (Or.inl marker)
    · rcases mem_publish was before with rfl | marker | old
      · exact Or.inl List.mem_cons_self
      · exact Or.inr (Or.inl marker)
      · exact Or.inr (Or.inr old)

namespace Server

variable {cfg : ManagerConfig}

/-- The commit of one entry publishes at most one event and touches nothing else but the
claims and the leases. -/
theorem commitEntry_broadcasts (cfg : ManagerConfig) (now : Nat) (client : String) (σ : Server) (entry : Pending Ref) :
    ∃ events claims leases, (σ.commitEntry cfg now client entry).1 =
        { σ with claims := claims, leases := leases
                 subscribers := broadcast cfg.queueMax events σ.subscribers } ∧
      events.filterMap Event.applied? = entry.applied?.toList ∧ ∀ e ∈ events, e.Plain := by
  cases entry with
  | state applied => exact ⟨[.op client applied], _, _, rfl, rfl, by simp [Event.Plain]⟩
  | selectionClaimed ids => exact ⟨[.elements client _ ids], _, _, rfl, rfl, by simp [Event.Plain]⟩
  | selectionReleased ids => exact ⟨[.elements client _ _], _, _, rfl, rfl, by simp [Event.Plain]⟩
  | leaseAcquired granted denied =>
    unfold commitEntry
    by_cases none : granted = []
    · simp only [none, if_true]
      exact ⟨[], _, _, rfl, rfl, by simp⟩
    · simp only [none, if_false]
      exact ⟨[.elements client _ _], _, _, rfl, rfl, by simp [Event.Plain]⟩
  | leaseReleased released =>
    unfold commitEntry
    by_cases none : released = []
    · simp only [none, if_true]
      exact ⟨[], _, _, rfl, rfl, by simp⟩
    · simp only [none, if_false]
      exact ⟨[.elements client _ _], _, _, rfl, rfl, by simp [Event.Plain]⟩

/-- A commit publishes the state ops of the batch, in order, among its events. -/
theorem commitEach_broadcasts (cfg : ManagerConfig) (now : Nat) (client : String) (σ : Server)
    (pending : List (Pending Ref)) :
    ∃ events claims leases, (σ.commitEach cfg now client pending).1 =
        { σ with claims := claims, leases := leases
                 subscribers := broadcast cfg.queueMax events σ.subscribers } ∧
      events.filterMap Event.applied? = pending.filterMap Pending.applied? ∧ ∀ e ∈ events, e.Plain := by
  induction pending generalizing σ with
  | nil => exact ⟨[], _, _, rfl, rfl, by simp⟩
  | cons entry pending ih =>
    obtain ⟨first, claims, leases, same, ops, plain⟩ := commitEntry_broadcasts cfg now client σ entry
    obtain ⟨rest, claims', leases', same', ops', plain'⟩ := ih (σ.commitEntry cfg now client entry).1
    refine ⟨first ++ rest, claims', leases', ?_, ?_, ?_⟩
    · rw [commitEach]
      dsimp only
      rw [same', same, broadcast_append]
    · rw [List.filterMap_append, ops, ops', List.filterMap_cons]
      cases entry.applied? <;> rfl
    · intro e member
      rcases List.mem_append.mp member with member | member
      · exact plain e member
      · exact plain' e member

/-- A call that only looks at the session may load it and may prune the leases. -/
def Looked (σ τ : Server) : Prop :=
  ∃ base leases, (base = σ ∨ σ.loaded = false ∧ σ.get? = some base) ∧ leases.Within σ.leases ∧
    τ = { base with leases := leases }

theorem Looked.refl (σ : Server) : Looked σ σ := ⟨σ, σ.leases, Or.inl rfl, .refl _, rfl⟩

theorem get?_of_loaded {σ : Server} (loaded : σ.loaded = true) : σ.get? = some σ := by
  rw [get?, if_pos loaded]

theorem get?_cases {σ base : Server} (got : σ.get? = some base) :
    (σ.loaded = true ∧ base = σ) ∨
      σ.loaded = false ∧ ∃ saved, σ.disk = some saved ∧ base = σ.load saved := by
  unfold get? at got
  split at got
  · rename_i loaded
    cases got
    exact Or.inl ⟨loaded, rfl⟩
  · rename_i unloaded
    obtain ⟨saved, onDisk, rfl⟩ := Option.map_eq_some_iff.mp got
    exact Or.inr ⟨eq_false_of_ne_true unloaded, saved, onDisk, rfl⟩

theorem loaded_of_get? {σ base : Server} (got : σ.get? = some base) : base.loaded = true := by
  rcases get?_cases got with ⟨loaded, rfl⟩ | ⟨-, saved, -, rfl⟩
  · exact loaded
  · rfl

/-- Loading changes the memory only. -/
theorem get?_frame {σ base : Server} (got : σ.get? = some base) :
    base.inFlight = σ.inFlight ∧ base.subscribers = σ.subscribers ∧ base.leases = σ.leases ∧
      base.claims = σ.claims ∧ base.disk = σ.disk := by
  rcases get?_cases got with ⟨-, rfl⟩ | ⟨-, saved, -, rfl⟩ <;> exact ⟨rfl, rfl, rfl, rfl, rfl⟩

theorem looked_of_get? {σ base : Server} (got : σ.get? = some base) : Looked σ base := by
  by_cases loaded : σ.loaded = true
  · rw [get?_of_loaded loaded] at got
    cases got
    exact Looked.refl σ
  · refine ⟨base, base.leases, Or.inr ⟨eq_false_of_ne_true loaded, got⟩, ?_, rfl⟩
    rw [(get?_frame got).2.2.1]
    exact .refl _

theorem Looked.prune {σ τ : Server} (looked : Looked σ τ) (now : Nat) :
    Looked σ { τ with leases := τ.leases.prune now } := by
  obtain ⟨base, leases, source, within, rfl⟩ := looked
  exact ⟨base, leases.prune now, source, (Holders.prune_within now leases).trans within, rfl⟩

theorem preflight_looked (request : Request) (σ : Server) : Looked σ (σ.preflight request).1 ∧
    ((σ.preflight request).2 = none →
      (σ.preflight request).1.loaded = true ∧ (σ.preflight request).1.inFlight = none) := by
  unfold preflight
  split
  · exact ⟨Looked.refl σ, nofun⟩
  · split
    · exact ⟨Looked.refl σ, nofun⟩
    · rename_i idle
      cases got : σ.get? with
      | none => exact ⟨Looked.refl σ, nofun⟩
      | some base =>
        dsimp only
        have looked := looked_of_get? got
        split
        · exact ⟨looked, nofun⟩
        · refine ⟨looked, fun _ => ⟨loaded_of_get? got, ?_⟩⟩
          rw [(get?_frame got).1]
          simpa using idle

theorem rejectIfLeased_looked {σ τ : Server} (looked : Looked σ τ) (now : Nat) (client : String)
    (op : StateOp) : Looked σ (τ.rejectIfLeased now client op).1 ∧
      (τ.rejectIfLeased now client op).1.loaded = τ.loaded ∧
      (τ.rejectIfLeased now client op).1.inFlight = τ.inFlight := by
  unfold rejectIfLeased
  split
  · exact ⟨looked, rfl, rfl⟩
  · exact ⟨looked.prune now, rfl, rfl⟩

/-- Before it hands on its op a synchronous write only looks, and it hands one on only to a
loaded session that no batch holds. -/
theorem prepareWrite_looked (cfg : ManagerConfig) (request : Request) (call : SyncWrite) (σ : Server) :
    Looked σ (σ.prepareWrite cfg request call).1 ∧ ∀ op, (σ.prepareWrite cfg request call).2 = .ok op →
      (σ.prepareWrite cfg request call).1.loaded = true ∧
        (σ.prepareWrite cfg request call).1.inFlight = none := by
  unfold prepareWrite
  split
  · exact ⟨Looked.refl σ, nofun⟩
  · split
    · exact ⟨Looked.refl σ, nofun⟩
    · obtain ⟨looked, ready⟩ := preflight_looked request σ
      split
      · rename_i admitted
        rw [admitted] at looked
        exact ⟨looked, nofun⟩
      · rename_i τ admitted
        rw [admitted] at looked ready
        obtain ⟨loaded, idle⟩ := ready rfl
        split
        · exact ⟨looked, nofun⟩
        · exact ⟨looked, nofun⟩
        · split
          · exact ⟨looked, fun _ _ => ⟨loaded, idle⟩⟩
          · rename_i op _ _ client _
            obtain ⟨looked', loaded', idle'⟩ := rejectIfLeased_looked looked request.now client op
            split
            · rename_i refused
              rw [refused] at looked'
              exact ⟨looked', nofun⟩
            · rename_i free
              rw [free] at looked' loaded' idle'
              exact ⟨looked', fun _ _ => ⟨loaded'.trans loaded, idle'.trans idle⟩⟩

theorem prepareUndo_looked (request : Request) (σ : Server) :
    Looked σ (σ.prepareUndo request).1 ∧ ∀ found, (σ.prepareUndo request).2 = .ok found →
      (σ.prepareUndo request).1.loaded = true ∧ (σ.prepareUndo request).1.inFlight = none := by
  unfold prepareUndo
  split
  · exact ⟨Looked.refl σ, by simp⟩
  · obtain ⟨looked, ready⟩ := preflight_looked request σ
    split
    · rename_i admitted
      rw [admitted] at looked
      exact ⟨looked, by simp⟩
    · rename_i τ admitted
      rw [admitted] at looked ready
      obtain ⟨loaded, idle⟩ := ready rfl
      split
      · exact ⟨looked, by simp⟩
      · split
        · exact ⟨looked, by simp⟩
        · split
          · exact ⟨looked, by simp⟩
          · rename_i inverse _
            obtain ⟨looked', loaded', idle'⟩ :=
              rejectIfLeased_looked looked request.now request.client inverse
            split
            · rename_i refused
              rw [refused] at looked'
              exact ⟨looked', by simp⟩
            · rename_i free
              rw [free] at looked' loaded' idle'
              exact ⟨looked', fun _ _ => ⟨loaded'.trans loaded, idle'.trans idle⟩⟩

/-- The three ends of `_apply_op_sync`: no-op, failure with a rollback, and an op that is
applied, saved and published. -/
theorem applyOpSync_cases (cfg : ManagerConfig) (call : Call) (persists : Bool) (σ : Server) :
    (σ.memory.applyStateOp cfg.toStoreConfig call = .dropped ∧
      σ.applyOpSync cfg call persists = (σ, .ok none)) ∨
    (∃ failure m, (σ.memory.applyStateOp cfg.toStoreConfig call = .raised failure m ∨
        ∃ applied, σ.memory.applyStateOp cfg.toStoreConfig call = .applied applied m ∧
          persists = false ∧ failure = .persistFailed) ∧
      σ.applyOpSync cfg call persists =
        ({ σ with memory := m.restore σ.memory.view σ.memory.ring m.session.name }, .error failure)) ∨
    ∃ applied m, σ.memory.applyStateOp cfg.toStoreConfig call = .applied applied m ∧ persists = true ∧
      σ.applyOpSync cfg call persists =
        ({ σ with memory := m, disk := some m.view.document
                  subscribers := broadcast cfg.queueMax [.op call.client applied] σ.subscribers },
          .ok (some applied)) := by
  unfold applyOpSync
  cases outcome : σ.memory.applyStateOp cfg.toStoreConfig call with
  | dropped => exact Or.inl ⟨rfl, rfl⟩
  | raised failure m => exact Or.inr (Or.inl ⟨failure, m, Or.inl rfl, rfl⟩)
  | applied applied m =>
    cases persists with
    | true => exact Or.inr (Or.inr ⟨applied, m, rfl, rfl, rfl⟩)
    | false => exact Or.inr (Or.inl ⟨_, m, Or.inr ⟨applied, rfl, rfl, rfl⟩, rfl⟩)

/-- Every annotation object that the session, the ring, a queue or a batch in flight holds
is allocated, and a batch is in flight only on a loaded session. -/
structure Wf (σ : Server) : Prop where
  memory : σ.memory.Wf
  queued : ∀ sub ∈ σ.subscribers, ∀ e ∈ sub.queue, ∀ a ∈ e.applied?, a.Below σ.memory.heap.size
  flight : ∀ batch, σ.inFlight = some batch → σ.loaded = true ∧
    (∀ entry ∈ batch.savedRing, entry.Below σ.memory.heap.size) ∧
    ∀ p ∈ batch.pending, ∀ a ∈ p.applied?, a.Below σ.memory.heap.size

theorem Wf.of_same {σ τ : Server} (wf : σ.Wf) (memory : τ.memory = σ.memory) (loaded : τ.loaded = σ.loaded)
    (flight : τ.inFlight = σ.inFlight) (queues : ∀ sub ∈ τ.subscribers, ∀ e ∈ sub.queue, ∀ a ∈ e.applied?,
      a.Below σ.memory.heap.size) : τ.Wf := by
  refine ⟨memory ▸ wf.memory, ?_, ?_⟩
  · rw [memory]
    exact queues
  · rw [memory, loaded, flight]
    exact wf.flight

/-- New memory in place of the old, with no batch in flight. -/
theorem Wf.of_memory {σ τ : Server} (wf : σ.Wf) (memory : τ.memory.Wf)
    (grown : σ.memory.heap.size ≤ τ.memory.heap.size) (idle : τ.inFlight = none)
    (queues : τ.subscribers = σ.subscribers) : τ.Wf := by
  refine ⟨memory, ?_, ?_⟩
  · rw [queues]
    exact fun sub member e queued a named => (wf.queued sub member e queued a named).mono grown
  · intro batch flying
    rw [idle] at flying
    cases flying

theorem Wf.broadcast {σ τ : Server} (wf : σ.Wf) {events : List (Event Ref)} {queueMax : Nat}
    (memory : τ.memory = σ.memory) (loaded : τ.loaded = σ.loaded) (flight : τ.inFlight = σ.inFlight)
    (sent : τ.subscribers = MetadataGraph.broadcast queueMax events σ.subscribers)
    (below : ∀ a ∈ events.filterMap Event.applied?, a.Below σ.memory.heap.size) : τ.Wf := by
  apply wf.of_same memory loaded flight
  intro sub member e queued a named
  rw [sent] at member
  rcases mem_broadcast member queued with new | rfl | ⟨old, was, before⟩
  · exact below a (List.mem_filterMap.mpr ⟨e, new, named⟩)
  · cases named
  · exact wf.queued old was e before a named

/-- An event without a state op. -/
theorem Wf.publish {σ : Server} (wf : σ.Wf) (event : Event Ref) (quiet : event.applied? = none) :
    (σ.publish cfg event).Wf := by
  refine wf.of_same rfl rfl rfl ?_
  intro sub member e queued a named
  rcases mem_publish member queued with rfl | rfl | ⟨old, was, before⟩
  · rw [quiet] at named
    cases named
  · cases named
  · exact wf.queued old was e before a named

theorem get?_wf {σ base : Server} (wf : σ.Wf) (got : σ.get? = some base) : base.Wf := by
  rcases get?_cases got with ⟨-, rfl⟩ | ⟨unloaded, saved, -, rfl⟩
  · exact wf
  · have idle : σ.inFlight = none := by
      cases flying : σ.inFlight with
      | none => rfl
      | some batch =>
        rw [(wf.flight batch flying).1] at unloaded
        cases unloaded
    refine wf.of_memory ⟨Heap.allocAll_nodup _ _, fun r member => ?_, nofun⟩ ?_ idle rfl
    · rw [load, Heap.size_allocAll]
      exact (Heap.allocAll_fresh member).2
    · rw [load, Heap.size_allocAll]
      omega

theorem Looked.wf {σ τ : Server} (looked : Looked σ τ) (wf : σ.Wf) : τ.Wf := by
  obtain ⟨base, leases, rfl | ⟨-, got⟩, -, rfl⟩ := looked
  · exact wf.of_same rfl rfl rfl wf.queued
  · exact (get?_wf wf got).of_same rfl rfl rfl (get?_wf wf got).queued

theorem getOrCreate_wf {σ τ : Server} {now : Nat} {limitReached : Bool} (wf : σ.Wf)
    (opened : σ.getOrCreate now limitReached = some τ) : τ.Wf := by
  unfold getOrCreate at opened
  split at opened
  · rename_i base got
    cases opened
    exact get?_wf wf got
  · rename_i missing
    split at opened
    · cases opened
    · cases opened
      have unloaded : ¬σ.loaded = true := by
        intro loaded
        rw [get?_of_loaded loaded] at missing
        cases missing
      refine wf.of_memory ⟨List.nodup_nil, nofun, nofun⟩ (le_refl _) ?_ rfl
      cases flying : σ.inFlight with
      | none => rfl
      | some batch => exact absurd (wf.flight batch flying).1 unloaded

theorem commit_wf {σ : Server} (wf : σ.Wf) (now : Nat) (client : String) {pending : List (Pending Ref)}
    (below : ∀ p ∈ pending, ∀ a ∈ p.applied?, a.Below σ.memory.heap.size) :
    (σ.commit cfg now client pending).1.Wf := by
  obtain ⟨events, claims, leases, same, ops, -⟩ := commitEach_broadcasts cfg now client σ pending
  have opsBelow : ∀ a ∈ events.filterMap Event.applied?, a.Below σ.memory.heap.size := by
    rw [ops]
    intro a member
    obtain ⟨p, sent, named⟩ := List.mem_filterMap.mp member
    exact below p sent a named
  rw [commit]
  dsimp only
  rw [same]
  exact wf.broadcast rfl rfl rfl rfl opsBelow

theorem rollback_wf {σ : Server} (wf : σ.Wf) {saved : Session Annotation} {savedRing : List (Applied Ref)}
    {m : Memory} (grown : σ.memory.heap.size ≤ m.heap.size) (idle : σ.inFlight = none)
    (below : ∀ entry ∈ savedRing, entry.Below m.heap.size) : (σ.rollback saved savedRing m).Wf :=
  wf.of_memory (Memory.restore_wf saved saved.name below)
    (grown.trans (m.size_restore saved savedRing saved.name)) idle rfl

/-- How a batch ends before its persist. -/
theorem applyOps_cases (cfg : ManagerConfig) (now : Nat) (client : String) (ops : List BatchOp) (σ : Server) :
    (σ.get? = none ∧ σ.applyOps cfg now client ops = (σ, .raised .sessionNotFound)) ∨
    ∃ base, σ.get? = some base ∧
      let start : Walk := { memory := base.memory, leases := (base.leases.prune now).snapshot now }
      let pruned := { base with leases := base.leases.prune now }
      (∃ failure m, Walk.run cfg client ops start = .error (failure, m) ∧
        σ.applyOps cfg now client ops =
          (pruned.rollback base.memory.view base.memory.ring m, .raised failure)) ∨
      ∃ w, Walk.run cfg client ops start = .ok w ∧
        ((∀ entry ∈ w.pending, entry.applied? = none) ∧
          σ.applyOps cfg now client ops =
            { pruned with memory := w.memory }.commit cfg now client w.pending ∨
        (¬∀ entry ∈ w.pending, entry.applied? = none) ∧
          (overBudget cfg w.memory.view = true ∧ σ.applyOps cfg now client ops =
              (pruned.rollback base.memory.view base.memory.ring w.memory, .raised .imageBudgetExceeded) ∨
            overBudget cfg w.memory.view = false ∧ σ.applyOps cfg now client ops =
              ({ pruned with
                memory := w.memory
                inFlight := some
                  { client := client, saved := base.memory.view, savedRing := base.memory.ring
                    pending := w.pending, snapshot := w.memory.view.document } }, .suspended))) := by
  unfold applyOps
  cases got : σ.get? with
  | none => exact Or.inl ⟨rfl, rfl⟩
  | some base =>
    refine Or.inr ⟨base, rfl, ?_⟩
    dsimp only
    split
    · rename_i failure m failed
      exact Or.inl ⟨failure, m, failed, rfl⟩
    · rename_i w walked
      refine Or.inr ⟨w, walked, ?_⟩
      split
      · rename_i quiet
        refine Or.inl ⟨fun entry member => ?_, rfl⟩
        simpa using List.all_eq_true.mp quiet entry member
      · rename_i busy
        refine Or.inr ⟨fun quiet => busy ?_, ?_⟩
        · exact List.all_eq_true.mpr fun entry member => by simp [quiet entry member]
        · split
          · rename_i exceeds
            exact Or.inl ⟨exceeds, rfl⟩
          · rename_i within
            exact Or.inr ⟨eq_false_of_ne_true within, rfl⟩

theorem applyOps_wf (cfg : ManagerConfig) {σ : Server} (wf : σ.Wf) (idle : σ.inFlight = none) (now : Nat) (client : String)
    (ops : List BatchOp) : (σ.applyOps cfg now client ops).1.Wf := by
  rcases applyOps_cases cfg now client ops σ with ⟨-, same⟩ | ⟨base, got, ended⟩
  · rw [same]
    exact wf
  · have baseWf := get?_wf wf got
    have baseIdle : base.inFlight = none := (get?_frame got).1.trans idle
    have prunedWf : ({ base with leases := base.leases.prune now } : Server).Wf :=
      baseWf.of_same rfl rfl rfl baseWf.queued
    obtain ⟨okSound, errorGrown⟩ := Walk.run_sound cfg client baseWf.memory ((base.leases.prune now).snapshot now) ops
    rcases ended with ⟨failure, m, failed, same⟩ | ⟨w, walked, ended⟩
    · rw [same]
      have grown := errorGrown failure m failed
      exact rollback_wf prunedWf grown baseIdle fun entry inRing =>
        (baseWf.memory.ringValid entry inRing).mono grown
    · have sound := okSound w walked
      have withMemory : ({ base with memory := w.memory, leases := base.leases.prune now } : Server).Wf :=
        baseWf.of_memory sound.memory sound.grown baseIdle rfl
      rcases ended with ⟨-, same⟩ | ⟨-, ⟨-, same⟩ | ⟨-, same⟩⟩
      · rw [same]
        exact commit_wf withMemory now client sound.pending
      · rw [same]
        exact rollback_wf prunedWf sound.grown baseIdle fun entry inRing =>
          (baseWf.memory.ringValid entry inRing).mono sound.grown
      · rw [same]
        have loaded := loaded_of_get? got
        refine ⟨sound.memory, withMemory.queued, ?_⟩
        rintro batch ⟨⟩
        exact ⟨loaded, fun entry inRing => (baseWf.memory.ringValid entry inRing).mono sound.grown, sound.pending⟩

theorem persistDone_wf (cfg : ManagerConfig) {σ : Server} (wf : σ.Wf) {batch : InFlight} (flying : σ.inFlight = some batch)
    (now : Nat) (ok : Bool) : (σ.persistDone cfg now ok batch).1.Wf := by
  obtain ⟨-, ringBelow, pendingBelow⟩ := wf.flight batch flying
  have landed : ({ σ with inFlight := none } : Server).Wf :=
    wf.of_memory wf.memory (le_refl _) rfl rfl
  cases ok with
  | true =>
    have saved : ({ σ with inFlight := none, disk := some batch.snapshot } : Server).Wf :=
      landed.of_same rfl rfl rfl landed.queued
    exact commit_wf saved now batch.client pendingBelow
  | false => exact rollback_wf landed (le_refl _) rfl ringBelow

theorem applyOpSync_wf {σ : Server} (cfg : ManagerConfig) (wf : σ.Wf) (idle : σ.inFlight = none) (call : Call)
    (persists : Bool) :
    (σ.applyOpSync cfg call persists).1.Wf := by
  rcases applyOpSync_cases cfg call persists σ with
    ⟨-, same⟩ | ⟨failure, m, outcome, same⟩ | ⟨applied, m, accepted, -, same⟩
  · rw [same]
    exact wf
  · have left : (σ.memory.applyStateOp cfg.toStoreConfig call).after? = some m := by
      rcases outcome with raised | ⟨applied, accepted, -, -⟩
      · exact congrArg Outcome.after? raised
      · exact congrArg Outcome.after? accepted
    have size := (Memory.applyStateOp_extends wf.memory left).size
    rw [same]
    exact wf.of_memory (Memory.restore_wf _ _ fun entry inRing => (wf.memory.ringValid entry inRing).mono size)
      (size.trans (m.size_restore _ _ _)) idle rfl
  · have extends_ := Memory.applyStateOp_extends wf.memory (congrArg Outcome.after? accepted)
    have below := (Memory.applyStateOp_applied wf.memory accepted).2.2.2
    have withMemory : ({ σ with memory := m } : Server).Wf := wf.of_memory extends_.wf extends_.size idle rfl
    rw [same]
    exact withMemory.broadcast rfl rfl rfl rfl (by simpa [Event.applied?] using below)

theorem withSession_wf {σ : Server} (wf : σ.Wf) (f : Session Ref → Session Ref)
    (kept : ∀ s, (f s).state = s.state) : (σ.withSession f).Wf := by
  have memory : (σ.withSession f).memory.Wf :=
    ⟨by simpa [withSession, Memory.refs, kept] using wf.memory.distinct,
      by simpa [withSession, Memory.refs, kept] using wf.memory.stateValid, wf.memory.ringValid⟩
  exact ⟨memory, wf.queued, wf.flight⟩

theorem write_wf (cfg : ManagerConfig) {σ : Server} (wf : σ.Wf) (request : Request) (call : SyncWrite) :
    (σ.write cfg request call).1.Wf := by
  obtain ⟨looked, ready⟩ := prepareWrite_looked cfg request call σ
  unfold write
  split
  · rename_i prepared
    rw [prepared] at looked
    exact looked.wf wf
  · rename_i τ op prepared
    rw [prepared] at looked ready
    have applied := applyOpSync_wf cfg (looked.wf wf) (ready op rfl).2
      { env := request.env, client := request.client, op := op } request.persists
    split <;> rename_i ended <;> rw [ended] at applied <;> exact applied

theorem undo_wf (cfg : ManagerConfig) {σ : Server} (wf : σ.Wf) (request : Request) (persistsAgain : Bool) :
    (σ.undo cfg request persistsAgain).1.Wf := by
  obtain ⟨looked, ready⟩ := prepareUndo_looked request σ
  unfold undo
  split
  · rename_i prepared
    rw [prepared] at looked
    exact looked.wf wf
  · rename_i τ record inverse prepared
    rw [prepared] at looked ready
    have forgotten : (τ.withSession fun s =>
        { s with deletedAnnotationIds := forgetDeleted inverse s.deletedAnnotationIds }).Wf :=
      withSession_wf (looked.wf wf) _ fun _ => rfl
    have applied := applyOpSync_wf cfg forgotten (ready _ rfl).2
      { env := request.env, client := undoReplayClientId, op := inverse
        recordActivity := false, trustedReplay := true } request.persists
    dsimp only
    split <;> rename_i ended <;> rw [ended] at applied
    · exact applied
    · exact applied
    · rename_i ended' _
      have marked : (ended'.withSession fun s => { s with
          activityLog := markUndone request.env.stamp request.client s.activityLog }).Wf :=
        withSession_wf applied _ fun _ => rfl
      split
      · exact marked.of_same rfl rfl rfl marked.queued
      · exact marked

theorem rename_wf (cfg : ManagerConfig) {σ : Server} (wf : σ.Wf) (request : Request) (limitReached : Bool)
    (name : Option String) : (σ.rename cfg request limitReached name).1.Wf := by
  unfold rename
  split
  · exact wf
  · rename_i τ opened
    have openedWf := getOrCreate_wf wf opened
    split
    · exact openedWf
    · rename_i idle
      have applied := applyOpSync_wf cfg openedWf (by simpa using idle)
        { env := request.env, client := if request.client = "" then "rest" else request.client
          op := .sessionRenamed ((name.map .str).getD .null) } request.persists
      dsimp only
      split
      · exact withSession_wf applied (fun s => { s with name := τ.memory.session.name }) fun _ => rfl
      · exact applied

theorem catchUp_looked (now : Nat) (sinceSeq : Option Int) (σ : Server) :
    ∃ τ claims, Looked σ τ ∧ (σ.catchUp now sinceSeq).1 = { τ with claims := claims } := by
  unfold catchUp
  cases got : σ.get? with
  | none => exact ⟨σ, σ.claims, Looked.refl σ, rfl⟩
  | some base =>
    refine ⟨{ base with leases := base.leases.prune now }, base.claims.prune now,
      (looked_of_get? got).prune now, ?_⟩
    dsimp only
    split <;> rfl

theorem catchUp_wf {σ : Server} (wf : σ.Wf) (now : Nat) (sinceSeq : Option Int) :
    (σ.catchUp now sinceSeq).1.Wf := by
  obtain ⟨τ, claims, looked, same⟩ := catchUp_looked now sinceSeq σ
  rw [same]
  exact (looked.wf wf).of_same rfl rfl rfl (looked.wf wf).queued

theorem publishElements_broadcasts (cfg : ManagerConfig) (client name : String) (ids : List String) :
    ∃ events, (∀ σ : Server, σ.publishElements cfg client name ids =
        { σ with subscribers := broadcast cfg.queueMax events σ.subscribers }) ∧
      events.filterMap Event.applied? = [] ∧ ∀ e ∈ events, e.Plain := by
  unfold publishElements
  by_cases none : ids = []
  · exact ⟨[], fun σ => by simp [none, broadcast], rfl, by simp⟩
  · exact ⟨[.elements client name ids], fun σ => by simp only [none, if_false]; rfl, rfl,
      by simp [Event.Plain]⟩

theorem disconnect_broadcasts (cfg : ManagerConfig) (id : Nat) (client : String) (last : Bool) (σ : Server) :
    ∃ events claims leases, σ.disconnect cfg id client last =
        { σ with claims := claims, leases := leases
                 subscribers := broadcast cfg.queueMax events (σ.subscribers.filter (·.id ≠ id)) } ∧
      events.filterMap Event.applied? = [] ∧ (∀ e ∈ events, e.Plain) ∧ leases.Within σ.leases := by
  unfold disconnect
  cases last with
  | false => exact ⟨[], _, _, rfl, rfl, by simp, .refl _⟩
  | true =>
    obtain ⟨claimEvents, sent, noOps, plain⟩ := publishElements_broadcasts cfg client
      "selection_released" (σ.claims.releaseAll client).2
    obtain ⟨leaseEvents, sent', noOps', plain'⟩ := publishElements_broadcasts cfg client
      "edit_lease_released" (σ.leases.releaseAll client).2
    refine ⟨claimEvents ++ leaseEvents ++ [.notice "presence_left"],
      (σ.claims.releaseAll client).1, (σ.leases.releaseAll client).1, ?_, ?_, ?_,
      Holders.releaseAll_within client σ.leases⟩
    · simp only [if_true, sent, sent', broadcast_append]
      rfl
    · simp [noOps, noOps', Event.applied?]
    · simp only [List.mem_append, List.mem_singleton]
      rintro e ((member | member) | rfl)
      · exact plain e member
      · exact plain' e member
      · trivial

theorem disconnect_wf {σ : Server} (wf : σ.Wf) (id : Nat) (client : String) (last : Bool) :
    (σ.disconnect cfg id client last).Wf := by
  obtain ⟨events, claims, leases, same, ops, -⟩ := disconnect_broadcasts cfg id client last σ
  have filtered : ({ σ with subscribers := σ.subscribers.filter (·.id ≠ id) } : Server).Wf :=
    wf.of_same rfl rfl rfl fun sub member => wf.queued sub (List.mem_filter.mp member).1
  rw [same]
  exact filtered.broadcast rfl rfl rfl rfl (by simp [ops])

theorem deliver_wf {σ : Server} (wf : σ.Wf) (now id : Nat) : (σ.deliver now id).1.Wf := by
  unfold deliver
  split
  · exact wf
  · rename_i subscriber found
    split
    · exact wf
    · rename_i event queue queued
      have popped : (σ.popped id queue).Wf := by
        refine wf.of_same rfl rfl rfl ?_
        intro sub member e inQueue a named
        obtain ⟨old, was, rfl⟩ := List.mem_map.mp member
        split at inQueue
        · exact wf.queued subscriber (List.mem_of_find?_eq_some found) e
            (queued ▸ List.mem_cons_of_mem _ inQueue) a named
        · exact wf.queued old was e inQueue a named
      dsimp only
      split
      · have caught := catchUp_wf popped now none
        split
        · rename_i τ _ answered
          rw [answered] at caught
          exact caught.of_same rfl rfl rfl fun sub member => caught.queued sub (List.mem_filter.mp member).1
        · exact caught
      · exact popped

theorem joined_wf {σ : Server} (wf : σ.Wf) : σ.joined.Wf := by
  refine wf.of_same rfl rfl rfl ?_
  intro sub member e queued a named
  rcases List.mem_append.mp member with old | new
  · exact wf.queued sub old e queued a named
  · rw [List.mem_singleton] at new
    subst new
    cases queued

theorem connect_wf {σ : Server} (wf : σ.Wf) : (σ.connect cfg).Wf :=
  (joined_wf wf).publish (.notice "presence_joined") rfl

/-- A process that has just started. -/
theorem fresh_wf (disk : Option (Session Annotation)) : ({ disk := disk } : Server).Wf :=
  ⟨⟨List.nodup_nil, nofun, nofun⟩, nofun, nofun⟩

/-- Every action keeps the server well-formed. -/
theorem step_wf {σ τ : Server} {action : Action} {reply : Reply} (wf : σ.Wf)
    (stepped : σ.step cfg action = some (τ, reply)) : τ.Wf := by
  cases action with
  | applyOps now client ops =>
    simp only [step] at stepped
    split at stepped
    · cases stepped
    · rename_i idle
      have kept := applyOps_wf cfg wf (by simpa using idle) now client ops
      rw [Option.some.inj stepped] at kept
      exact kept
  | persistDone now ok =>
    obtain ⟨batch, flying, same⟩ := Option.map_eq_some_iff.mp stepped
    have kept := persistDone_wf cfg wf flying now ok
    rw [same] at kept
    exact kept
  | cancel =>
    obtain ⟨batch, flying, same⟩ := Option.map_eq_some_iff.mp stepped
    cases same
    exact wf.of_memory wf.memory (le_refl _) rfl rfl
  | workerDone index landed =>
    obtain ⟨snapshot, -, same⟩ := Option.map_eq_some_iff.mp stepped
    cases same
    exact wf.of_same rfl rfl rfl wf.queued
  | write request call =>
    have kept := write_wf cfg wf request call
    rw [Option.some.inj stepped] at kept
    exact kept
  | undo request persistsAgain =>
    have kept := undo_wf cfg wf request persistsAgain
    rw [Option.some.inj stepped] at kept
    exact kept
  | rename request limitReached name =>
    have kept := rename_wf cfg wf request limitReached name
    rw [Option.some.inj stepped] at kept
    exact kept
  | catchUp now sinceSeq =>
    have kept := catchUp_wf wf now sinceSeq
    rw [Option.some.inj stepped] at kept
    exact kept
  | connect =>
    cases stepped
    exact connect_wf wf
  | disconnect id client last =>
    cases stepped
    exact disconnect_wf wf id client last
  | deliver now id =>
    have kept := deliver_wf wf now id
    rw [Option.some.inj stepped] at kept
    exact kept
  | notify kind =>
    cases stepped
    exact wf.publish (.notice kind) rfl
  | getOrCreate now limitReached =>
    obtain ⟨opened, created, same⟩ := Option.map_eq_some_iff.mp stepped
    cases same
    exact getOrCreate_wf wf created
  | delete =>
    simp only [step] at stepped
    split at stepped
    · cases stepped
    · rename_i idle
      cases stepped
      have emptied : ({ σ with
          loaded := false, disk := none
          memory := { heap := σ.memory.heap, session := {}, ring := [] } } : Server).Wf :=
        wf.of_memory ⟨List.nodup_nil, nofun, nofun⟩ (le_refl _) (by simpa using idle) rfl
      unfold delete
      dsimp only
      split
      · exact emptied.publish .sessionDeleted rfl
      · exact emptied
  | restart landed =>
    cases stepped
    exact fresh_wf _

theorem initial_wf : ({} : Server).Wf := fresh_wf none

/-- Every server that a run reaches from a fresh process is well-formed. -/
theorem run_wf {allowed : List (Action × Reply) → Server → Action → Prop} {history : List (Action × Reply)}
    {σ : Server} (run : Run (step cfg) allowed {} history σ) : σ.Wf :=
  run.invariant (fun _ σ => σ.Wf) initial_wf fun wf _ stepped => step_wf wf stepped

end Server

end MetadataGraph
