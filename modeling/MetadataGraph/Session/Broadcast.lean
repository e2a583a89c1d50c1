import MetadataGraph.Session.Log

namespace MetadataGraph

open ObjectHeap Runs Feed

/-- What an event is to a reader who watches the numbers. -/
def Event.item? {α : Type} : Event α → Option Item
  | .op _ applied => some (.entry applied.seq)
  | .resync => some .marker
  | _ => none

def Subscriber.items {α : Type} (sub : Subscriber α) : List Item := sub.queue.filterMap Event.item?

/-- What a step hands to the stream of a subscriber; a snapshot is a resolved resync marker. -/
def handed (id : Nat) : Action × Reply → Option Item
  | (.deliver _ stream, .event event) => if stream = id then event.item? else none
  | (.deliver _ stream, .snapshot _ _ _ _) => if stream = id then some .marker else none
  | _ => none

/-- Everything that the stream of a subscriber was handed in a history. -/
def received (id : Nat) (history : List (Action × Reply)) : List Item := history.filterMap (handed id)

theorem Event.item?_map {α β : Type} (f : α → β) (event : Event α) : (event.map f).item? = event.item? := by
  cases event <;> rfl

theorem received_snoc (id : Nat) (history : List (Action × Reply)) (taken : Action × Reply) :
    received id (history ++ [taken]) = received id history ++ (handed id taken).toList := by
  rw [received, List.filterMap_append, received]
  cases taken' : handed id taken <;> simp [taken']

/-- The queue of a subscriber after one more event, whether it fits or overflows. -/
theorem ready_put {queueMax : Nat} {event : Event Ref} {sub : Subscriber Ref} {start : Option Nat}
    {kept : List Item} {next : Nat} (plain : event.Plain) (number : ∀ a ∈ event.applied?, a.seq = next)
    (ready : Ready start (kept ++ sub.items) next) :
    Ready start (kept ++ (sub.put queueMax event).items) (next + event.applied?.toList.length) := by
  unfold Subscriber.put
  split
  · have items : (Subscriber.mk sub.id (sub.queue ++ [event])).items = sub.items ++ event.item?.toList := by
      rw [Subscriber.items, List.filterMap_append]
      cases shown : event.item? <;> simp [shown, Subscriber.items]
    rw [items, ← List.append_assoc]
    cases event with
    | op client applied =>
      obtain rfl := number applied rfl
      exact ready.entry
    | elements | notice => simpa [Event.item?, Event.applied?] using ready
    | sessionDeleted | resync => cases plain
  · exact ready.marker _

/-- A run of publications whose ops are numbered in a row. -/
theorem ready_broadcast {queueMax : Nat} {events : List (Event Ref)} {subs : List (Subscriber Ref)}
    {id : Nat} {start : Option Nat} {kept : List Item} {next : Nat} (plain : ∀ e ∈ events, e.Plain)
    (numbers : (events.filterMap Event.applied?).map Applied.seq =
      List.range' next (events.filterMap Event.applied?).length)
    (ready : ∀ sub ∈ subs, sub.id = id → Ready start (kept ++ sub.items) next) :
    ∀ sub ∈ broadcast queueMax events subs, sub.id = id →
      Ready start (kept ++ sub.items) (next + (events.filterMap Event.applied?).length) := by
  induction events generalizing subs next with
  | nil => exact ready
  | cons event events ih =>
    have split : (event :: events).filterMap Event.applied? =
        event.applied?.toList ++ events.filterMap Event.applied? := by
      cases named : event.applied? <;> simp [named]
    have head : ∀ a ∈ event.applied?, a.seq = next := by
      rintro a named
      rw [split, Option.mem_def.mp named] at numbers
      exact (List.cons.inj numbers).1
    have tail : (events.filterMap Event.applied?).map Applied.seq =
        List.range' (next + event.applied?.toList.length) (events.filterMap Event.applied?).length := by
      rw [split] at numbers
      cases named : event.applied? with
      | none => simpa [named] using numbers
      | some a =>
        rw [named] at numbers
        exact (List.cons.inj numbers).2
    have put : ∀ sub ∈ publish queueMax event subs, sub.id = id →
        Ready start (kept ++ sub.items) (next + event.applied?.toList.length) := by
      intro sub member same
      obtain ⟨old, was, rfl⟩ := List.mem_map.mp member
      have sameOld : old.id = id := by
        rw [← same]
        unfold Subscriber.put
        split <;> rfl
      exact ready_put (plain event List.mem_cons_self) head (ready old was sameOld)
    have later := ih (fun e member => plain e (List.mem_cons_of_mem _ member)) tail put
    rw [split, List.length_append, ← Nat.add_assoc]
    exact later

namespace Server

variable {cfg : ManagerConfig} {first : Nat} {σ τ : Server}

/-- What holds of a subscriber since it joined: its stream has been read without a gap, and
its queue goes on from there up to the ops that are committed. -/
structure Streams (first start id : Nat) (history : List (Action × Reply)) (σ : Server) : Prop where
  wf : σ.Wf
  logged : ∃ log, σ.Logged first log
  joined : id < σ.nextSubscriber
  read : ∃ expected, Reads (some start) (received id history) expected
  ready : ∀ sub ∈ σ.subscribers, sub.id = id →
    Ready (some start) (received id history ++ sub.items) (σ.published + 1)

variable {start id : Nat} {history : List (Action × Reply)}

/-- Publications that continue the log keep every stream gap-free. -/
theorem Streams.publishes (cfg : ManagerConfig) (streams : Streams first start id history σ) (wf : τ.Wf)
    (published : ∀ {log}, σ.Logged first log → Publishes cfg first log σ τ) {taken : Action × Reply}
    (silent : handed id taken = none) : Streams first start id (history ++ [taken]) τ := by
  obtain ⟨log, logged⟩ := streams.logged
  obtain ⟨events, sent, plain, logged', next⟩ := published logged
  have same : received id (history ++ [taken]) = received id history := by
    rw [received_snoc, silent, Option.toList_none, List.append_nil]
  refine ⟨wf, ⟨_, logged'⟩, next ▸ streams.joined, same ▸ streams.read, ?_⟩
  have numbers := logged'.numbered.split.1.split.2
  have following : τ.published + 1 = σ.published + 1 + (events.filterMap Event.applied?).length := by
    rw [logged'.published, logged.published, List.length_append]
    omega
  rw [same, sent, following, logged.published]
  refine ready_broadcast plain numbers fun sub member own => ?_
  rw [← logged.published]
  exact streams.ready sub member own

/-- A change to the list of subscribers that leaves the streams of this id as they are. -/
theorem Streams.of_subscribers (streams : Streams first start id history σ) (wf : τ.Wf)
    (memory : τ.memory? = σ.memory?) (flight : τ.inFlight = σ.inFlight)
    (next : σ.nextSubscriber ≤ τ.nextSubscriber)
    (kept : ∀ sub ∈ τ.subscribers, sub.id = id → sub ∈ σ.subscribers) :
    Streams first start id history τ := by
  obtain ⟨log, logged⟩ := streams.logged
  have logged' := logged.of_same memory flight
  refine ⟨wf, ⟨log, logged'⟩, streams.joined.trans_le next, streams.read, ?_⟩
  intro sub member own
  rw [logged'.published, ← logged.published]
  exact streams.ready sub (kept sub member own) own

/-- Taking an event from another stream's queue, or from none, changes nothing for this one. -/
theorem Streams.popped (streams : Streams first start id history σ) {stream : Nat} {sub : Subscriber Ref}
    {event : Event Ref} {queue : List (Event Ref)} (found : σ.subscribers.find? (·.id = stream) = some sub)
    (queued : sub.queue = event :: queue) (now : Nat) (reply : Reply)
    (shown : handed id (.deliver now stream, reply) = if stream = id then event.item? else none) :
    Streams first start id (history ++ [(.deliver now stream, reply)]) (σ.popped stream queue) := by
  obtain ⟨log, logged⟩ := streams.logged
  have memory : (σ.popped stream queue).memory? = σ.memory? := memory?_congr rfl rfl rfl
  have logged' : (σ.popped stream queue).Logged first log := logged.of_same memory rfl
  have wf : (σ.popped stream queue).Wf := by
    refine streams.wf.of_same rfl rfl rfl ?_
    intro s member e inQueue a named
    obtain ⟨old, was, rfl⟩ := List.mem_map.mp member
    split at inQueue
    · exact streams.wf.queued sub (List.mem_of_find?_eq_some found) e
        (queued ▸ List.mem_cons_of_mem _ inQueue) a named
    · exact streams.wf.queued old was e inQueue a named
  have published : (σ.popped stream queue).published = σ.published := by
    rw [logged'.published, logged.published]
  by_cases own : stream = id
  · subst own
    rw [if_pos rfl] at shown
    have items : sub.items = event.item?.toList ++ queue.filterMap Event.item? := by
      rw [Subscriber.items, queued]
      cases taken : event.item? <;> simp [taken]
    have ready := streams.ready sub (List.mem_of_find?_eq_some found) (by simpa using List.find?_some found)
    rw [items, ← List.append_assoc] at ready
    have same : received stream (history ++ [(.deliver now stream, reply)]) =
        received stream history ++ event.item?.toList := by rw [received_snoc, shown]
    refine ⟨wf, ⟨log, logged'⟩, streams.joined, same ▸ ready.reads, ?_⟩
    intro s member here
    obtain ⟨old, was, rfl⟩ := List.mem_map.mp member
    have here' : old.id = stream := by
      split at here <;> exact here
    rw [published, same, if_pos here']
    exact ready
  · rw [if_neg own] at shown
    have same : received id (history ++ [(.deliver now stream, reply)]) = received id history := by
      rw [received_snoc, shown, Option.toList_none, List.append_nil]
    refine ⟨wf, ⟨log, logged'⟩, streams.joined, same ▸ streams.read, ?_⟩
    intro s member here
    obtain ⟨old, was, rfl⟩ := List.mem_map.mp member
    have other : old.id ≠ stream := by
      intro same
      rw [if_pos same] at here
      exact own (same.symm.trans here)
    rw [if_neg other] at here ⊢
    rw [published, same]
    exact streams.ready old was here

theorem Streams.deliver (streams : Streams first start id history σ) (now stream : Nat) :
    Streams first start id (history ++ [(.deliver now stream, (σ.deliver now stream).2)])
      (σ.deliver now stream).1 := by
  have wf := deliver_wf streams.wf now stream
  rcases deliver_cases now stream σ with same | ⟨sub, event, queue, found, queued, ⟨other, same⟩ | ⟨rfl, resolved⟩⟩
  · rw [same]
    exact streams.publishes {} streams.wf (fun logged => (Looked.refl σ).publishes {} logged) rfl
  · rw [same]
    exact streams.popped found queued now _ (by rw [handed, Event.item?_map])
  · obtain ⟨memory, sameFlight, sameSubscribers, sameNext⟩ := catchUp_frame now none (σ.popped stream queue)
    have popped := streams.popped found queued now
    rcases resolved with same | ⟨⟨seq, session, claims, leases, answer⟩, same⟩
    · rw [same] at wf ⊢
      generalize gone : ((σ.popped stream queue).catchUp now none).1 = υ at *
      have left : ({ υ with subscribers := υ.subscribers.filter (·.id ≠ stream) } : Server).memory? =
          υ.memory? := memory?_congr rfl rfl rfl
      by_cases own : stream = id
      · subst own
        have silent : received stream (history ++ [(.deliver now stream, .event .sessionDeleted)]) =
            received stream history := by
          rw [received_snoc]
          simp [handed, Event.item?]
        obtain ⟨log, logged⟩ := streams.logged
        have before : (σ.popped stream queue).memory? = σ.memory? := memory?_congr rfl rfl rfl
        refine ⟨wf, ⟨log, logged.of_same (left.trans (memory.trans before)) sameFlight⟩,
          sameNext.symm ▸ streams.joined, silent ▸ streams.read, ?_⟩
        intro s member here
        simpa [here] using (List.mem_filter.mp member).2
      · refine (popped _ (by rw [handed, if_neg own, if_neg own])).of_subscribers wf (left.trans memory)
          sameFlight sameNext.ge ?_
        intro s member here
        exact sameSubscribers ▸ (List.mem_filter.mp member).1
    · rw [same] at wf ⊢
      refine (popped _ (by rw [answer]; rfl)).of_subscribers wf memory sameFlight sameNext.ge ?_
      intro s member here
      exact sameSubscribers ▸ member

theorem Streams.settled (streams : Streams first start id history σ) (action : Action) :
    Streams first start id history (σ.settled action) := by
  cases action with
  | connect =>
    refine streams.of_subscribers (joined_wf streams.wf) (memory?_congr rfl rfl rfl) rfl (Nat.le_succ _) ?_
    intro sub member own
    rcases List.mem_append.mp member with old | new
    · exact old
    · rw [List.mem_singleton] at new
      subst new
      exact absurd own (Nat.ne_of_gt streams.joined)
  | disconnect stream client last =>
    have filtered : (σ.settled (.disconnect stream client last)).Wf :=
      streams.wf.of_same rfl rfl rfl fun sub member => streams.wf.queued sub (List.mem_filter.mp member).1
    exact streams.of_subscribers filtered (memory?_congr rfl rfl rfl) rfl (le_refl _)
      fun sub member own => (List.mem_filter.mp member).1
  | _ => exact streams

/-- Every action that is not excluded keeps a stream gap-free. -/
theorem Streams.step (streams : Streams first start id history σ) {action : Action} {reply : Reply}
    (undisturbed : σ.undisturbed action = true) (stepped : σ.step cfg action = some (τ, reply)) :
    Streams first start id (history ++ [(action, reply)]) τ := by
  by_cases delivery : ∃ now stream, action = .deliver now stream
  · obtain ⟨now, stream, rfl⟩ := delivery
    have delivered := streams.deliver now stream
    rw [Option.some.inj stepped] at delivered
    exact delivered
  · have other : ∀ now stream, action ≠ .deliver now stream := fun now stream same => delivery ⟨now, stream, same⟩
    have silent : handed id (action, reply) = none := by
      cases action with
      | deliver now stream => exact absurd rfl (other now stream)
      | _ => rfl
    refine (streams.settled action).publishes cfg (step_wf streams.wf stepped) (fun logged => ?_) silent
    exact step_publishes logged.of_settled streams.wf undisturbed other stepped

/-- The ids of the subscribers are below the next one to be given. -/
def FreshIds (σ : Server) : Prop := ∀ sub ∈ σ.subscribers, sub.id < σ.nextSubscriber

theorem broadcast_ids {queueMax : Nat} {events : List (Event Ref)} {subs : List (Subscriber Ref)}
    {sub : Subscriber Ref} (member : sub ∈ broadcast queueMax events subs) : ∃ old ∈ subs, old.id = sub.id := by
  induction events generalizing subs with
  | nil => exact ⟨sub, member, rfl⟩
  | cons event events ih =>
    obtain ⟨middle, was, same⟩ := ih member
    obtain ⟨old, before, rfl⟩ := List.mem_map.mp was
    refine ⟨old, before, same ▸ ?_⟩
    unfold Subscriber.put
    split <;> rfl

theorem FreshIds.broadcast (fresh : σ.FreshIds) {queueMax : Nat} {events : List (Event Ref)}
    (sent : τ.subscribers = MetadataGraph.broadcast queueMax events σ.subscribers)
    (next : τ.nextSubscriber = σ.nextSubscriber) : τ.FreshIds := by
  intro sub member
  rw [sent] at member
  obtain ⟨old, was, same⟩ := broadcast_ids member
  rw [next, ← same]
  exact fresh old was

theorem FreshIds.settled (fresh : σ.FreshIds) (action : Action) : (σ.settled action).FreshIds := by
  cases action with
  | connect =>
    intro sub member
    rcases List.mem_append.mp member with old | new
    · exact Nat.lt_succ_of_lt (fresh sub old)
    · rw [List.mem_singleton] at new
      subst new
      exact Nat.lt_succ_self _
  | disconnect stream client last => exact fun sub member => fresh sub (List.mem_filter.mp member).1
  | _ => exact fresh

theorem FreshIds.popped (fresh : σ.FreshIds) (stream : Nat) (queue : List (Event Ref)) :
    (σ.popped stream queue).FreshIds := by
  intro sub member
  obtain ⟨old, was, rfl⟩ := List.mem_map.mp member
  have bound := fresh old was
  split <;> exact bound

theorem step_fresh (fresh : σ.FreshIds) (wf : σ.Wf) (logged : ∃ first log, σ.Logged first log) {action : Action}
    {reply : Reply} (stepped : σ.step cfg action = some (τ, reply)) : τ.FreshIds := by
  obtain ⟨first, log, logged⟩ := logged
  by_cases undisturbed : σ.undisturbed action = true
  · by_cases delivery : ∃ now stream, action = .deliver now stream
    · obtain ⟨now, stream, rfl⟩ := delivery
      have left : (σ.deliver now stream).1 = τ := congrArg Prod.fst (Option.some.inj stepped)
      rcases deliver_cases now stream σ with same | ⟨sub, event, queue, -, -, ⟨-, same⟩ | ⟨-, resolved⟩⟩
      · rw [← left, same]
        exact fresh
      · rw [← left, same]
        exact fresh.popped stream queue
      · obtain ⟨-, -, subscribers, next⟩ := catchUp_frame now none (σ.popped stream queue)
        have popped := fresh.popped stream queue
        rcases resolved with same | ⟨-, same⟩
        · rw [← left, same]
          intro s member
          rw [subscribers] at member
          exact next.symm ▸ popped s (List.mem_filter.mp member).1
        · rw [← left, same]
          intro s member
          rw [subscribers] at member
          exact next.symm ▸ popped s member
    · obtain ⟨events, sent, -, -, next⟩ := step_publishes logged wf undisturbed
        (fun now stream same => delivery ⟨now, stream, same⟩) stepped
      exact (fresh.settled action).broadcast sent next
  · cases action with
    | cancel =>
      obtain ⟨batch, -, same⟩ := Option.map_eq_some_iff.mp stepped
      cases same
      exact fresh
    | workerDone index landed =>
      obtain ⟨snapshot, -, same⟩ := Option.map_eq_some_iff.mp stepped
      cases same
      exact fresh
    | delete =>
      simp only [Server.step] at stepped
      split at stepped
      · cases stepped
      · cases stepped
        unfold Server.delete
        dsimp only
        split
        · have sent : MetadataGraph.publish cfg.queueMax .sessionDeleted σ.subscribers =
              MetadataGraph.broadcast cfg.queueMax [.sessionDeleted] σ.subscribers := rfl
          exact fresh.broadcast sent rfl
        · exact fresh
    | restart landed =>
      cases stepped
      intro s member
      cases member
    | _ => exact absurd rfl undisturbed

/-- Of every reachable server: it is well-formed, its ops are numbered in a row, and no
subscriber has an id that is still to be given. -/
theorem run_logged {disk : Option (Session Annotation)} {history : List (Action × Reply)}
    (run : Run (step cfg) (fun _ _ _ => True) { disk := disk } history σ) :
    σ.Wf ∧ (∃ first log, σ.Logged first log) ∧ σ.FreshIds := by
  apply run.invariant fun _ σ => σ.Wf ∧ (∃ first log, σ.Logged first log) ∧ σ.FreshIds
  · refine ⟨fresh_wf disk, logged_of_unloaded rfl rfl, fun s member => ?_⟩
    cases member
  · rintro history σ action τ reply ⟨wf, logged, fresh⟩ - stepped
    exact ⟨step_wf wf stepped, step_logged wf logged stepped, step_fresh fresh wf logged stepped⟩

/-- A freshly joined stream has read nothing and misses nothing. -/
theorem streams_joined (wf : σ.Wf) (logged : ∃ log, σ.Logged first log) (fresh : σ.FreshIds) :
    Streams first (σ.published + 1) σ.nextSubscriber [] σ.joined := by
  obtain ⟨log, logged⟩ := logged
  have joined : σ.joined.Logged first log := logged.of_same (memory?_congr rfl rfl rfl) rfl
  have published : σ.joined.published = σ.published := by rw [joined.published, logged.published]
  refine ⟨joined_wf wf, ⟨log, joined⟩, Nat.lt_succ_self _, ⟨_, .nil⟩, ?_⟩
  intro sub member own
  rcases List.mem_append.mp member with old | new
  · exact absurd own (Nat.ne_of_lt (fresh sub old))
  · rw [List.mem_singleton] at new
    subst new
    rw [published]
    exact ready_start _

/-- In every run the ring is a contiguous run of numbers that ends at the number of the
session, and a stream that no cancelled batch disturbs is read without a gap. -/
theorem streams_gap_free (disk : Option (Session Annotation)) :
    (∀ history σ, Run (step cfg) (fun _ _ _ => True) { disk := disk } history σ → ∀ m ∈ σ.memory?,
      EndsAt (m.ring.map Applied.seq) m.session.seq) ∧
    ∀ before σ ρ reply history τ, Run (step cfg) (fun _ _ _ => True) { disk := disk } before σ →
      σ.step cfg .connect = some (ρ, reply) →
      Run (step cfg) (fun _ σ action => σ.undisturbed action = true) ρ history τ →
      ∃ expected, Reads (some (σ.published + 1)) (received σ.nextSubscriber history) expected := by
  constructor
  · intro history σ run m held
    obtain ⟨-, ⟨first, log, logged⟩, -⟩ := run_logged run
    have seq := logged.seq
    rw [Option.mem_def.mp held, Option.map_some, Option.getD_some] at seq
    rw [seq]
    exact logged.numbered.endsAt (logged.ring m held)
  · intro before σ ρ reply history τ opened connected run
    obtain ⟨wf, ⟨first, logged⟩, fresh⟩ := run_logged opened
    cases connected
    have joined := streams_joined wf logged fresh
    have connected : Streams first (σ.published + 1) σ.nextSubscriber [(.connect, .done)] (σ.connect cfg) :=
      joined.publishes cfg (connect_wf wf) (fun logged => publish_publishes logged rfl trivial) rfl
    exact (run.invariant
      (fun history τ => Streams first (σ.published + 1) σ.nextSubscriber ((.connect, .done) :: history) τ)
      connected fun streams undisturbed stepped => streams.step undisturbed stepped).read

/-- A subscriber joins, a batch is cancelled while it awaits its persist, and the next one
is committed. -/
def cancelledRun : List Action :=
  [.applyOps 0 "ada" [.state sampleEnv (.nodesAdded (.ofStrings ["n"]))], .cancel,
    .applyOps 0 "ada" [.state sampleEnv (.nodesAdded (.ofStrings ["m"]))], .persistDone 0 true,
    .deliver 0 0, .deliver 0 0]

/-- The subscriber is handed number 3 where it expects number 2, and no marker before it. -/
theorem cancelledRun_leaves_gap :
    ∃ before ρ history τ, Run (step {}) (fun _ _ _ => True) { disk := none } before sample ∧
      sample.step {} .connect = some (ρ, .done) ∧ Run (step {}) (fun _ _ _ => True) ρ history τ ∧
      received sample.nextSubscriber history = [.entry 3] ∧ sample.published = 1 ∧
      ¬∃ expected, Reads (some (sample.published + 1)) (received sample.nextSubscriber history) expected := by
  obtain ⟨before, opened⟩ := sample_reachable
  have taken : ((trace (step {}) (fun _ _ => true) [] (sample.connect {}) cancelledRun).map fun ended =>
      received sample.nextSubscriber ended.1) = some [.entry 3] := by decide +kernel
  have published : sample.published = 1 := by decide +kernel
  obtain ⟨⟨history, τ⟩, traced, items⟩ := Option.map_eq_some_iff.mp taken
  refine ⟨before, _, history, τ, opened, rfl, Run.of_trace traced, items, published, ?_⟩
  rintro ⟨expected, reads⟩
  rw [show received sample.nextSubscriber history = [.entry 3] from items, published] at reads
  cases reads with
  | entry awaited _ => simp at awaited

/-- A subscriber joins and is handed the op of a batch. -/
theorem streams_gap_free_sample :
    ∃ history expected, received sample.nextSubscriber history = [.entry 2] ∧
      Reads (some (sample.published + 1)) (received sample.nextSubscriber history) expected := by
  obtain ⟨before, opened⟩ := sample_reachable
  have taken : ((trace (step {}) undisturbed [] (sample.connect {})
      [.applyOps 0 "ada" [.state sampleEnv (.nodesAdded (.ofStrings ["n"]))], .persistDone 0 true,
        .deliver 0 0, .deliver 0 0]).map fun ended => received sample.nextSubscriber ended.1) =
      some [.entry 2] := by decide +kernel
  obtain ⟨⟨history, τ⟩, traced, items⟩ := Option.map_eq_some_iff.mp taken
  obtain ⟨expected, reads⟩ := (streams_gap_free none).2 before sample _ _ history τ opened rfl (.trace .start traced)
  exact ⟨history, expected, items, reads⟩

end Server

end MetadataGraph
