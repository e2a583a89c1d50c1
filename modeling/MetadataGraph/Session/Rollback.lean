import MetadataGraph.Session.Flight
import MetadataGraph.Session.Recovery
import MetadataGraph.Session.Twin

namespace MetadataGraph

open ObjectHeap Runs

namespace Holders

/-- Pruning at one time does not show in any later snapshot. -/
theorem prune_prune {now later : Nat} (held : Holders) (after : now ≤ later) :
    (held.prune now).prune later = held.prune later := by
  apply Std.ExtTreeMap.ext_getElem?
  intro id
  rw [getElem?_prune, getElem?_prune, getElem?_prune, Option.filter_filter]
  congr 1
  funext h
  rw [← Bool.decide_and]
  exact decide_eq_decide.mpr ⟨And.right, fun live => ⟨after.trans_lt live, live⟩⟩

theorem snapshot_prune {now later : Nat} (held : Holders) (after : now ≤ later) :
    (held.prune now).snapshot later = held.snapshot later := by
  rw [snapshot, prune_prune held after, snapshot]

end Holders

namespace Server

variable {cfg : ManagerConfig}

/-- What a call that raised must leave: the session, the answer to every catch-up, the live
leases, the claims and the queues as they were, and every later batch as it would have been. -/
structure Unchanged (cfg : ManagerConfig) (now : Nat) (σ τ : Server) : Prop where
  session : τ.session? = σ.session?
  ops : ∀ sinceSeq, τ.opsSince? sinceSeq = σ.opsSince? sinceSeq
  leases : ∀ t ≥ now, τ.leases.snapshot t = σ.leases.snapshot t
  claims : τ.claims = σ.claims
  published : τ.subscribers = σ.subscribers
  later : ∀ t ≥ now, ∀ client ops persists,
    τ.batchOutcome cfg t client ops persists = σ.batchOutcome cfg t client ops persists

/-- The condition on a batch: of the ops that its loop reaches, none that is applied deletes
an annotation or assigns to an annotation object that a ring entry shares, and one that
raises has not assigned to such an object half-way. -/
def RecoverableBatch (cfg : ManagerConfig) (now : Nat) (client : String) (ops : List BatchOp)
    (σ : Server) : Prop :=
  ∀ base ∈ σ.get?, Walk.Recoverable cfg client (ringRefs base.memory.ring) ops
    { memory := base.memory, leases := (base.leases.prune now).snapshot now }

instance (cfg : ManagerConfig) (now : Nat) (client : String) (ops : List BatchOp) (σ : Server) :
    Decidable (RecoverableBatch cfg now client ops σ) :=
  inferInstanceAs (Decidable (∀ base ∈ σ.get?, _))

/-- The server that a call found, with what the other clients did in the meantime. -/
def withOthers (σ ρ : Server) : Server :=
  { σ with claims := ρ.claims, leases := ρ.leases, subscribers := ρ.subscribers }

theorem opsSince?_of_loaded {σ : Server} (loaded : σ.loaded = true) (sinceSeq : Int) :
    σ.opsSince? sinceSeq = (σ.memory.opsSince sinceSeq).map (·.map (Applied.map σ.memory.heap.read)) := by
  rw [opsSince?, get?_of_loaded loaded, Option.bind_some]

/-- Catch-up answers from equal rings that read the same are the same. -/
theorem opsSince_congr {m n : Memory} (seq : m.session.seq = n.session.seq) (ring : m.ring = n.ring)
    (entries : m.entries = n.entries) (sinceSeq : Int) :
    (m.opsSince sinceSeq).map (·.map (Applied.map m.heap.read)) =
      (n.opsSince sinceSeq).map (·.map (Applied.map n.heap.read)) := by
  have reads : ∀ a ∈ n.ring, a.map m.heap.read = a.map n.heap.read := by
    have same := entries
    simp only [Memory.entries, ring] at same
    exact List.map_inj_left.mp same
  unfold Memory.opsSince
  rw [seq, ring]
  split
  · rfl
  · split
    · rfl
    · split
      · rfl
      · simp only [Option.map_some, Option.some.injEq]
        exact List.map_congr_left fun a member => reads a (List.mem_filter.mp member).1

/-- A rollback of a recoverable failure brings back what readers saw before. -/
theorem rolledBack_reads {base σ : Server} (got : σ.get? = some base) (wf : base.memory.Wf) {after : Memory}
    (grown : base.memory.heap.size ≤ after.heap.size)
    (keeps : Walk.Keeps base.memory (ringRefs base.memory.ring) after) {name : Option String}
    (sameName : name = base.memory.session.name) {τ : Server} (loaded : τ.loaded = true)
    (memory : τ.memory = after.restore base.memory.view base.memory.ring name) :
    τ.session? = σ.session? ∧ ∀ sinceSeq, τ.opsSince? sinceSeq = σ.opsSince? sinceSeq := by
  obtain ⟨view, entries⟩ := Memory.restore_reads wf grown keeps sameName
  constructor
  · rw [session?_of_loaded loaded, memory, view, session?, got, Option.map_some]
  · intro sinceSeq
    rw [opsSince?_of_loaded loaded, memory, opsSince?, got, Option.bind_some]
    refine opsSince_congr ?_ ?_ entries sinceSeq <;> rfl

theorem unchanged_of_reads {σ τ : Server} {now : Nat} (wf : ∀ base, σ.get? = some base → base.memory.Wf)
    (wf' : ∀ base, τ.get? = some base → base.memory.Wf) (idle : σ.inFlight = none)
    (idle' : τ.inFlight = none) (session : τ.session? = σ.session?)
    (ops : ∀ sinceSeq, τ.opsSince? sinceSeq = σ.opsSince? sinceSeq)
    (leases : ∀ t ≥ now, τ.leases.prune t = σ.leases.prune t) (claims : τ.claims = σ.claims)
    (published : τ.subscribers = σ.subscribers) : Unchanged cfg now σ τ :=
  { session := session, ops := ops, claims := claims, published := published
    leases := fun t after => by rw [Holders.snapshot, leases t after, Holders.snapshot]
    later := fun t after client ops persists =>
      batchOutcome_congr wf' wf idle' idle session (leases t after) claims client ops persists }

theorem get?_withOthers {σ base : Server} (got : σ.get? = some base) (ρ : Server) :
    (σ.withOthers ρ).get? = some (base.withOthers ρ) := by
  rcases get?_cases got with ⟨loaded, rfl⟩ | ⟨unloaded, saved, onDisk, rfl⟩
  · exact get?_of_loaded loaded
  · simp only [get?, withOthers, unloaded, onDisk, Bool.false_eq_true, if_false, Option.map_some, load]

theorem Unchanged.refl (cfg : ManagerConfig) (now : Nat) (σ : Server) : Unchanged cfg now σ σ :=
  ⟨rfl, fun _ => rfl, fun _ _ => rfl, rfl, rfl, fun _ _ _ _ _ => rfl⟩

/-- A batch that rolls back to `base` what a recoverable walk has left changes nothing. -/
theorem unchanged_of_rollback {σ base τ : Server} {now : Nat} (got : σ.get? = some base)
    (wf : base.memory.Wf) (idle : σ.inFlight = none) {after : Memory} (grown : base.memory.heap.size ≤ after.heap.size)
    (keeps : Walk.Keeps base.memory (ringRefs base.memory.ring) after) (loaded : τ.loaded = true)
    (idle' : τ.inFlight = none)
    (memory : τ.memory = after.restore base.memory.view base.memory.ring base.memory.session.name)
    (leases : ∀ t ≥ now, τ.leases.prune t = σ.leases.prune t) (claims : τ.claims = σ.claims)
    (published : τ.subscribers = σ.subscribers) : Unchanged cfg now σ τ := by
  obtain ⟨session, ops⟩ := rolledBack_reads got wf grown keeps rfl loaded memory
  refine unchanged_of_reads ?_ ?_ idle idle' session ops leases claims published
  · intro base' got'
    rw [got] at got'
    cases got'
    exact wf
  · intro base' got'
    rw [get?_of_loaded loaded] at got'
    cases got'
    rw [memory]
    exact Memory.restore_wf _ _ fun entry inRing => (wf.ringValid entry inRing).mono grown

/-- The end of a batch whose persist fails after a recoverable walk. -/
theorem unchanged_of_persistFailed {σ base ρ τ : Server} {later : Nat} (got : σ.get? = some base)
    (wf : base.memory.Wf) (idle : σ.inFlight = none) {after : Memory}
    (grown : base.memory.heap.size ≤ after.heap.size)
    (keeps : Walk.Keeps base.memory (ringRefs base.memory.ring) after) {batch : InFlight}
    (during : ρ.memory = after ∧ ρ.loaded = true ∧ ρ.inFlight = some batch)
    (saved : batch.saved = base.memory.view) (savedRing : batch.savedRing = base.memory.ring) {reply : Reply}
    (stepped : ρ.step cfg (.persistDone later false) = some (τ, reply)) :
    reply = .raised .persistFailed ∧ Unchanged cfg later (σ.withOthers ρ) τ := by
  obtain ⟨rfl, loaded, flying⟩ := during
  simp only [step, flying, Option.map_some, persistDone, Bool.false_eq_true, if_false, saved, savedRing] at stepped
  cases stepped
  exact ⟨rfl, unchanged_of_rollback (get?_withOthers got ρ) wf idle grown keeps loaded rfl rfl
    (fun _ _ => rfl) rfl rfl⟩

theorem commit_applied (cfg : ManagerConfig) (now : Nat) (client : String) (pending : List (Pending Ref))
    (σ : Server) : ∃ entries seq, (σ.commit cfg now client pending).2 = .applied entries seq := ⟨_, _, rfl⟩

/-- What a recoverable batch leaves when it raises, and what its end leaves when it waits for
a persist that fails. -/
theorem recoverable_unchanged {σ : Server} {now : Nat} {client : String} {ops : List BatchOp} (wf : σ.Wf)
    (recoverable : RecoverableBatch cfg now client ops σ) :
    (∀ τ failure, σ.step cfg (.applyOps now client ops) = some (τ, .raised failure) →
      Unchanged cfg now σ τ) ∧
    ∀ ρ, σ.step cfg (.applyOps now client ops) = some (ρ, .suspended) →
      ρ.subscribers = σ.subscribers ∧ ρ.claims = σ.claims ∧
      (∀ t ≥ now, ρ.leases.snapshot t = σ.leases.snapshot t) ∧
      ∀ between ρ', Run (step cfg) (fun _ _ action => action.meanwhile = true) ρ between ρ' →
        ∀ later τ reply, ρ'.step cfg (.persistDone later false) = some (τ, reply) →
          reply = .raised .persistFailed ∧ Unchanged cfg later (σ.withOthers ρ') τ := by
  by_cases busy : σ.inFlight.isSome = true
  · simp [step, busy]
  have idle : σ.inFlight = none := by simpa using busy
  have begun : σ.step cfg (.applyOps now client ops) = some (σ.applyOps cfg now client ops) := by
    simp only [step, idle, Option.isSome_none, Bool.false_eq_true, if_false]
  rw [begun]
  simp only [Option.some.injEq]
  rcases applyOps_cases cfg now client ops σ with ⟨-, same⟩ | ⟨base, got, ended⟩
  · rw [same]
    exact ⟨fun τ failure left => (Prod.mk.inj left).1 ▸ Unchanged.refl cfg now σ,
      fun _ left => by cases (Prod.mk.inj left).2⟩
  · have baseWf := get?_wf wf got
    obtain ⟨sameFlight, sameSubscribers, sameLeases, sameClaims, -⟩ := get?_frame got
    have loaded := loaded_of_get? got
    have below := Memory.ringRefs_below baseWf.memory
    have sound : Walk.Sound base.memory.heap.size
        { memory := base.memory, leases := (base.leases.prune now).snapshot now } :=
      ⟨baseWf.memory, le_refl _, by simp⟩
    obtain ⟨okKeeps, errorKeeps⟩ := Walk.run_keeps below sound ⟨fun _ _ => rfl, rfl⟩ (recoverable base got)
    obtain ⟨okSound, errorGrown⟩ :=
      Walk.run_sound cfg client baseWf.memory ((base.leases.prune now).snapshot now) ops
    have pruned : ∀ t ≥ now, (base.leases.prune now).prune t = σ.leases.prune t := fun t after => by
      rw [Holders.prune_prune base.leases after, sameLeases]
    rcases ended with ⟨failure, m, failed, same⟩ | ⟨w, walked, ⟨-, same⟩ | ⟨-, ⟨-, same⟩ | ⟨-, same⟩⟩⟩
    · rw [same]
      refine ⟨?_, fun _ left => by cases (Prod.mk.inj left).2⟩
      rintro _ _ ⟨⟩
      exact unchanged_of_rollback got baseWf.memory idle (errorGrown _ m failed) (errorKeeps _ m failed)
        loaded (sameFlight.trans idle) rfl pruned sameClaims sameSubscribers
    · rw [same]
      obtain ⟨entries, seq, replied⟩ := commit_applied cfg now client w.pending
        { base with leases := base.leases.prune now, memory := w.memory }
      exact ⟨fun _ _ left => (by cases replied.symm.trans (congrArg Prod.snd left)),
        fun _ left => (by cases replied.symm.trans (congrArg Prod.snd left))⟩
    · rw [same]
      refine ⟨?_, fun _ left => by cases (Prod.mk.inj left).2⟩
      rintro _ _ ⟨⟩
      exact unchanged_of_rollback got baseWf.memory idle (okSound w walked).grown (okKeeps w walked)
        loaded (sameFlight.trans idle) rfl pruned sameClaims sameSubscribers
    · rw [same]
      refine ⟨fun _ _ left => (by cases (Prod.mk.inj left).2), ?_⟩
      rintro _ ⟨⟩
      refine ⟨sameSubscribers, sameClaims, fun t after => ?_, ?_⟩
      · rw [Holders.snapshot, pruned t after, Holders.snapshot]
      · intro between ρ' others later τ reply stepped
        have during := meanwhile_run others loaded rfl
        exact unchanged_of_persistFailed got baseWf.memory idle (okSound w walked).grown (okKeeps w walked)
          during rfl rfl stepped

/-- All or nothing: a recoverable batch that raises, before its persist or because the
persist fails, leaves no trace, whatever the other clients do while it waits. -/
theorem applyOps_raised_unchanged {history : List (Action × Reply)} {σ : Server} {now : Nat}
    {client : String} {ops : List BatchOp}
    (run : Run (step cfg) (fun _ _ _ => True) {} history σ)
    (recoverable : RecoverableBatch cfg now client ops σ) :
    (∀ τ failure, σ.step cfg (.applyOps now client ops) = some (τ, .raised failure) →
      Unchanged cfg now σ τ) ∧
    ∀ ρ, σ.step cfg (.applyOps now client ops) = some (ρ, .suspended) →
      ρ.subscribers = σ.subscribers ∧ ρ.claims = σ.claims ∧
      (∀ t ≥ now, ρ.leases.snapshot t = σ.leases.snapshot t) ∧
      ∀ between ρ', Run (step cfg) (fun _ _ action => action.meanwhile = true) ρ between ρ' →
        ∀ later τ reply, ρ'.step cfg (.persistDone later false) = some (τ, reply) →
          reply = .raised .persistFailed ∧ Unchanged cfg later (σ.withOthers ρ') τ :=
  recoverable_unchanged (run_wf run) recoverable

theorem step_applyOps {σ : Server} {now : Nat} {client : String} {ops : List BatchOp} {reply : Reply}
    (idle : σ.inFlight.isSome = false) (replied : (σ.applyOps cfg now client ops).2 = reply) :
    σ.step cfg (.applyOps now client ops) = some ((σ.applyOps cfg now client ops).1, reply) := by
  rw [step, idle, ← replied]
  rfl

/-- A batch that edits a note which the ring shares, deletes it and then fails. -/
def spoiledBatch : List BatchOp :=
  [.state sampleEnv (.annotationUpdated (some (sampleNote "a" "second")) .null),
    .state sampleEnv (.annotationDeleted (.str "a") .null), .state sampleEnv (.nodesAdded .null)]

/-- The failed batch has rewritten an op of the ring, and the session refuses to create the
note's id again. -/
theorem spoiledBatch_leaves_traces :
    ∃ history τ, Run (step {}) (fun _ _ _ => True) {} history sample ∧
      sample.step {} (.applyOps 0 "ada" spoiledBatch) =
        some (τ, .raised (.opError "nodes_added: 'node_ids' must be a list of strings")) ∧
      τ.opsSince? 0 ≠ sample.opsSince? 0 ∧
      τ.session?.map (·.deletedAnnotationIds) ≠ sample.session?.map (·.deletedAnnotationIds) ∧
      ¬Unchanged {} 0 sample τ := by
  obtain ⟨history, run⟩ := sample_reachable
  have rewritten : (sample.applyOps {} 0 "ada" spoiledBatch).1.opsSince? 0 ≠ sample.opsSince? 0 := by
    decide +kernel
  exact ⟨history, _, run, step_applyOps (by decide +kernel) (by decide +kernel), rewritten,
    by decide +kernel, fun same => rewritten (same.ops 0)⟩

/-- A batch whose second op fails, and one whose persist fails. -/
theorem applyOps_raised_unchanged_sample :
    (∃ τ failure, sample.step {} (.applyOps 0 "ada" [.state sampleEnv (.nodesAdded (.ofStrings ["n"])),
        .state sampleEnv (.nodesAdded .null)]) = some (τ, .raised failure) ∧ Unchanged {} 0 sample τ) ∧
      ∃ ρ τ, sample.step {} (.applyOps 0 "ada" [.state sampleEnv (.nodesAdded (.ofStrings ["n"]))]) =
          some (ρ, .suspended) ∧
        ρ.step {} (.persistDone 5 false) = some (τ, .raised .persistFailed) ∧
        Unchanged {} 5 (sample.withOthers ρ) τ := by
  obtain ⟨history, run⟩ := sample_reachable
  constructor
  · have failed : sample.step {} (.applyOps 0 "ada" [.state sampleEnv (.nodesAdded (.ofStrings ["n"])),
        .state sampleEnv (.nodesAdded .null)]) =
        some (_, .raised (.opError "nodes_added: 'node_ids' must be a list of strings")) :=
      step_applyOps (by decide +kernel) (by decide +kernel)
    exact ⟨_, _, failed, (applyOps_raised_unchanged run (by decide +kernel)).1 _ _ failed⟩
  · have begun : sample.step {} (.applyOps 0 "ada" [.state sampleEnv (.nodesAdded (.ofStrings ["n"]))]) =
        some (_, .suspended) :=
      step_applyOps (by decide +kernel) (by decide +kernel)
    obtain ⟨-, -, -, ended⟩ := (applyOps_raised_unchanged run (by decide +kernel)).2 _ begun
    obtain ⟨failed, unchanged⟩ := ended [] _ .start 5 _ _ rfl
    exact ⟨_, _, begun, congrArg _ (Prod.ext rfl failed), unchanged⟩

end Server

end MetadataGraph
