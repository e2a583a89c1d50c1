import Mathlib.Data.List.Forall2
import MetadataGraph.Session.Wellformed

namespace MetadataGraph

open ObjectHeap

/-- The same op over corresponding annotation objects. -/
def Applied.Twin (R : Ref → Ref → Prop) (a b : Applied Ref) : Prop :=
  ∃ both : Applied (Ref × Ref), a = both.map Prod.fst ∧ b = both.map Prod.snd ∧
    ∀ p ∈ both.op.shared?, R p.1 p.2

theorem Applied.Twin.reads {R : Ref → Ref → Prop} {a b : Applied Ref} (twin : a.Twin R b)
    {h k : Heap Annotation} (twins : Heap.Twins R h k) : a.map h.read = b.map k.read := by
  obtain ⟨both, rfl, rfl, related⟩ := twin
  rw [Applied.map_map, Applied.map_map, Applied.map, Applied.map]
  congr 1
  exact AppliedOp.map_congr fun p member => twins.same (related p member)

theorem Applied.Twin.mono {R S : Ref → Ref → Prop} {a b : Applied Ref} (twin : a.Twin R b)
    (weaken : ∀ {r s}, R r s → S r s) : a.Twin S b := by
  obtain ⟨both, left, right, related⟩ := twin
  exact ⟨both, left, right, fun p member => weaken (related p member)⟩

/-- The same pending entry over corresponding annotation objects. -/
inductive Pending.Twin (R : Ref → Ref → Prop) : Pending Ref → Pending Ref → Prop where
  | state {a b : Applied Ref} : a.Twin R b → Pending.Twin R (.state a) (.state b)
  | selectionClaimed (ids : List String) : Pending.Twin R (.selectionClaimed ids) (.selectionClaimed ids)
  | selectionReleased (ids : List String) : Pending.Twin R (.selectionReleased ids) (.selectionReleased ids)
  | leaseAcquired (granted : List String) (denied : Dict String) :
      Pending.Twin R (.leaseAcquired granted denied) (.leaseAcquired granted denied)
  | leaseReleased (released : List String) : Pending.Twin R (.leaseReleased released) (.leaseReleased released)

theorem Pending.Twin.mono {R S : Ref → Ref → Prop} {p q : Pending Ref} (twin : p.Twin R q)
    (weaken : ∀ {r s}, R r s → S r s) : p.Twin S q := by
  cases twin with
  | state twin => exact .state (twin.mono weaken)
  | selectionClaimed ids => exact .selectionClaimed ids
  | selectionReleased ids => exact .selectionReleased ids
  | leaseAcquired granted denied => exact .leaseAcquired granted denied
  | leaseReleased released => exact .leaseReleased released

theorem Pending.Twin.reads {R : Ref → Ref → Prop} {p q : Pending Ref} (twin : p.Twin R q)
    {h k : Heap Annotation} (twins : Heap.Twins R h k) : p.map h.read = q.map k.read := by
  cases twin with
  | state twin => rw [Pending.map, Pending.map, twin.reads twins]
  | _ => rfl

namespace Memory

/-- Two memories that differ in the addresses of their objects and in their rings only. -/
structure Twin (R : Ref → Ref → Prop) (m n : Memory) : Prop where
  wf : m.Wf
  wf' : n.Wf
  heaps : Heap.Twins R m.heap n.heap
  refs : List.Forall₂ R m.refs n.refs
  view : m.view = n.view

/-- Well-formed memories that read the same are twins by the positions of their objects. -/
theorem twin_of_view {m n : Memory} (wf : m.Wf) (wf' : n.Wf) (view : m.view = n.view) :
    Twin (fun r s => (r, s) ∈ m.refs.zip n.refs) m n := by
  have contents : m.refs.map m.heap.read = n.refs.map n.heap.read :=
    congrArg (fun s : Session Annotation => s.state.annotations) view
  have same : m.refs.length = n.refs.length := by simpa using congrArg List.length contents
  have pairs : ∀ {r s}, (r, s) ∈ m.refs.zip n.refs →
      ∃ i, ∃ (inside : i < m.refs.length) (inside' : i < n.refs.length), m.refs[i] = r ∧ n.refs[i] = s := by
    intro r s member
    obtain ⟨i, inside, atIndex⟩ := List.getElem_of_mem member
    rw [List.getElem_zip, Prod.mk.injEq] at atIndex
    rw [List.length_zip] at inside
    exact ⟨i, by omega, by omega, atIndex⟩
  refine ⟨wf, wf', ⟨fun related => ?_, fun related => ?_, fun related related' => ?_⟩, ?_, view⟩
  · obtain ⟨i, inside, inside', rfl, rfl⟩ := pairs related
    have atIndex := congrArg (fun l => l[i]?) contents
    simpa [List.getElem?_eq_getElem inside, List.getElem?_eq_getElem inside'] using atIndex
  · obtain ⟨left, right⟩ := List.of_mem_zip related
    exact ⟨wf.stateValid _ left, wf'.stateValid _ right⟩
  · obtain ⟨i, inside, inside', rfl, rfl⟩ := pairs related
    obtain ⟨j, within, within', rfl, rfl⟩ := pairs related'
    rw [wf.distinct.getElem_inj_iff, wf'.distinct.getElem_inj_iff]
  · exact List.forall₂_iff_zip.mpr ⟨same, fun member => member⟩

variable {cfg : StoreConfig} {call : Call} {m n : Memory} {R : Ref → Ref → Prop}

theorem Twin.edit (twin : Twin R m n) (e : AnnotationEdit) :
    ∃ S : Ref → Ref → Prop, (∀ {r s}, R r s → S r s) ∧ Heap.Twins S (m.edit e).1 (n.edit e).1 ∧
      List.Forall₂ S (m.edit e).2 (n.edit e).2 := by
  cases e with
  | rewrite contents => exact ⟨R, id, twin.heaps.writeAll twin.refs contents, twin.refs⟩
  | append ann =>
    refine ⟨Heap.Paired R m.heap n.heap, Or.inl, twin.heaps.alloc ann, ?_⟩
    refine List.rel_append (twin.refs.imp fun _ _ => Or.inl) ?_
    exact .cons (Or.inr ⟨rfl, rfl⟩) .nil
  | remove id =>
    refine ⟨R, fun related => related, twin.heaps, List.rel_filter ?_ twin.refs⟩
    intro r s related
    dsimp only
    rw [twin.heaps.same related]

/-- Twins take every call the same way and stay twins. -/
theorem Twin.outcome (twin : Twin R m n) (cfg : StoreConfig) (call : Call) :
    (m.applyStateOp cfg call = .dropped ∧ n.applyStateOp cfg call = .dropped) ∨
    (∃ failure m' n', m.applyStateOp cfg call = .raised failure m' ∧
      n.applyStateOp cfg call = .raised failure n' ∧ m'.view = n'.view) ∨
    ∃ S a m' b n', (∀ {r s}, R r s → S r s) ∧ m.applyStateOp cfg call = .applied a m' ∧
      n.applyStateOp cfg call = .applied b n' ∧ a.Twin S b ∧ Twin S m' n' := by
  have views : (m.applyStateOp cfg call).view = (n.applyStateOp cfg call).view := by
    rw [applyStateOp_view twin.wf, applyStateOp_view twin.wf', twin.view]
  have fits : (m.view.judge cfg call).Satisfies _ _ := Session.judge_fits call
  have seq : m.session.seq = n.session.seq := congrArg (fun s : Session Annotation => s.seq) twin.view
  cases outcome : m.applyStateOp cfg call with
  | dropped =>
    cases outcome' : n.applyStateOp cfg call with
    | dropped => exact Or.inl ⟨rfl, rfl⟩
    | raised | applied =>
      rw [outcome, outcome'] at views
      cases views
  | raised failure m' =>
    cases outcome' : n.applyStateOp cfg call with
    | raised failure' n' =>
      rw [outcome, outcome'] at views
      obtain ⟨rfl, same⟩ := Outcome.raised.inj views
      exact Or.inr (Or.inl ⟨failure, m', n', rfl, rfl, same⟩)
    | dropped | applied =>
      rw [outcome, outcome'] at views
      cases views
  | applied a m' =>
    cases outcome' : n.applyStateOp cfg call with
    | dropped | raised =>
      rw [outcome, outcome'] at views
      cases views
    | applied b n' =>
      rw [outcome, outcome'] at views
      have wf := (applyStateOp_extends twin.wf (congrArg Outcome.after? outcome)).wf
      have wf' := (applyStateOp_extends twin.wf' (congrArg Outcome.after? outcome')).wf
      unfold applyStateOp at outcome outcome'
      rw [← twin.view] at outcome'
      cases verdict : m.view.judge cfg call with
      | drop | reject =>
        rw [verdict] at outcome
        cases outcome
      | accept e =>
        rw [verdict] at outcome outcome' fits
        obtain ⟨S, weaken, heaps, refs⟩ := twin.edit e.edit
        cases outcome
        cases outcome'
        refine Or.inr (Or.inr ⟨S, _, _, _, _, weaken, rfl, rfl, ?_, wf, wf', heaps, refs,
          (Outcome.applied.inj views).2⟩)
        refine ⟨⟨m.session.seq + 1, e.applied.map fun i =>
          ((m.edit e.edit).2.getD i default, (n.edit e.edit).2.getD i default)⟩, ?_, ?_, ?_⟩
        · simp [Applied.map, AppliedOp.at, Function.comp_def]
        · simp [Applied.map, AppliedOp.at, Function.comp_def, seq]
        · intro p named
          obtain ⟨i, member, rfl⟩ : ∃ i ∈ e.applied.shared?,
              ((m.edit e.edit).2.getD i default, (n.edit e.edit).2.getD i default) = p := by
            simpa using named
          have inside := fits.position i member
          rw [← map_read_edit twin.wf fits, List.length_map] at inside
          have inside' := refs.length_eq ▸ inside
          simp only [List.getD_eq_getElem?_getD, List.getElem?_eq_getElem inside,
            List.getElem?_eq_getElem inside', Option.getD_some]
          exact refs.get inside inside'

end Memory

namespace Walk

variable {cfg : ManagerConfig} {client : String}

structure Twin (R : Ref → Ref → Prop) (w v : Walk) : Prop where
  memory : Memory.Twin R w.memory v.memory
  leases : w.leases = v.leases
  pending : List.Forall₂ (Pending.Twin R) w.pending v.pending

/-- Twin walks take one iteration the same way. -/
theorem Twin.next (cfg : ManagerConfig) (client : String) {R : Ref → Ref → Prop} {w v : Walk}
    (twin : Twin R w v) (op : BatchOp) :
    (∃ failure m n, w.next cfg client op = .error (failure, m) ∧
      v.next cfg client op = .error (failure, n) ∧ m.view = n.view) ∨
    ∃ S w' v', w.next cfg client op = .ok w' ∧ v.next cfg client op = .ok v' ∧ Twin S w' v' := by
  cases op with
  | state env op =>
    simp only [Walk.next, ← twin.leases, ← twin.memory.view]
    cases held : leaseConflict client w.leases w.memory.view.state op with
    | some failure => exact Or.inl ⟨failure, _, _, rfl, rfl, twin.memory.view⟩
    | none =>
      rcases twin.memory.outcome cfg.toStoreConfig { env := env, client := client, op := op } with
        ⟨left, right⟩ | ⟨failure, m, n, left, right, view⟩ | ⟨S, a, m, b, n, weaken, left, right, same, memory⟩
      · simp only [left, right]
        exact Or.inr ⟨R, w, v, rfl, rfl, twin⟩
      · simp only [left, right]
        exact Or.inl ⟨failure, m, n, rfl, rfl, view⟩
      · simp only [left, right]
        refine Or.inr ⟨S, _, _, rfl, rfl, memory, rfl, ?_⟩
        exact List.rel_append (twin.pending.imp fun _ _ p => p.mono weaken) (.cons (.state same) .nil)
  | selectionClaimed ids =>
    exact Or.inr ⟨R, _, _, rfl, rfl, twin.memory, twin.leases,
      List.rel_append twin.pending (.cons (.selectionClaimed ids) .nil)⟩
  | selectionReleased ids =>
    exact Or.inr ⟨R, _, _, rfl, rfl, twin.memory, twin.leases,
      List.rel_append twin.pending (.cons (.selectionReleased ids) .nil)⟩
  | leaseAcquired ids =>
    simp only [Walk.next, ← twin.leases]
    exact Or.inr ⟨R, _, _, rfl, rfl, twin.memory, rfl,
      List.rel_append twin.pending (.cons (.leaseAcquired _ _) .nil)⟩
  | leaseReleased ids =>
    simp only [Walk.next, ← twin.leases]
    exact Or.inr ⟨R, _, _, rfl, rfl, twin.memory, rfl,
      List.rel_append twin.pending (.cons (.leaseReleased _) .nil)⟩

theorem Twin.run (cfg : ManagerConfig) (client : String) {R : Ref → Ref → Prop} {w v : Walk}
    (twin : Twin R w v) (ops : List BatchOp) :
    (∃ failure m n, Walk.run cfg client ops w = .error (failure, m) ∧
      Walk.run cfg client ops v = .error (failure, n) ∧ m.view = n.view) ∨
    ∃ S w' v', Walk.run cfg client ops w = .ok w' ∧ Walk.run cfg client ops v = .ok v' ∧ Twin S w' v' := by
  induction ops generalizing R w v with
  | nil => exact Or.inr ⟨R, w, v, rfl, rfl, twin⟩
  | cons op ops ih =>
    rcases twin.next cfg client op with
      ⟨failure, m, n, left, right, view⟩ | ⟨S, w', v', left, right, next⟩
    · exact Or.inl ⟨failure, m, n, by simp only [Walk.run, left], by simp only [Walk.run, right], view⟩
    · simp only [Walk.run, left, right]
      exact ih next

end Walk

namespace Server

variable {cfg : ManagerConfig}

theorem commitEntry_twin (cfg : ManagerConfig) (now : Nat) (client : String) {R : Ref → Ref → Prop}
    {σ τ : Server} (claims : σ.claims = τ.claims) {p q : Pending Ref} (twin : p.Twin R q) :
    (σ.commitEntry cfg now client p).1.claims = (τ.commitEntry cfg now client q).1.claims ∧
      (σ.commitEntry cfg now client p).2.Twin R (τ.commitEntry cfg now client q).2 := by
  cases twin with
  | state twin => exact ⟨claims, .state twin⟩
  | selectionClaimed ids => exact ⟨by simp only [commitEntry, publish, claims], .selectionClaimed ids⟩
  | selectionReleased ids =>
    simp only [commitEntry, publish, claims, true_and]
    exact .selectionReleased _
  | leaseAcquired granted denied =>
    refine ⟨?_, .leaseAcquired granted denied⟩
    simp only [commitEntry]
    split <;> exact claims
  | leaseReleased released =>
    refine ⟨?_, .leaseReleased released⟩
    simp only [commitEntry]
    split <;> exact claims

theorem commitEach_twin (cfg : ManagerConfig) (now : Nat) (client : String) {R : Ref → Ref → Prop}
    {σ τ : Server} (claims : σ.claims = τ.claims) {p q : List (Pending Ref)} (twin : List.Forall₂ (Pending.Twin R) p q) :
    List.Forall₂ (Pending.Twin R) (σ.commitEach cfg now client p).2 (τ.commitEach cfg now client q).2 := by
  induction twin generalizing σ τ with
  | nil => exact .nil
  | cons head _ ih =>
    obtain ⟨claims', reported⟩ := commitEntry_twin cfg now client claims head
    exact .cons reported (ih claims')

theorem commitEach_memory (now : Nat) (client : String) (σ : Server) (pending : List (Pending Ref)) :
    (σ.commitEach cfg now client pending).1.memory = σ.memory := by
  obtain ⟨events, claims, leases, same, -⟩ := commitEach_broadcasts cfg now client σ pending
  rw [same]

theorem commitEach_frame (now : Nat) (client : String) (σ : Server) (pending : List (Pending Ref)) :
    (σ.commitEach cfg now client pending).1.loaded = σ.loaded ∧
      (σ.commitEach cfg now client pending).1.inFlight = σ.inFlight := by
  obtain ⟨events, claims, leases, same, -⟩ := commitEach_broadcasts cfg now client σ pending
  rw [same]
  exact ⟨rfl, rfl⟩

/-- Two commits of twin entries over twin memories report the same and read the same after. -/
theorem commit_twin {R : Ref → Ref → Prop} {now : Nat} {client : String} {σ τ : Server}
    (claims : σ.claims = τ.claims) {w v : Walk} (twin : Walk.Twin R w v) (left : σ.memory = w.memory)
    (right : τ.memory = v.memory) :
    (σ.commit cfg now client w.pending).2 = (τ.commit cfg now client v.pending).2 := by
  have reported := commitEach_twin cfg now client claims twin.pending
  have heaps : Heap.Twins R σ.memory.heap τ.memory.heap := by
    rw [left, right]
    exact twin.memory.heaps
  simp only [commit, commitEach_memory]
  congr 1
  · rw [← List.forall₂_eq_eq_eq, List.forall₂_map_left_iff, List.forall₂_map_right_iff]
    exact reported.imp fun _ _ p => p.reads heaps
  · rw [left, right]
    exact congrArg (fun s : Session Annotation => s.seq) twin.memory.view

theorem session?_of_loaded {σ : Server} (loaded : σ.loaded = true) : σ.session? = some σ.memory.view := by
  rw [session?, get?_of_loaded loaded, Option.map_some]

theorem rollback_session? {σ : Server} (loaded : σ.loaded = true) (saved : Session Annotation)
    (savedRing : List (Applied Ref)) (m : Memory) : (σ.rollback saved savedRing m).session? =
      some { saved with deletedAnnotationIds := m.session.deletedAnnotationIds } := by
  rw [session?_of_loaded (by exact loaded), rollback, Memory.view_restore]

theorem commit_session? {σ : Server} (loaded : σ.loaded = true) (now : Nat) (client : String)
    (pending : List (Pending Ref)) :
    (σ.commit cfg now client pending).1.session? = some σ.memory.view := by
  rw [session?_of_loaded (by rw [commit]; exact (commitEach_frame now client σ pending).1.trans loaded),
    commit, commitEach_memory]

theorem commit_inFlight {σ : Server} (now : Nat) (client : String) (pending : List (Pending Ref)) :
    (σ.commit cfg now client pending).1.inFlight = σ.inFlight :=
  (commitEach_frame now client σ pending).2

theorem pending_quiet {R : Ref → Ref → Prop} {p q : List (Pending Ref)}
    (twin : List.Forall₂ (Pending.Twin R) p q) :
    (p.all fun entry => entry.applied?.isNone) = q.all fun entry => entry.applied?.isNone := by
  induction twin with
  | nil => rfl
  | cons head _ ih =>
    rw [List.all_cons, List.all_cons, ih]
    cases head <;> rfl

theorem endBatch_of_idle {begun : Server × Reply} (idle : begun.1.inFlight = none) (now : Nat)
    (persists : Bool) : endBatch cfg now persists begun = (begun.2, begun.1.session?) := by
  rw [endBatch, idle]

/-- The outcome of a batch depends on what its session reads, on the live leases and on the
claims, and on nothing else of the server. -/
theorem batchOutcome_congr {σ τ : Server} (wf : ∀ base, σ.get? = some base → base.memory.Wf)
    (wf' : ∀ base, τ.get? = some base → base.memory.Wf) (idle : σ.inFlight = none)
    (idle' : τ.inFlight = none) {now : Nat} (session : σ.session? = τ.session?)
    (leases : σ.leases.prune now = τ.leases.prune now) (claims : σ.claims = τ.claims) (client : String)
    (ops : List BatchOp) (persists : Bool) :
    σ.batchOutcome cfg now client ops persists = τ.batchOutcome cfg now client ops persists := by
  unfold session? at session
  cases got : σ.get? with
  | none =>
    have got' : τ.get? = none := by simpa [got, eq_comm] using session
    simp only [batchOutcome, applyOps, got, got']
    rw [endBatch_of_idle idle, endBatch_of_idle idle', session?, session?, got, got']
  | some base =>
    obtain ⟨base', got', view⟩ : ∃ base', τ.get? = some base' ∧ base'.memory.view = base.memory.view := by
      simpa [got, eq_comm] using session.symm
    obtain ⟨sameFlight, -, sameLeases, sameClaims, -⟩ := get?_frame got
    obtain ⟨sameFlight', -, sameLeases', sameClaims', -⟩ := get?_frame got'
    have loaded := loaded_of_get? got
    have loaded' := loaded_of_get? got'
    have pruned : base.leases.prune now = base'.leases.prune now := by
      rw [sameLeases, sameLeases', leases]
    have claimed : base.claims = base'.claims := by rw [sameClaims, sameClaims', claims]
    have twin : Walk.Twin (fun r s => (r, s) ∈ base.memory.refs.zip base'.memory.refs)
        { memory := base.memory, leases := (base.leases.prune now).snapshot now }
        { memory := base'.memory, leases := (base'.leases.prune now).snapshot now } :=
      ⟨Memory.twin_of_view (wf base got) (wf' base' got') view.symm,
        by rw [pruned], .nil⟩
    have restored (m n old old' : Memory) (same : m.view = n.view) :
        ({ base with memory := old, leases := base.leases.prune now, inFlight := none }.rollback
            base.memory.view base.memory.ring m).session? =
          ({ base' with memory := old', leases := base'.leases.prune now, inFlight := none }.rollback
            base.memory.view base'.memory.ring n).session? := by
      have deleted : m.session.deletedAnnotationIds = n.session.deletedAnnotationIds :=
        congrArg (fun s : Session Annotation => s.deletedAnnotationIds) same
      rw [rollback_session? (by exact loaded), rollback_session? (by exact loaded'), deleted]
    simp only [batchOutcome, applyOps, got, got', view, sameFlight, sameFlight', idle, idle']
    rcases twin.run cfg client ops with
      ⟨failure, m, n, left, right, same⟩ | ⟨S, w, v, left, right, ended⟩
    · simp only [left, right]
      rw [endBatch_of_idle rfl, endBatch_of_idle rfl, restored m n _ _ same]
    · have quiet := pending_quiet ended.pending
      have committed (disk disk' : Option (Session Annotation)) :
          ({ base with memory := w.memory, leases := base.leases.prune now, inFlight := none, disk := disk
              }.commit cfg now client w.pending).2 =
            ({ base' with memory := v.memory, leases := base'.leases.prune now, inFlight := none
                          disk := disk' }.commit cfg now client v.pending).2 :=
        commit_twin (by exact claimed) ended rfl rfl
      simp only [left, right, ← quiet, ← ended.memory.view]
      by_cases noState : (w.pending.all fun entry => entry.applied?.isNone) = true
      · simp only [noState, if_true]
        rw [endBatch_of_idle (commit_inFlight now client _), endBatch_of_idle (commit_inFlight now client _),
          committed, commit_session? (by exact loaded), commit_session? (by exact loaded'), ended.memory.view]
      · simp only [noState, Bool.false_eq_true, if_false]
        by_cases exceeds : overBudget cfg w.memory.view = true
        · simp only [exceeds, if_true]
          rw [endBatch_of_idle rfl, endBatch_of_idle rfl,
            restored w.memory v.memory _ _ ended.memory.view]
        · simp only [exceeds, Bool.false_eq_true, if_false, endBatch, persistDone]
          cases persists with
          | true =>
            simp only [if_true]
            rw [committed, commit_session? (by exact loaded), commit_session? (by exact loaded'),
              ended.memory.view]
          | false =>
            simp only [Bool.false_eq_true, if_false]
            rw [restored w.memory v.memory _ _ ended.memory.view]

end Server

end MetadataGraph
