import MetadataGraph.Session.Invariants
import MetadataGraph.Session.Rollback

namespace MetadataGraph

open ObjectHeap Runs

/-! ### What an op leaves of an annotation that it does not name -/

/-- The op neither names the annotation nor drops one of its members. -/
def StateOp.Spares (op : StateOp) (id : String) (a : Annotation) : Prop :=
  op.annotationId? ≠ some id ∧ op.rewrites a = false

/-- Besides `nodes_removed` every op assigns only to the annotation that it names. -/
theorem StateOp.spares_of_unnamed {op : StateOp} {id : String} {a : Annotation} (held : a.hasId id = true)
    (unnamed : op.annotationId? ≠ some id)
    (members : ∀ nodeIds, op = .nodesRemoved nodeIds → a.hasMemberIn (nodeIds.strings?.getD []) = false) :
    op.Spares id a := by
  have other : ∀ value : Json, value.string? ≠ some id → value.string?.any (a.hasId ·) = false := by
    intro value differs
    cases named : value.string? with
    | none => rfl
    | some id' =>
      rw [Option.any_some]
      by_contra same
      rw [Bool.not_eq_false, Annotation.hasId_iff, Annotation.hasId_iff.mp held, Json.str.injEq] at same
      exact differs (named.trans (congrArg some same.symm))
  refine ⟨unnamed, ?_⟩
  cases op with
  | nodesRemoved nodeIds => exact members nodeIds rfl
  | annotationCreated payload | annotationUpdated payload =>
    cases payload with
    | none => rfl
    | some ann => exact other (ann.get "id") unnamed
  | groupMembershipChanged groupId members => exact other groupId unnamed
  | _ => rfl

theorem find_rewritten {op : StateOp} {old new : List Annotation} (rewritten : List.Forall₂ op.Rewritten old new)
    {id : String} {a : Annotation} (found : old.find? (·.hasId id) = some a) (kept : op.rewrites a = false) :
    new.find? (·.hasId id) = some a := by
  induction rewritten with
  | nil => cases found
  | @cons x y old new step _ ih =>
    rw [List.find?_cons] at found ⊢
    have sameId : y.hasId id = x.hasId id := by
      rcases step with rfl | ⟨-, same⟩
      · rfl
      · rw [ Annotation.hasId, Annotation.hasId, same]
    rw [sameId]
    split at found
    · cases found
      rcases step with rfl | ⟨rewrites, -⟩
      · rfl
      · rw [kept] at rewrites
        cases rewrites
    · exact ih found

/-- An effect keeps the annotations that its op spares. -/
theorem Effect.Fits.find {op : StateOp} {old : List Annotation} {e : Effect} (fits : e.Fits op old) {id : String}
    {a : Annotation} (found : old.find? (·.hasId id) = some a) (spared : op.Spares id a) :
    (e.edit.contents old).find? (·.hasId id) = some a := by
  cases kind : e.edit with
  | rewrite contents => exact find_rewritten (fits.rewritten contents kind) found spared.2
  | append ann =>
    rw [AnnotationEdit.contents, List.find?_append, found]
    rfl
  | remove other =>
    have differ : other ≠ id := by
      rintro rfl
      exact spared.1 (fits.removed other kind)
    have implied : ∀ b : Annotation, b.hasId id = true → (!b.hasId other) = true := by
      intro b held
      rw [ Annotation.hasId_iff] at held
      simp [ Annotation.hasId, held, Ne.symm differ]
    rw [AnnotationEdit.contents, List.find?_filter]
    rw [← found]
    congr 1
    funext b
    by_cases held : b.hasId id = true
    · simp [held, implied b held]
    · simp [held]

/-- An accepted op keeps the annotations that it spares. -/
theorem Memory.applyStateOp_find {cfg : StoreConfig} {call : Call} {m after : Memory} {applied : Applied Ref}
    (wf : m.Wf) (accepted : m.applyStateOp cfg call = .applied applied after) {id : String} {a : Annotation}
    (found : m.view.state.find id = some a) (spared : call.op.Spares id a) :
    after.view.state.find id = some a := by
  have fits : (m.view.judge cfg call).Satisfies _ _ := Session.judge_fits call
  have viewed := view_applied wf accepted
  unfold Session.applyStateOp at viewed
  split at viewed
  · cases viewed
  · cases viewed
  · rename_i e verdict
    rw [verdict] at fits
    have same := (Outcome.applied.inj viewed).2
    rw [← same]
    exact fits.find found spared

/-! ### The lease check -/

/-- An op that passes the lease check does not name an annotation that another client holds
the lease on. -/
theorem unnamed_of_leaseConflict {client : String} {leases : Dict String} {state : State Annotation} {op : StateOp}
    (free : leaseConflict client leases state op = none) {id holder : String} {a : Annotation}
    (found : state.find id = some a) (held : leases[id]? = some holder) (other : holder ≠ client) :
    op.annotationId? ≠ some id := by
  intro named
  have present : state.annotations.any (·.hasId id) = true :=
    List.any_eq_true.mpr ⟨a, State.mem_of_find found, State.hasId_of_find found⟩
  simp [leaseConflict, claimedAnnotationTarget, named, present, held, other, Option.filter] at free

/-- The op names an annotation that another client holds the lease on. -/
theorem leaseConflict_of_named {client : String} {leases : Dict String} {state : State Annotation} {op : StateOp}
    {id holder : String} {a : Annotation} (named : op.annotationId? = some id) (found : state.find id = some a)
    (held : leases[id]? = some holder) (other : holder ≠ client) :
    leaseConflict client leases state op = some (.leaseConflict id holder) := by
  have present : state.annotations.any (·.hasId id) = true :=
    List.any_eq_true.mpr ⟨a, State.mem_of_find found, State.hasId_of_find found⟩
  simp [leaseConflict, claimedAnnotationTarget, named, present, held, other, Option.filter]

theorem grantEach_keeps {client holder id : String} (other : holder ≠ client) {ids : List String}
    {leases : Dict String} {granted : List String} {denied : Dict String} (held : leases[id]? = some holder) :
    (grantEach client ids (leases, granted, denied)).1[id]? = some holder := by
  induction ids generalizing leases granted denied with
  | nil => exact held
  | cons first ids ih =>
    have inserted : leases[first]?.all (· = client) = true → (leases.insert first client)[id]? = some holder := by
      intro mine
      have differ : first ≠ id := by
        rintro rfl
        rw [held] at mine
        exact other (by simpa using mine)
      rw [Std.ExtTreeMap.getElem?_insert]
      simpa [differ] using held
    rw [grantEach]
    split
    · rename_i holder' there
      split
      · exact ih held
      · rename_i mine
        exact ih (inserted (by simpa [there] using mine))
    · rename_i absent
      exact ih (inserted (by simp [absent]))

theorem releaseEach_keeps {client holder id : String} (other : holder ≠ client) {ids : List String}
    {leases : Dict String} {released : List String} (held : leases[id]? = some holder) :
    (releaseEach client ids (leases, released)).1[id]? = some holder := by
  induction ids generalizing leases released with
  | nil => exact held
  | cons first ids ih =>
    rw [releaseEach]
    split
    · rename_i mine
      have differ : first ≠ id := by
        rintro rfl
        rw [held] at mine
        exact other (Option.some.inj mine)
      apply ih
      rw [Std.ExtTreeMap.getElem?_erase]
      simpa [differ] using held
    · exact ih held

namespace Walk

variable {cfg : ManagerConfig} {client : String}

/-- The condition on one op of a batch: it is no `nodes_removed` that drops a member of an
annotation that another client holds the lease on. -/
def SparesLeased (client : String) (w : Walk) : BatchOp → Prop
  | .state _ (.nodesRemoved nodeIds) => ∀ a ∈ w.memory.view.state.annotations,
      a.hasMemberIn (nodeIds.strings?.getD []) = true →
        ∀ id ∈ (a.get "id").string?, ∀ holder ∈ w.leases[id]?, holder = client
  | _ => True

instance (w : Walk) (op : BatchOp) : Decidable (w.SparesLeased client op) := by
  unfold SparesLeased
  split <;> infer_instance

/-- Another client's lease and the annotation under it, as a walk finds them. -/
structure Leased (client id holder : String) (a : Annotation) (w : Walk) : Prop where
  wf : w.memory.Wf
  held : w.leases[id]? = some holder
  found : w.memory.view.state.find id = some a

theorem Leased.next {id holder : String} {a : Annotation} (other : holder ≠ client) {w w' : Walk} {op : BatchOp}
    (leased : w.Leased client id holder a) (spares : w.SparesLeased client op)
    (stepped : w.next cfg client op = .ok w') : w'.Leased client id holder a := by
  obtain ⟨wf, held, found⟩ := leased
  have held' : w'.leases[id]? = some holder := by
    cases op with
    | state env stateOp =>
      rcases next_ok stepped with ⟨-, -⟩ | ⟨-, -, -, -, -, -, same, -⟩
      · simp only [Walk.next] at stepped
        split at stepped
        · cases stepped
        · split at stepped <;> cases stepped <;> exact held
      · rw [same]
        exact held
    | selectionClaimed ids | selectionReleased ids =>
      cases stepped
      exact held
    | leaseAcquired ids =>
      cases stepped
      exact grantEach_keeps other held
    | leaseReleased ids =>
      cases stepped
      exact releaseEach_keeps other held
  rcases next_ok stepped with ⟨same, -⟩ | ⟨env, stateOp, applied, rfl, free, accepted, -, -⟩
  · exact ⟨same ▸ wf, held', same ▸ found⟩
  · have holds := State.hasId_of_find found
    have spared : stateOp.Spares id a := by
      apply StateOp.spares_of_unnamed holds (unnamed_of_leaseConflict free found held other)
      rintro nodeIds rfl
      by_contra drops
      exact other (spares a (State.mem_of_find found) (by simpa using drops) id
        (Json.string?_eq_some.mpr ( Annotation.hasId_iff.mp holds)) holder held)
    exact ⟨(Memory.applyStateOp_extends wf (congrArg Outcome.after? accepted)).wf, held',
      Memory.applyStateOp_find wf accepted found spared⟩

theorem run_leased {id holder : String} {a : Annotation} (other : holder ≠ client) {w w' : Walk} {ops : List BatchOp}
    (leased : w.Leased client id holder a) (spares : w.Always cfg client (SparesLeased client) ops)
    (walked : run cfg client ops w = .ok w') : w'.Leased client id holder a :=
  (always_induction (Q := fun _ _ => True) (fun leased spares => Leased.next other leased spares)
    (fun _ _ _ => trivial) leased spares).1 w' walked

/-- The loop over the first ops of a batch comes before the loop over the rest. -/
theorem run_append {first rest : List BatchOp} {w w' : Walk} (walked : run cfg client first w = .ok w') :
    run cfg client (first ++ rest) w = run cfg client rest w' := by
  induction first generalizing w with
  | nil =>
    cases walked
    rfl
  | cons op first ih =>
    rw [run] at walked
    rw [List.cons_append, run]
    split at walked
    · cases walked
    · exact ih walked

theorem Always.front {P : Walk → BatchOp → Prop} {first rest : List BatchOp} {w : Walk}
    (always : w.Always cfg client P (first ++ rest)) : w.Always cfg client P first := by
  induction first generalizing w with
  | nil => trivial
  | cons op first ih =>
    obtain ⟨here, later⟩ := always
    refine ⟨here, ?_⟩
    split
    · rename_i stepped
      rw [stepped] at later
      exact ih later
    · trivial

end Walk

namespace Holders

theorem getElem?_snapshot (now : Nat) (held : Holders) (id : String) :
    (held.snapshot now)[id]? = (held[id]?.filter fun h => now < h.expiresAt).map (·.clientId) := by
  rw [snapshot, Std.ExtTreeMap.getElem?_map, getElem?_prune]

/-- A hold that survives the pruning is in the snapshot of that moment. -/
theorem snapshot_of_prune {now : Nat} {held : Holders} {id : String} {holder : Holder}
    (live : (held.prune now)[id]? = some holder) : ((held.prune now).snapshot now)[id]? = some holder.clientId := by
  rw [snapshot_prune held (le_refl now), snapshot, Std.ExtTreeMap.getElem?_map, live]
  rfl

end Holders

namespace Server

variable {cfg : ManagerConfig}

/-- The annotation with this id, if the session holds one. -/
def annotation? (σ : Server) (id : String) : Option Annotation := σ.session?.bind (·.state.find id)

theorem annotation?_of_loaded {σ : Server} (loaded : σ.loaded = true) (id : String) :
    σ.annotation? id = σ.memory.view.state.find id := by
  rw [annotation?, session?_eq, memory?_of_loaded loaded]
  rfl

theorem annotation?_of_get? {σ base : Server} (got : σ.get? = some base) (id : String) :
    σ.annotation? id = base.memory.view.state.find id := by
  rw [annotation?, session?, got]
  rfl

theorem annotation?_congr {σ τ : Server} (memory : τ.memory? = σ.memory?) (id : String) :
    τ.annotation? id = σ.annotation? id := by
  rw [annotation?, session?_eq, memory, annotation?, session?_eq]

/-- The client on whose behalf an action writes, with the time of the action. -/
def writer (σ : Server) : Action → Option (Nat × String)
  | .applyOps now client _ => some (now, client)
  | .persistDone now _ => σ.inFlight.map fun batch => (now, batch.client)
  | .write request call => some (request.now, (call.leaseIdentity request.client).getD request.client)
  | .undo request _ => some (request.now, request.client)
  | .rename request _ _ => some (request.now, request.client)
  | _ => none

/-- The condition on a step: its batch drops no member of an annotation that another client
holds the lease on, and if its persist fails, the batch has created no annotation under an
id that another client holds the lease on. -/
def LeaseSafe (cfg : ManagerConfig) (σ : Server) : Action → Prop
  | .applyOps now client ops => ∀ base ∈ σ.get?, Walk.Always cfg client (Walk.SparesLeased client) ops
      { memory := base.memory, leases := (base.leases.prune now).snapshot now }
  | .persistDone now false => ∀ batch ∈ σ.inFlight, ∀ a ∈ σ.memory.view.state.annotations,
      ∀ id ∈ (a.get "id").string?, (batch.saved.state.find id).isSome ∨
        ∀ holder ∈ (σ.leases.snapshot now)[id]?, holder = batch.client
  | _ => True

/-- The action gets as far as the lease check with an op that names the annotation. -/
def Attempts (cfg : ManagerConfig) (id : String) (σ : Server) : Action → Prop
  | .applyOps now client ops => ∃ base first env op rest w, σ.get? = some base ∧
      ops = first ++ .state env op :: rest ∧
      Walk.run cfg client first
        { memory := base.memory, leases := (base.leases.prune now).snapshot now } = .ok w ∧
      op.annotationId? = some id
  | .write request call => ∃ υ op client, request.client ≠ "" ∧ call.checkArguments cfg = .ok () ∧
      σ.preflight request = (υ, none) ∧ call.prepare cfg υ.memory.view = .ok (some op) ∧
      call.leaseIdentity request.client = some client ∧ op.annotationId? = some id
  | .undo request _ => ∃ υ record inverse, request.client ≠ "" ∧ σ.preflight request = (υ, none) ∧
      findLatestUndoable υ.memory.session.activityLog request.client = some record ∧
      undoConflictReason υ.memory.view.state record = none ∧ record.inverseOp = some inverse ∧
      inverse.annotationId? = some id
  | _ => False

/-- What a batch in flight has changed so far: no annotation that another client holds the
lease on, if it was there before. -/
def Guarded (σ : Server) : Prop :=
  ∀ batch ∈ σ.inFlight, ∀ (id : String) (h : Holder), σ.leases[id]? = some h → h.clientId ≠ batch.client →
    ∀ a, batch.saved.state.find id = some a → σ.memory.view.state.find id = some a

theorem guarded_of_idle {σ : Server} (idle : σ.inFlight = none) : σ.Guarded := by
  intro batch flying
  rw [idle] at flying
  cases flying

/-- The walk of a safe batch keeps every annotation that another client holds the lease on. -/
theorem walk_keeps_leased {base : Server} (wf : base.memory.Wf) {now : Nat} {client id holder : String}
    {ops : List BatchOp} {a : Annotation} {w : Walk}
    (safe : Walk.Always cfg client (Walk.SparesLeased client) ops
      { memory := base.memory, leases := (base.leases.prune now).snapshot now })
    (held : ((base.leases.prune now).snapshot now)[id]? = some holder) (other : holder ≠ client)
    (found : base.memory.view.state.find id = some a)
    (walked : Walk.run cfg client ops
      { memory := base.memory, leases := (base.leases.prune now).snapshot now } = .ok w) :
    w.Leased client id holder a :=
  Walk.run_leased other ⟨wf, held, found⟩ safe walked

/-- Every safe action keeps the guard of a batch in flight. -/
theorem step_guarded {σ τ : Server} (wf : σ.Wf) (guarded : σ.Guarded) {action : Action} {reply : Reply}
    (safe : σ.LeaseSafe cfg action) (stepped : σ.step cfg action = some (τ, reply)) : τ.Guarded := by
  cases flying : σ.inFlight with
  | some batch =>
    by_cases during : action.meanwhile = true
    · obtain ⟨memory, -, still, within⟩ := meanwhile_step (wf.flight batch flying).1 flying during stepped
      intro batch' flying' id h held other a found
      rw [still] at flying'
      cases flying'
      rw [memory]
      exact guarded batch flying id h (within id h held) other a found
    · cases action with
      | persistDone now ok =>
        obtain ⟨batch', -, same⟩ := Option.map_eq_some_iff.mp stepped
        apply guarded_of_idle
        cases ok with
        | true =>
          obtain ⟨events, claims, leases, committed, -⟩ := commitEach_broadcasts cfg now batch'.client
            { σ with inFlight := none, disk := some batch'.snapshot } batch'.pending
          simp only [persistDone, if_true, commit, committed] at same
          exact (congrArg (·.1.inFlight) same).symm
        | false => exact (congrArg (·.1.inFlight) same).symm
      | cancel =>
        obtain ⟨batch', -, same⟩ := Option.map_eq_some_iff.mp stepped
        exact guarded_of_idle (congrArg (·.1.inFlight) same).symm
      | restart landed =>
        cases stepped
        exact guarded_of_idle rfl
      | _ => exact absurd rfl during
  | none =>
    by_cases batch : ∃ now client ops, action = .applyOps now client ops
    · obtain ⟨now, client, ops, rfl⟩ := batch
      simp only [step, flying, Option.isSome_none, Bool.false_eq_true, if_false, Option.some.injEq] at stepped
      rcases applyOps_cases cfg now client ops σ with ⟨-, same⟩ | ⟨base, got, ended⟩
      · rw [same] at stepped
        cases stepped
        exact guarded
      · have idle : base.inFlight = none := (get?_frame got).1.trans flying
        rcases ended with ⟨failure, m, -, same⟩ | ⟨w, walked, ⟨-, same⟩ | ⟨-, ⟨-, same⟩ | ⟨-, same⟩⟩⟩
        · rw [same] at stepped
          cases stepped
          exact guarded_of_idle idle
        · obtain ⟨events, claims, leases, committed, -⟩ := commitEach_broadcasts cfg now client
            { base with memory := w.memory, leases := base.leases.prune now } w.pending
          rw [same] at stepped
          simp only [commit, committed] at stepped
          exact guarded_of_idle ((congrArg (·.1.inFlight) stepped).symm.trans idle)
        · rw [same] at stepped
          cases stepped
          exact guarded_of_idle idle
        · rw [same] at stepped
          cases stepped
          rintro _ ⟨⟩ id h held other a found
          exact (walk_keeps_leased (get?_wf wf got).memory (safe base got)
            (Holders.snapshot_of_prune held) other found walked).found
    · exact guarded_of_idle (idle_step flying (fun now client ops same => batch ⟨now, client, ops, same⟩) stepped)

/-! ### What a write leaves of a leased annotation -/

theorem preflight_ok {σ υ : Server} {request : Request} (passed : σ.preflight request = (υ, none)) :
    σ.inFlight = none ∧ σ.get? = some υ := by
  unfold preflight at passed
  split at passed
  · cases (Prod.mk.inj passed).2
  · split at passed
    · cases (Prod.mk.inj passed).2
    · rename_i idle
      split at passed
      · cases (Prod.mk.inj passed).2
      · rename_i base got
        split at passed
        · cases (Prod.mk.inj passed).2
        · cases passed
          exact ⟨by simpa using idle, got⟩

theorem rejectIfLeased_memory (now : Nat) (client : String) (op : StateOp) (σ : Server) :
    (σ.rejectIfLeased now client op).1.memory = σ.memory := by
  unfold rejectIfLeased
  split <;> rfl

/-- An op that passes the lease check of a synchronous write does not name the annotation. -/
theorem unnamed_of_rejectIfLeased {σ τ : Server} {now : Nat} {client : String} {op : StateOp}
    (free : σ.rejectIfLeased now client op = (τ, none)) {id holder : String} {a : Annotation}
    (found : σ.memory.view.state.find id = some a) (held : (σ.leases.snapshot now)[id]? = some holder)
    (other : holder ≠ client) : op.annotationId? ≠ some id := by
  unfold rejectIfLeased at free
  split at free
  · rename_i unclaimed
    exact unnamed_of_leaseConflict (by simp [leaseConflict, Option.isNone_iff_eq_none.mp unclaimed])
      found held other
  · dsimp only at free
    rw [Holders.snapshot_prune σ.leases (le_refl now)] at free
    exact unnamed_of_leaseConflict (Prod.mk.inj free).2 found held other

theorem prepare_spares {s : Session Annotation} {call : SyncWrite} {op : StateOp}
    (prepared : call.prepare cfg s = .ok (some op)) :
    (∀ nodeIds, op ≠ .nodesRemoved nodeIds) ∧
      ∀ client, call.leaseIdentity client = none → op.annotationId? = none := by
  cases call <;> simp only [SyncWrite.prepare] at prepared
  all_goals repeat' split at prepared
  all_goals simp_all [SyncWrite.leaseIdentity]
  all_goals subst op; simp [StateOp.annotationId?]

/-- A synchronous application of an op keeps what the op spares, whether it is saved or not. -/
theorem applyOpSync_keeps (cfg : ManagerConfig) {σ : Server} (wf : σ.memory.Wf) (call : Call) (persists : Bool) {id : String}
    {a : Annotation} (found : σ.memory.view.state.find id = some a) (spared : call.op.Spares id a) :
    (σ.applyOpSync cfg call persists).1.memory.view.state.find id = some a := by
  rcases applyOpSync_cases cfg call persists σ with
    ⟨-, same⟩ | ⟨failure, m, -, same⟩ | ⟨applied, m, accepted, -, same⟩
  · rw [same]
    exact found
  · rw [same]
    dsimp only
    rw [Memory.view_restore]
    exact found
  · rw [same]
    exact Memory.applyStateOp_find wf accepted found spared

/-- A batch that is safe keeps the annotation from its start to its persist. -/
theorem applyOps_keeps {σ : Server} (wf : σ.Wf) {now : Nat} {client id holder : String} {ops : List BatchOp}
    {a : Annotation} (safe : σ.LeaseSafe cfg (.applyOps now client ops))
    (held : (σ.leases.snapshot now)[id]? = some holder) (other : holder ≠ client)
    (existing : σ.annotation? id = some a) : (σ.applyOps cfg now client ops).1.annotation? id = some a := by
  rcases applyOps_cases cfg now client ops σ with ⟨-, same⟩ | ⟨base, got, ended⟩
  · rw [same]
    exact existing
  · have loaded := loaded_of_get? got
    rw [annotation?_of_get? got] at existing
    rw [← (get?_frame got).2.2.1, ← Holders.snapshot_prune base.leases (le_refl now)] at held
    have restored : ∀ m : Memory, (({ base with leases := base.leases.prune now } : Server).rollback base.memory.view
        base.memory.ring m).annotation? id = some a := by
      intro m
      rw [annotation?_of_loaded (by exact loaded), rollback]
      dsimp only
      rw [Memory.view_restore]
      exact existing
    rcases ended with ⟨failure, m, -, same⟩ | ⟨w, walked, ended⟩
    · rw [same]
      exact restored m
    · have kept := (walk_keeps_leased (get?_wf wf got).memory (safe base got) held other existing walked).found
      rcases ended with ⟨-, same⟩ | ⟨-, ⟨-, same⟩ | ⟨-, same⟩⟩
      · obtain ⟨events, claims, leases, committed, -⟩ := commitEach_broadcasts cfg now client
          { base with memory := w.memory, leases := base.leases.prune now } w.pending
        rw [same, commit]
        dsimp only
        rw [committed, annotation?_of_loaded (by exact loaded)]
        exact kept
      · rw [same]
        exact restored w.memory
      · rw [same, annotation?_of_loaded (by exact loaded)]
        exact kept

theorem persistDone_keeps {σ : Server} (wf : σ.Wf) (guarded : σ.Guarded) {batch : InFlight}
    (flying : σ.inFlight = some batch) {now : Nat} {ok : Bool} (safe : σ.LeaseSafe cfg (.persistDone now ok))
    {id holder : String} {a : Annotation} (held : (σ.leases.snapshot now)[id]? = some holder)
    (other : holder ≠ batch.client) (existing : σ.annotation? id = some a) :
    (σ.persistDone cfg now ok batch).1.annotation? id = some a := by
  have loaded := (wf.flight batch flying).1
  rw [annotation?_of_loaded loaded] at existing
  cases ok with
  | true =>
    obtain ⟨events, claims, leases, committed, -⟩ := commitEach_broadcasts cfg now batch.client
      { σ with inFlight := none, disk := some batch.snapshot } batch.pending
    simp only [persistDone, if_true, commit]
    rw [committed, annotation?_of_loaded (by exact loaded)]
    exact existing
  | false =>
    have named := Json.string?_eq_some.mpr ( Annotation.hasId_iff.mp (State.hasId_of_find existing))
    have before : (batch.saved.state.find id).isSome :=
      (safe batch flying a (State.mem_of_find existing) id named).resolve_right fun mine => other (mine holder held)
    obtain ⟨b, was⟩ := Option.isSome_iff_exists.mp before
    rw [Holders.getElem?_snapshot, Option.map_eq_some_iff] at held
    obtain ⟨h, live, rfl⟩ := held
    have same := guarded batch flying id h (Option.filter_eq_some_iff.mp live).1 other b was
    rw [existing, Option.some.injEq] at same
    simp only [persistDone, Bool.false_eq_true, if_false]
    rw [annotation?_of_loaded (by exact loaded), rollback]
    dsimp only
    rw [Memory.view_restore, same]
    exact was

theorem write_keeps {σ : Server} (wf : σ.Wf) {request : Request} {call : SyncWrite} {id holder : String}
    {a : Annotation} (held : (σ.leases.snapshot request.now)[id]? = some holder)
    (other : holder ≠ (call.leaseIdentity request.client).getD request.client)
    (existing : σ.annotation? id = some a) : (σ.write cfg request call).1.annotation? id = some a := by
  rcases write_cases cfg request call σ with looked | ⟨τ, op, prepared, same⟩
  · rw [annotation?_congr looked.memory?]
    exact existing
  · obtain ⟨looked, ready⟩ := prepareWrite_looked cfg request call σ
    rw [prepared] at looked ready
    obtain ⟨loaded, -⟩ := ready op rfl
    rw [← annotation?_congr looked.memory?, annotation?_of_loaded loaded] at existing
    obtain ⟨υ, passed, handed, checked⟩ := prepareWrite_ok prepared
    obtain ⟨noRemoval, unleased⟩ := prepare_spares handed
    have unnamed : op.annotationId? ≠ some id := by
      rcases checked with ⟨free, -⟩ | ⟨client, identity, free⟩
      · rw [unleased request.client free]
        exact Option.some_ne_none id ∘ Eq.symm
      · have memory := rejectIfLeased_memory request.now client op υ
        rw [free] at memory
        rw [memory] at existing
        rw [identity] at other
        rw [← (get?_frame (preflight_ok passed).2).2.2.1] at held
        exact unnamed_of_rejectIfLeased free existing held other
    have spared : op.Spares id a := StateOp.spares_of_unnamed (State.hasId_of_find existing) unnamed
      fun nodeIds removal => absurd removal (noRemoval nodeIds)
    have applied := applyOpSync_keeps cfg (looked.wf wf).memory (writeCall request op)
      request.persists existing spared
    rw [same, annotation?_of_loaded ((applyOpSync_frame cfg _ _ τ).1.trans loaded)]
    exact applied

theorem undo_keeps {σ : Server} (wf : σ.Wf) (everywhere : σ.Everywhere Session.Reversible) {request : Request}
    {persistsAgain : Bool} {id holder : String} {a : Annotation}
    (held : (σ.leases.snapshot request.now)[id]? = some holder) (other : holder ≠ request.client)
    (existing : σ.annotation? id = some a) : (σ.undo cfg request persistsAgain).1.annotation? id = some a := by
  rcases undo_cases cfg request persistsAgain σ with looked | ⟨τ, record, inverse, prepared, same⟩
  · rw [annotation?_congr looked.memory?]
    exact existing
  · have undoable := prepareUndo_undoable everywhere prepared
    obtain ⟨looked, ready⟩ := prepareUndo_looked request σ
    rw [prepared] at looked ready
    obtain ⟨loaded, -⟩ := ready _ rfl
    rw [← annotation?_congr looked.memory?, annotation?_of_loaded loaded] at existing
    obtain ⟨υ, passed, -, -, -, free⟩ := prepareUndo_ok prepared
    have memory := rejectIfLeased_memory request.now request.client inverse υ
    rw [free] at memory
    have spared : inverse.Spares id a := by
      apply StateOp.spares_of_unnamed (State.hasId_of_find existing)
      · rw [← (get?_frame (preflight_ok passed).2).2.2.1] at held
        exact unnamed_of_rejectIfLeased free (memory ▸ existing) held other
      · rintro nodeIds rfl
        cases undoable
    have forgottenWf : (τ.forgotten inverse).Wf := withSession_wf (looked.wf wf) _ fun _ => rfl
    have applied := applyOpSync_keeps cfg forgottenWf.memory (undoCall request inverse)
      request.persists existing spared
    have still := (applyOpSync_frame cfg (undoCall request inverse) request.persists (τ.forgotten inverse)).1.trans loaded
    rcases same with same | ⟨disk, same⟩
    · rw [same, annotation?_of_loaded still]
      exact applied
    · rw [same, annotation?_of_loaded (by exact still)]
      exact applied

theorem rename_keeps {σ : Server} (wf : σ.Wf) {request : Request} {limitReached : Bool} {name : Option String}
    {id : String} {a : Annotation} (existing : σ.annotation? id = some a) :
    (σ.rename cfg request limitReached name).1.annotation? id = some a := by
  rcases rename_cases cfg request limitReached name σ with same | ⟨τ, opened, ended⟩
  · rw [same]
    exact existing
  · have got : σ.get? = some τ := by
      unfold getOrCreate at opened
      split at opened
      · rename_i got
        cases opened
        exact got
      · rename_i missing
        rw [annotation?, session?, missing] at existing
        cases existing
    have loaded := loaded_of_get? got
    rw [annotation?_of_get? got] at existing
    have spared : (renameCall request name).op.Spares id a := ⟨by simp [renameCall, StateOp.annotationId?], rfl⟩
    have applied := applyOpSync_keeps cfg (get?_wf wf got).memory _ request.persists existing spared
    have still := (applyOpSync_frame cfg (renameCall request name) request.persists τ).1.trans loaded
    rcases ended with same | ⟨-, same | same⟩
    · rw [same, annotation?_of_loaded loaded]
      exact existing
    · rw [same, annotation?_of_loaded still]
      exact applied
    · rw [same, annotation?_of_loaded (by exact still)]
      exact applied

/-- A safe step on behalf of another client leaves a leased annotation exactly as it is. -/
theorem step_keeps {σ τ : Server} (wf : σ.Wf) (everywhere : σ.Everywhere Session.Reversible) (guarded : σ.Guarded)
    {action : Action} {reply : Reply} (safe : σ.LeaseSafe cfg action)
    (stepped : σ.step cfg action = some (τ, reply)) {now : Nat} {client id holder : String} {a : Annotation}
    (writes : σ.writer action = some (now, client)) (held : (σ.leases.snapshot now)[id]? = some holder)
    (other : holder ≠ client) (existing : σ.annotation? id = some a) : τ.annotation? id = some a := by
  cases action with
  | applyOps now' client' ops =>
    cases writes
    simp only [step] at stepped
    split at stepped
    · cases stepped
    · obtain rfl := congrArg Prod.fst (Option.some.inj stepped)
      exact applyOps_keeps wf safe held other existing
  | persistDone now' ok =>
    obtain ⟨batch, flying, same⟩ := Option.map_eq_some_iff.mp writes
    cases same
    rw [step, flying] at stepped
    obtain rfl := congrArg Prod.fst (Option.some.inj stepped)
    exact persistDone_keeps wf guarded flying safe held other existing
  | write request call =>
    cases writes
    obtain rfl := congrArg Prod.fst (Option.some.inj stepped)
    exact write_keeps wf held other existing
  | undo request persistsAgain =>
    cases writes
    obtain rfl := congrArg Prod.fst (Option.some.inj stepped)
    exact undo_keeps wf everywhere held other existing
  | rename request limitReached name =>
    cases writes
    obtain rfl := congrArg Prod.fst (Option.some.inj stepped)
    exact rename_keeps wf existing
  | _ => cases writes

/-! ### The refusal of an op that names a leased annotation -/

theorem opsSince?_eq (σ : Server) (sinceSeq : Int) : σ.opsSince? sinceSeq =
    σ.memory?.bind fun m => (m.opsSince sinceSeq).map (·.map (Applied.map m.heap.read)) := by
  rw [opsSince?, memory?]
  cases σ.get? <;> rfl

/-- A call that has only looked and pruned the leases changes nothing. -/
theorem unchanged_of_looked {σ υ : Server} (wf : σ.Wf) (idle : σ.inFlight = none) (got : σ.get? = some υ) (now : Nat) :
    Unchanged cfg now σ { υ with leases := υ.leases.prune now } := by
  obtain ⟨flight, subscribers, leases, claims, -⟩ := get?_frame got
  have loaded := loaded_of_get? got
  have baseWf := get?_wf wf got
  have looked := (looked_of_get? got).prune now
  refine unchanged_of_reads ?_ ?_ idle (flight.trans idle) ?_ ?_ ?_ claims subscribers
  · intro base got'
    rw [got] at got'
    cases got'
    exact baseWf.memory
  · intro base got'
    rw [get?_of_loaded (by exact loaded)] at got'
    cases got'
    exact baseWf.memory
  · rw [session?_eq, looked.memory?, session?_eq]
  · intro sinceSeq
    rw [opsSince?_eq, looked.memory?, opsSince?_eq]
  · intro t after
    dsimp only
    rw [Holders.prune_prune υ.leases after, leases]

theorem rejectIfLeased_of_named {σ : Server} {now : Nat} {client id holder : String} {op : StateOp} {a : Annotation}
    (named : op.annotationId? = some id) (found : σ.memory.view.state.find id = some a)
    (held : (σ.leases.snapshot now)[id]? = some holder) (other : holder ≠ client) :
    σ.rejectIfLeased now client op =
      ({ σ with leases := σ.leases.prune now }, some (.leaseConflict id holder)) := by
  have conflict := leaseConflict_of_named named found held other
  unfold rejectIfLeased
  split
  · rename_i unclaimed
    simp [leaseConflict, Option.isNone_iff_eq_none.mp unclaimed] at conflict
  · dsimp only
    rw [Holders.snapshot_prune σ.leases (le_refl now), conflict]

/-- A batch that gets to an op on a leased annotation is refused. -/
theorem applyOps_refused {σ : Server} (wf : σ.Wf) {now : Nat} {client id holder : String} {ops : List BatchOp}
    {a : Annotation} (safe : σ.LeaseSafe cfg (.applyOps now client ops))
    (attempts : σ.Attempts cfg id (.applyOps now client ops)) (held : (σ.leases.snapshot now)[id]? = some holder)
    (other : holder ≠ client) (existing : σ.annotation? id = some a) :
    (σ.applyOps cfg now client ops).2 = .raised (.leaseConflict id holder) := by
  obtain ⟨base, first, env, op, rest, w, got, rfl, walked, named⟩ := attempts
  rw [annotation?_of_get? got] at existing
  rw [← (get?_frame got).2.2.1, ← Holders.snapshot_prune base.leases (le_refl now)] at held
  have leased := walk_keeps_leased (get?_wf wf got).memory (safe base got).front held other existing walked
  have conflict := leaseConflict_of_named named leased.found leased.held other
  have ended : Walk.run cfg client (first ++ .state env op :: rest)
      { memory := base.memory, leases := (base.leases.prune now).snapshot now } =
      .error (.leaseConflict id holder, w.memory) := by
    rw [Walk.run_append walked, Walk.run, Walk.next, conflict]
  simp only [applyOps, got, ended]

/-- A synchronous write that gets to the lease check with an op on a leased annotation is
refused there. -/
theorem write_refused {σ : Server} (wf : σ.Wf) {request : Request} {call : SyncWrite} {id holder : String}
    {a : Annotation} (attempts : σ.Attempts cfg id (.write request call))
    (held : (σ.leases.snapshot request.now)[id]? = some holder)
    (other : holder ≠ (call.leaseIdentity request.client).getD request.client)
    (existing : σ.annotation? id = some a) :
    (σ.write cfg request call).2 = .raised (.leaseConflict id holder) ∧
      Unchanged cfg request.now σ (σ.write cfg request call).1 := by
  obtain ⟨υ, op, client, named, arguments, passed, handed, identity, target⟩ := attempts
  obtain ⟨idle, got⟩ := preflight_ok passed
  rw [annotation?_of_get? got] at existing
  rw [← (get?_frame got).2.2.1] at held
  rw [identity, Option.getD_some] at other
  have refused := rejectIfLeased_of_named target existing held other
  have ended : σ.write cfg request call =
      ({ υ with leases := υ.leases.prune request.now }, .raised (.leaseConflict id holder)) := by
    simp only [write, prepareWrite, named, if_false, arguments, passed, handed, identity, refused]
  rw [ended]
  exact ⟨rfl, unchanged_of_looked wf idle got request.now⟩

/-- An undo whose inverse is an op on a leased annotation is refused. -/
theorem undo_refused {σ : Server} (wf : σ.Wf) {request : Request} {persistsAgain : Bool} {id holder : String}
    {a : Annotation} (attempts : σ.Attempts cfg id (.undo request persistsAgain))
    (held : (σ.leases.snapshot request.now)[id]? = some holder) (other : holder ≠ request.client)
    (existing : σ.annotation? id = some a) :
    (σ.undo cfg request persistsAgain).2 = .raised (.leaseConflict id holder) ∧
      Unchanged cfg request.now σ (σ.undo cfg request persistsAgain).1 := by
  obtain ⟨υ, record, inverse, named, passed, latest, unchanged, stored, target⟩ := attempts
  obtain ⟨idle, got⟩ := preflight_ok passed
  rw [annotation?_of_get? got] at existing
  rw [← (get?_frame got).2.2.1] at held
  have refused := rejectIfLeased_of_named target existing held other
  have ended : σ.undo cfg request persistsAgain =
      ({ υ with leases := υ.leases.prune request.now }, .raised (.leaseConflict id holder)) := by
    simp only [undo, prepareUndo, named, if_false, passed, latest, unchanged, stored, refused]
  rw [ended]
  exact ⟨rfl, unchanged_of_looked wf idle got request.now⟩

/-- Whether a rollback takes back everything that a batch has done by the time it is refused. -/
def RecoverableStep (cfg : ManagerConfig) (σ : Server) : Action → Prop
  | .applyOps now client ops => RecoverableBatch cfg now client ops σ
  | _ => True

/-- A safe step on behalf of another client that gets to an op on a leased annotation is
refused, and leaves no trace if a rollback can take back what it did before that op. -/
theorem step_refused {σ τ : Server} (wf : σ.Wf) {action : Action} {reply : Reply} (safe : σ.LeaseSafe cfg action)
    (stepped : σ.step cfg action = some (τ, reply)) {now : Nat} {client id holder : String} {a : Annotation}
    (writes : σ.writer action = some (now, client)) (held : (σ.leases.snapshot now)[id]? = some holder)
    (other : holder ≠ client) (existing : σ.annotation? id = some a) (attempts : σ.Attempts cfg id action) :
    reply = .raised (.leaseConflict id holder) ∧ (σ.RecoverableStep cfg action → Unchanged cfg now σ τ) := by
  cases action with
  | applyOps now' client' ops =>
    cases writes
    have begun := stepped
    simp only [step] at stepped
    split at stepped
    · cases stepped
    · obtain rfl := congrArg Prod.snd (Option.some.inj stepped)
      have refused := applyOps_refused wf safe attempts held other existing
      rw [refused] at begun
      exact ⟨refused, fun recoverable => (recoverable_unchanged wf recoverable).1 τ _ begun⟩
  | write request call =>
    cases writes
    obtain ⟨refused, unchanged⟩ := write_refused wf attempts held other existing
    rw [Option.some.inj stepped] at refused unchanged
    exact ⟨refused, fun _ => unchanged⟩
  | undo request persistsAgain =>
    cases writes
    obtain ⟨refused, unchanged⟩ := undo_refused wf attempts held other existing
    rw [Option.some.inj stepped] at refused unchanged
    exact ⟨refused, fun _ => unchanged⟩
  | _ => cases attempts

instance (σ : Server) (action : Action) : Decidable (σ.LeaseSafe cfg action) := by
  unfold LeaseSafe
  split <;> infer_instance

/-- Lease exclusivity: in every run of safe steps, while a client holds a live lease on an
annotation of the session, no step on behalf of another client changes or removes it, and
one that attempts to is refused. -/
theorem leases_exclusive {history : List (Action × Reply)} {σ : Server}
    (run : Run (step cfg) (fun _ σ action => σ.LeaseSafe cfg action) {} history σ) {action : Action}
    {τ : Server} {reply : Reply} (safe : σ.LeaseSafe cfg action) (stepped : σ.step cfg action = some (τ, reply))
    {now : Nat} {client id holder : String} {a : Annotation} (writes : σ.writer action = some (now, client))
    (held : (σ.leases.snapshot now)[id]? = some holder) (other : holder ≠ client)
    (existing : σ.annotation? id = some a) :
    τ.annotation? id = some a ∧ (σ.Attempts cfg id action → reply = .raised (.leaseConflict id holder) ∧
      (σ.RecoverableStep cfg action → Unchanged cfg now σ τ)) := by
  have guarded := (run.invariant (fun _ σ => σ.Wf ∧ σ.Guarded) ⟨initial_wf, guarded_of_idle rfl⟩
    fun kept safe stepped => ⟨step_wf kept.1 stepped, step_guarded kept.1 kept.2 safe stepped⟩).2
  have wf := run_wf run
  have everywhere := run_everywhere (Session.reversible_lasting cfg.toStoreConfig) run
  exact ⟨step_keeps wf everywhere guarded safe stepped writes held other existing,
    step_refused wf safe stepped writes held other existing⟩

/-- A group with one member that its creator holds the lease on. -/
def sampleGroup : Dict Json :=
  .of [("id", .str "g"), ("type", .str "group"), ("member_node_ids", .ofStrings ["n"])]

/-- A client creates the group and takes the lease on it. -/
def leaseRun : List Action :=
  [.getOrCreate 0 false,
    .applyOps 0 "ada" [.state sampleEnv (.annotationCreated (some sampleGroup)), .leaseAcquired ["g"]],
    .persistDone 0 true]

def leasedGroup : Server := (leadsTo (step {}) {} leaseRun).get (by decide +kernel)

/-- The batch of another client that removes the member of the leased group is accepted. -/
theorem nodesRemoved_changes_leased :
    ∃ history ρ τ entries, Run (step {}) (fun _ _ _ => True) {} history leasedGroup ∧
      (leasedGroup.leases.snapshot 0)["g"]? = some "ada" ∧
      leasedGroup.step {} (.applyOps 0 "bob" [.state sampleEnv (.nodesRemoved (.ofStrings ["n"]))]) =
        some (ρ, .suspended) ∧
      ρ.step {} (.persistDone 0 true) = some (τ, .applied entries 2) ∧
      (leasedGroup.annotation? "g").isSome = true ∧ τ.annotation? "g" ≠ leasedGroup.annotation? "g" := by
  obtain ⟨history, run⟩ := Run.of_leadsTo (Option.some_get _).symm
  exact ⟨history, _, _, _, run, by decide +kernel, step_applyOps (by decide +kernel) (by decide +kernel), rfl,
    by decide +kernel, by decide +kernel⟩

/-- The same client's lease stands in the way of another one's deletion. -/
theorem leases_exclusive_sample :
    ∃ σ τ : Server, ∃ reply, σ.step {} (.applyOps 0 "bob" [.state sampleEnv (.annotationDeleted (.str "g") .null)]) =
        some (τ, reply) ∧
      (σ.annotation? "g").isSome = true ∧ τ.annotation? "g" = σ.annotation? "g" ∧
      reply = .raised (.leaseConflict "g" "ada") := by
  have taken : ((trace (step {}) (fun σ action => σ.LeaseSafe {} action) [] {} leaseRun).map fun ended =>
      (ended.2.loaded, ended.2.inFlight.isSome, (ended.2.leases.snapshot 0)["g"]?,
        (ended.2.annotation? "g").isSome)) = some (true, false, some "ada", true) := by decide +kernel
  obtain ⟨⟨history, σ⟩, traced, facts⟩ := Option.map_eq_some_iff.mp taken
  simp only [Prod.mk.injEq] at facts
  obtain ⟨loaded, idle, held, present⟩ := facts
  obtain ⟨a, existing⟩ := Option.isSome_iff_exists.mp present
  have run : Run (step {}) (fun _ σ action => σ.LeaseSafe {} action) {} history σ :=
    (Run.trace .start traced).mono of_decide_eq_true
  have stepped : σ.step {} (.applyOps 0 "bob" [.state sampleEnv (.annotationDeleted (.str "g") .null)]) =
      some (_, _) := step_applyOps idle rfl
  have safe : σ.LeaseSafe {} (.applyOps 0 "bob" [.state sampleEnv (.annotationDeleted (.str "g") .null)]) := by
    intro base got
    refine ⟨trivial, ?_⟩
    split <;> trivial
  obtain ⟨kept, refused⟩ := leases_exclusive run safe stepped rfl held (by decide) existing
  exact ⟨σ, _, _, stepped, present, kept.trans existing.symm,
    (refused ⟨σ, [], _, _, [], _, get?_of_loaded loaded, rfl, rfl, rfl⟩).1⟩

end Server

end MetadataGraph
