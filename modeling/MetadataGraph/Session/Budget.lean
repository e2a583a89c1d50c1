import MetadataGraph.Session.Edits
import MetadataGraph.Session.CleanWrites

namespace MetadataGraph

open ObjectHeap Runs

/-! ### The size of a document -/

/-- What an edit adds to a sum over the annotations: what it stores, less what it replaces or removes. -/
def AnnotationEdit.growth (size : Annotation → Nat) (old : List Annotation) : AnnotationEdit → Int
  | .rewrite contents => (List.zipWith (fun b a => (size b : Int) - size a) contents old).sum
  | .append ann => size ann
  | .remove id => -(((old.filter (·.hasId id)).map size).sum : Nat)

theorem AnnotationEdit.sum_contents (size : Annotation → Nat) {old : List Annotation} {edit : AnnotationEdit}
    (sameLength : ∀ contents, edit = .rewrite contents → contents.length = old.length) :
    (((edit.contents old).map size).sum : Int) = ((old.map size).sum : Nat) + edit.growth size old := by
  cases edit with
  | append ann => simp [contents, growth]
  | remove id =>
    rw [contents, growth]
    induction old with
    | nil => rfl
    | cons a old ih =>
      have rest := ih fun contents same => by cases same
      by_cases named : a.hasId id = true
      · simp only [List.filter_cons, named, Bool.not_true, Bool.false_eq_true, if_false, if_true, List.map_cons,
          List.sum_cons]
        omega
      · simp only [List.filter_cons, named, Bool.not_false, if_false, if_true, Bool.false_eq_true,
          List.map_cons, List.sum_cons]
        omega
  | rewrite contents =>
    have same := sameLength contents rfl
    clear sameLength
    rw [AnnotationEdit.contents, growth]
    induction contents generalizing old with
    | nil =>
      rw [List.length_nil] at same
      rw [List.eq_nil_of_length_eq_zero same.symm]
      rfl
    | cons b contents ih =>
      cases old with
      | nil => cases same
      | cons a old =>
        have rest := ih (Nat.succ.inj same)
        simp only [List.map_cons, List.sum_cons, List.zipWith_cons_cons]
        omega

/-- An additive measure of the serialised session: what each part of it adds to the sum. -/
structure Measure where
  shell : Option String → Nat → Nat → Nat
  canvas : Canvas → Nat
  annotation : Annotation → Nat
  record : ActivityRecord → Nat

namespace Measure

variable (μ : Measure)

def log (records : List ActivityRecord) : Nat := (records.map μ.record).sum

def document (s : Session Annotation) : Nat :=
  μ.shell s.name s.updatedAt s.seq + μ.canvas s.state.toCanvas + (s.state.annotations.map μ.annotation).sum +
    μ.log s.activityLog

/-- What an op that the store accepts adds to the document: what it stores, the record with
its copies included, less what it replaces, removes or prunes. -/
def growth (cfg : StoreConfig) (call : Call) (s : Session Annotation) (e : Effect) : Int :=
  (μ.shell e.name call.env.stamp (s.seq + 1) - μ.shell s.name s.updatedAt s.seq) +
    (μ.canvas e.canvas - μ.canvas s.state.toCanvas) + e.edit.growth μ.annotation s.state.annotations +
    (μ.log (call.log cfg (s.seq + 1) s.activityLog e.activity) - μ.log s.activityLog)

/-- What the state ops of a batch add to the document, one after the other. -/
def growthEach (cfg : StoreConfig) (client : String) : List BatchOp → Session Annotation → Int
  | [], _ => 0
  | .state env op :: ops, s => match s.judge cfg (Walk.call client env op) with
    | .accept e => μ.growth cfg (Walk.call client env op) s e +
        growthEach cfg client ops (s.commit cfg (Walk.call client env op) e (e.edit.contents s.state.annotations))
    | _ => growthEach cfg client ops s
  | _ :: ops, s => growthEach cfg client ops s

/-- The document and its images after an op that the store accepts are within the budgets,
reckoned on the session before it. -/
def Fits (cfg : ManagerConfig) (call : Call) (s : Session Annotation) : Prop :=
  match s.judge cfg.toStoreConfig call with
  | .accept e => μ.document s + μ.growth cfg.toStoreConfig call s e ≤ cfg.maxSessionDocumentBytes ∧
      sessionImageBytes s.state none + e.edit.growth imageAnnotationBytes s.state.annotations ≤ cfg.maxSessionImageBytes
  | _ => True

instance (cfg : ManagerConfig) (call : Call) (s : Session Annotation) : Decidable (μ.Fits cfg call s) := by
  unfold Fits
  split <;> infer_instance

/-- The mark of an undone record fits as well. -/
def FitsMark (cfg : ManagerConfig) (call : Call) (actor : String) (s : Session Annotation) : Prop :=
  match s.judge cfg.toStoreConfig call with
  | .accept e => μ.document s + μ.growth cfg.toStoreConfig call s e +
      (μ.log (Server.markUndone call.env.stamp actor s.activityLog) - μ.log s.activityLog) ≤ cfg.maxSessionDocumentBytes
  | _ => True

instance (cfg : ManagerConfig) (call : Call) (actor : String) (s : Session Annotation) :
    Decidable (μ.FitsMark cfg call actor s) := by
  unfold FitsMark
  split <;> infer_instance

end Measure

theorem sessionImageBytes_none (state : State Annotation) :
    sessionImageBytes state none = (state.annotations.map imageAnnotationBytes).sum := by
  simp [sessionImageBytes]

variable {μ : Measure} {s : Session Annotation} {call : Call}

/-- The accounting of one op: the session after it is as much larger as reckoned before. -/
theorem Session.sizes_commit {cfg : StoreConfig} {e : Effect} (accepted : s.judge cfg call = .accept e) (μ : Measure) :
    let after := s.commit cfg call e (e.edit.contents s.state.annotations)
    (μ.document after : Int) = μ.document s + μ.growth cfg call s e ∧
      (sessionImageBytes after.state none : Int) =
        sessionImageBytes s.state none + e.edit.growth imageAnnotationBytes s.state.annotations := by
  have fits : (s.judge cfg call).Satisfies _ _ := Session.judge_fits call
  rw [accepted] at fits
  have sameLength : ∀ contents, e.edit = .rewrite contents → contents.length = s.state.annotations.length :=
    fun contents same => (fits.rewritten contents same).length_eq.symm
  constructor
  · have sum := AnnotationEdit.sum_contents μ.annotation sameLength
    simp only [Measure.document, Measure.growth, commit]
    omega
  · rw [sessionImageBytes_none, sessionImageBytes_none]
    exact AnnotationEdit.sum_contents _ sameLength

/-! ### The budgets over a run -/

/-- The session is within both budgets. -/
def Session.Within (cfg : ManagerConfig) (s : Session Annotation) : Prop := overBudget cfg s = false

theorem Session.within_iff {cfg : ManagerConfig} (additive : cfg.documentBytes = μ.document) :
    s.Within cfg ↔ sessionImageBytes s.state none ≤ cfg.maxSessionImageBytes ∧
      μ.document s ≤ cfg.maxSessionDocumentBytes := by
  have same : μ.document s.document = μ.document s := rfl
  simp [Within, overBudget, additive, same]

/-- The session after an accepted op is within the budgets if and only if the op fits. -/
theorem Session.within_applied {cfg : ManagerConfig} (additive : cfg.documentBytes = μ.document) {op : Applied Annotation}
    {after : Session Annotation} (applied : s.applyStateOp cfg.toStoreConfig call = .applied op after) :
    after.Within cfg ↔ μ.Fits cfg call s := by
  obtain ⟨e, accepted, -, rfl⟩ := Session.applyStateOp_applied applied
  obtain ⟨document, images⟩ := Session.sizes_commit accepted μ
  rw [Measure.Fits, accepted, Session.within_iff additive]
  omega

namespace Server

variable {cfg : ManagerConfig} {σ τ : Server}

/-- The synchronous writes, the undos and the renames that the store accepts leave the session
within the budgets, which they do not check as `apply_ops` does. -/
def Thrifty (cfg : ManagerConfig) (μ : Measure) (σ : Server) : Action → Prop
  | .write request call => request.persists = true → match σ.prepareWrite cfg request call with
    | (υ, .ok op) => μ.Fits cfg (writeCall request op) υ.memory.view
    | _ => True
  | .undo request _ => request.persists = true → match σ.prepareUndo request with
    | (υ, .ok (_, inverse)) =>
      let s := (υ.forgotten inverse).memory.view
      μ.Fits cfg (undoCall request inverse) s ∧ μ.FitsMark cfg (undoCall request inverse) request.client s
    | _ => True
  | .rename request limitReached name => request.persists = true →
    match σ.getOrCreate request.env.stamp limitReached with
    | some υ => υ.inFlight.isSome = true ∨ μ.Fits cfg (renameCall request name) υ.memory.view
    | none => True
  | _ => True

theorem within_stored (empty : ∀ now, Session.Within cfg { updatedAt := now }) : Session.Stored (Session.Within cfg) :=
  ⟨empty, fun _ within => within⟩

/-- A walk that applies no state op leaves the memory alone. -/
theorem walk_quiet {client : String} {ops : List BatchOp} {start w : Walk} (walked : Walk.run cfg client ops start = .ok w)
    (quiet : ∀ entry ∈ w.pending, entry.applied? = none) : w.memory = start.memory := by
  refine (Walk.run_induction (P := fun w => (∀ entry ∈ w.pending, entry.applied? = none) → w.memory = start.memory)
    (Q := fun _ _ => True) ?_ (fun _ _ => trivial) fun _ => rfl).1 w walked quiet
  intro w op w' kept stepped quiet
  rcases Walk.next_ok stepped with ⟨same, extra, pending, -⟩ | ⟨env, stateOp, applied, -, -, -, -, pending⟩
  · rw [same]
    exact kept fun entry member => quiet entry (pending ▸ List.mem_append_left extra member)
  · have stated := quiet (.state applied) (pending ▸ List.mem_append_right _ List.mem_cons_self)
    cases stated

theorem applyOps_within (empty : ∀ now, Session.Within cfg { updatedAt := now })
    (within : σ.Everywhere (Session.Within cfg)) (now : Nat) (client : String)
    (ops : List BatchOp) : (σ.applyOps cfg now client ops).1.Everywhere (Session.Within cfg) := by
  rcases applyOps_cases cfg now client ops σ with ⟨-, same⟩ | ⟨base, got, ended⟩
  · rw [same]
    exact within
  · have here := get?_everywhere (within_stored empty) within got
    have noFlight : ∀ batch ∈ base.inFlight, Session.Within cfg batch.saved ∧ Session.Within cfg batch.snapshot := here.flight
    have back : ∀ m : Memory, Session.Within cfg
        (m.restore base.memory.view base.memory.ring base.memory.view.name).view := by
      intro m
      rw [Memory.view_restore]
      exact here.memory
    rcases ended with ⟨failure, m, -, same⟩ | ⟨w, walked, ⟨quiet, same⟩ | ⟨-, ⟨-, same⟩ | ⟨checked, same⟩⟩⟩
    · rw [same]
      exact ⟨back m, here.disk, noFlight, here.workers⟩
    · have still : w.memory = base.memory := walk_quiet walked quiet
      obtain ⟨events, claims, leases, committed, -⟩ := commitEach_broadcasts cfg now client
        { base with memory := w.memory, leases := base.leases.prune now } w.pending
      rw [same, commit]
      dsimp only
      rw [committed, still]
      exact ⟨here.memory, here.disk, noFlight, here.workers⟩
    · rw [same]
      exact ⟨back w.memory, here.disk, noFlight, here.workers⟩
    · rw [same]
      refine ⟨checked, here.disk, ?_, here.workers⟩
      rintro batch ⟨⟩
      exact ⟨here.memory, checked⟩

/-- A synchronous write whose op fits keeps the budgets, and a rollback brings back what was there. -/
theorem applyOpSync_within (wf : σ.Wf) (within : σ.Everywhere (Session.Within cfg)) {call : Call} {persists : Bool}
    (fits : persists = true → ∀ applied after, σ.memory.view.applyStateOp cfg.toStoreConfig call = .applied applied after →
      after.Within cfg) (unnamed : call.op.renames = false) :
    (σ.applyOpSync cfg call persists).1.Everywhere (Session.Within cfg) := by
  rcases applyOpSync_cases cfg call persists σ with
    ⟨-, same⟩ | ⟨failure, m, failed, same⟩ | ⟨applied, m, accepted, persisted, same⟩
  · rw [same]
    exact within
  · have name : m.session.name = σ.memory.session.name := by
      have left : (σ.memory.applyStateOp cfg.toStoreConfig call).after? = some m := by
        rcases failed with raised | ⟨applied, accepted, -⟩
        · rw [raised]
          rfl
        · rw [accepted]
          rfl
      exact (Memory.applyStateOp_keeps left).2 fun _ _ => unnamed
    rw [same, name]
    refine ⟨?_, within.disk, within.flight, within.workers⟩
    rw [Memory.view_restore]
    exact within.memory
  · have after := fits persisted _ _ (Memory.view_applied wf.memory accepted)
    rw [same]
    refine ⟨after, ?_, within.flight, within.workers⟩
    rintro _ ⟨⟩
    exact after

theorem write_within (empty : ∀ now, Session.Within cfg { updatedAt := now }) (additive : cfg.documentBytes = μ.document)
    (wf : σ.Wf) (within : σ.Everywhere (Session.Within cfg)) {request : Request} {call : SyncWrite}
    (thrifty : σ.Thrifty cfg μ (.write request call)) : (σ.write cfg request call).1.Everywhere (Session.Within cfg) := by
  rcases write_cases cfg request call σ with looked | ⟨υ, op, prepared, same⟩
  · exact looked.everywhere (within_stored empty) within
  · obtain ⟨looked, -⟩ := prepareWrite_looked cfg request call σ
    have unnamed := prepareWrite_renames (congrArg Prod.snd prepared)
    rw [prepared] at looked
    rw [same]
    apply applyOpSync_within (looked.wf wf) (looked.everywhere (within_stored empty) within) _ unnamed
    intro persists applied after accepted
    have fits := thrifty persists
    rw [prepared] at fits
    exact (Session.within_applied additive accepted).mpr fits

/-- The mark of an undone record, after a replay that records nothing. -/
theorem Session.within_marked (additive : cfg.documentBytes = μ.document) {op : Applied Annotation}
    {after : Session Annotation} {actor : String} (fits : μ.Fits cfg call s) (mark : μ.FitsMark cfg call actor s)
    (silent : call.recordActivity = false) (applied : s.applyStateOp cfg.toStoreConfig call = .applied op after) :
    Session.Within cfg { after with activityLog := markUndone call.env.stamp actor after.activityLog } := by
  have within := (Session.within_applied additive applied).mpr fits
  obtain ⟨e, accepted, -, rfl⟩ := Session.applyStateOp_applied applied
  obtain ⟨document, -⟩ := Session.sizes_commit accepted μ
  rw [Measure.FitsMark, accepted] at mark
  rw [Session.within_iff additive] at within ⊢
  refine ⟨within.1, ?_⟩
  have log : call.log cfg.toStoreConfig (s.seq + 1) s.activityLog e.activity = s.activityLog := by
    unfold Call.log
    split
    · rw [silent, Bool.false_and, Bool.false_and, if_neg Bool.false_ne_true]
    · rfl
  simp only [Measure.document, Session.commit, log] at document mark ⊢
  omega

theorem undo_within (empty : ∀ now, Session.Within cfg { updatedAt := now }) (additive : cfg.documentBytes = μ.document)
    (wf : σ.Wf) (within : σ.Everywhere (Session.Within cfg)) (reversible : σ.Everywhere Session.Reversible)
    {request : Request} {persistsAgain : Bool} (thrifty : σ.Thrifty cfg μ (.undo request persistsAgain)) :
    (σ.undo cfg request persistsAgain).1.Everywhere (Session.Within cfg) := by
  obtain ⟨looked, -⟩ := prepareUndo_looked request σ
  unfold undo
  split
  · rename_i prepared
    rw [prepared] at looked
    exact looked.everywhere (within_stored empty) within
  · rename_i τ record inverse prepared
    have undoable := prepareUndo_undoable reversible prepared
    rw [prepared] at looked
    have here : (τ.forgotten inverse).Everywhere (Session.Within cfg) :=
      withSession_everywhere (looked.everywhere (within_stored empty) within)
        (looked.everywhere (within_stored empty) within).memory
    have forgottenWf : (τ.forgotten inverse).Wf := withSession_wf (looked.wf wf) _ fun _ => rfl
    have unnamed : (undoCall request inverse).op.renames = false := by
      cases inverse <;> first | rfl | cases undoable
    have fits : request.persists = true → μ.Fits cfg (undoCall request inverse) (τ.forgotten inverse).memory.view ∧
        μ.FitsMark cfg (undoCall request inverse) request.client (τ.forgotten inverse).memory.view := by
      intro persists
      have fits := thrifty persists
      rw [prepared] at fits
      exact fits
    have applied := applyOpSync_within forgottenWf here
      (fun persists applied after accepted => (Session.within_applied additive accepted).mpr (fits persists).1) unnamed
    rcases applyOpSync_cases cfg (undoCall request inverse) request.persists (τ.forgotten inverse) with
      ⟨-, same⟩ | ⟨failure, m, -, same⟩ | ⟨applied', m, accepted, persists, same⟩
    all_goals rw [same] at applied
    all_goals
      dsimp only [undoCall, forgotten] at same
      simp only [same]
    · exact applied
    · exact applied
    · have viewed := Memory.view_applied forgottenWf.memory accepted
      have marked := Session.within_marked additive (fits persists).1 (fits persists).2 rfl viewed
      split
      · refine ⟨marked, ?_, applied.flight, applied.workers⟩
        rintro _ ⟨⟩
        exact marked
      · exact ⟨marked, applied.disk, applied.flight, applied.workers⟩

theorem rename_within (empty : ∀ now, Session.Within cfg { updatedAt := now }) (additive : cfg.documentBytes = μ.document)
    (wf : σ.Wf) (within : σ.Everywhere (Session.Within cfg)) {request : Request} {limitReached : Bool}
    {name : Option String} (thrifty : σ.Thrifty cfg μ (.rename request limitReached name)) :
    (σ.rename cfg request limitReached name).1.Everywhere (Session.Within cfg) := by
  unfold rename
  split
  · exact within
  · rename_i υ opened
    have here := getOrCreate_everywhere (within_stored empty) within opened
    split
    · exact here
    · rename_i free
      rcases applyOpSync_cases cfg (renameCall request name) request.persists υ with
        ⟨-, same⟩ | ⟨failure, m, -, same⟩ | ⟨applied, m, accepted, persists, same⟩
      all_goals
        rw [renameCall] at same
        simp only [same]
      · exact here
      · refine ⟨?_, here.disk, here.flight, here.workers⟩
        have restored := Memory.view_restore m υ.memory.view υ.memory.ring m.session.name
        have back : Session.Within cfg { υ.memory.view with
            name := υ.memory.session.name, deletedAnnotationIds := m.session.deletedAnnotationIds } := here.memory
        exact (congrArg (fun s : Session Annotation => Session.Within cfg { s with name := υ.memory.session.name })
          restored).mpr back
      · have fits := thrifty persists
        rw [opened] at fits
        have after := (Session.within_applied additive (Memory.view_applied (getOrCreate_wf wf opened).memory accepted)).mpr
          (fits.resolve_left free)
        refine ⟨after, ?_, here.flight, here.workers⟩
        rintro _ ⟨⟩
        exact after

/-- Every action of which the writes are thrifty keeps the budgets everywhere. -/
theorem step_within (empty : ∀ now, Session.Within cfg { updatedAt := now }) (additive : cfg.documentBytes = μ.document)
    (wf : σ.Wf) (within : σ.Everywhere (Session.Within cfg)) (reversible : σ.Everywhere Session.Reversible)
    {action : Action} {reply : Reply} (thrifty : σ.Thrifty cfg μ action) (stepped : σ.step cfg action = some (τ, reply)) :
    τ.Everywhere (Session.Within cfg) := by
  cases action with
  | applyOps now client ops =>
    simp only [step] at stepped
    split at stepped
    · cases stepped
    · have kept := applyOps_within empty within now client ops
      rw [Option.some.inj stepped] at kept
      exact kept
  | write request call =>
    have kept := write_within empty additive wf within thrifty
    rw [Option.some.inj stepped] at kept
    exact kept
  | undo request persistsAgain =>
    have kept := undo_within empty additive wf within reversible thrifty
    rw [Option.some.inj stepped] at kept
    exact kept
  | rename request limitReached name =>
    have kept := rename_within empty additive wf within thrifty
    rw [Option.some.inj stepped] at kept
    exact kept
  | _ => exact passive_everywhere (within_stored empty) within (by simp) (by simp) (by simp) (by simp) stepped

/-- A write that reports an op leaves the session within the budgets if and only if it is thrifty. -/
theorem write_within_iff (additive : cfg.documentBytes = μ.document) (wf : σ.Wf) {request : Request} {call : SyncWrite}
    {applied : Applied Annotation} {revision : Nat}
    (written : σ.write cfg request call = (τ, .written (some applied) revision)) :
    τ.memory.view.Within cfg ↔ σ.Thrifty cfg μ (.write request call) := by
  obtain ⟨looked, -⟩ := prepareWrite_looked cfg request call σ
  unfold write at written
  split at written
  · rename_i υ reply prepared
    unfold prepareWrite at prepared
    repeat' split at prepared
    all_goals cases (Prod.mk.inj prepared).2
    all_goals cases (Prod.mk.inj written).2
  · rename_i υ op prepared
    rw [prepared] at looked
    have thrifty : σ.Thrifty cfg μ (.write request call) ↔
        (request.persists = true → μ.Fits cfg (writeCall request op) υ.memory.view) := by
      rw [Thrifty, prepared]
    rw [thrifty]
    rcases applyOpSync_cases cfg (writeCall request op) request.persists υ with
      ⟨-, same⟩ | ⟨failure, m, -, same⟩ | ⟨applied', m, accepted, persists, same⟩
    all_goals
      rw [writeCall] at same
      rw [same] at written
      dsimp only at written
    · cases dropped : call.droppedFailure with
      | none =>
        rw [dropped] at written
        cases (Prod.mk.inj written).2
      | some failure =>
        rw [dropped] at written
        cases (Prod.mk.inj written).2
    · cases (Prod.mk.inj written).2
    · obtain ⟨rfl, -⟩ := Prod.mk.inj written
      rw [Session.within_applied additive (Memory.view_applied (looked.wf wf).memory accepted)]
      exact ⟨fun fits _ => fits, fun fits => fits persists⟩

end Server

/-! ### Batches that only delete -/

/-- An op that deletes annotations or removes nodes. -/
def BatchOp.purges : BatchOp → Bool
  | .state _ (.annotationDeleted _ _) | .state _ (.nodesRemoved _) => true
  | _ => false

theorem imageAnnotationBytes_withoutMembers {drop : List String} {a b : Annotation}
    (filtered : a.withoutMembers drop = some b) : imageAnnotationBytes b = imageAnnotationBytes a := by
  unfold Annotation.withoutMembers at filtered
  split at filtered
  · rw [Option.some.inj filtered]
  · rename_i members _
    split at filtered
    · cases filtered
      have kept : ∀ key, key ≠ "member_node_ids" → ∀ members, (a.withMembers members).get key = a.get key := by
        intro key other members
        rw [ Annotation.withMembers, Annotation.get, Dict.get_insert, if_neg other.symm]
        rfl
      rw [imageAnnotationBytes, imageAnnotationBytes, kept "type" (by decide), kept "image" (by decide)]
    · cases filtered

theorem growth_rewrite_same {size : Annotation → Nat} {old contents : List Annotation}
    (same : List.Forall₂ (fun a b => size b = size a) old contents) :
    (AnnotationEdit.rewrite contents).growth size old = 0 := by
  rw [AnnotationEdit.growth]
  induction same with
  | nil => rfl
  | cons first rest ih =>
    rw [List.zipWith_cons_cons, List.sum_cons, ih, first]
    omega

/-- A purge embeds no image, and never fails for the budgets in the store. -/
theorem Session.judge_purges (cfg : StoreConfig) (s : Session Annotation) (client : String) {env : Env} {op : StateOp}
    (purges : (BatchOp.state env op).purges = true) :
    (∀ e, s.judge cfg (Walk.call client env op) = .accept e →
        e.edit.growth imageAnnotationBytes s.state.annotations ≤ 0) ∧
      ∀ canvas contents, s.judge cfg (Walk.call client env op) ≠ .reject .imageBudgetExceeded canvas contents := by
  cases op with
  | annotationDeleted annotationId id =>
    simp only [judge, Walk.call, plan, planAnnotationDeleted]
    split
    · constructor
      · rintro e ⟨⟩
        simp only [AnnotationEdit.growth]
        omega
      · rintro canvas contents ⟨⟩
    · constructor
      · rintro e ⟨⟩
      · rintro canvas contents ⟨⟩
  | nodesRemoved nodeIds =>
    simp only [judge, Walk.call, plan, planNodesRemoved]
    cases checked : requireIdList "nodes_removed" "node_ids" nodeIds with
    | error failure =>
      unfold requireIdList at checked
      split at checked
      · cases checked
      · cases checked
        constructor
        · rintro e ⟨⟩
        · rintro canvas contents ⟨⟩
    | ok removals =>
      simp only [validated]
      cases filtered : dropMembers removals s.state.annotations with
      | error contents =>
        constructor
        · rintro e ⟨⟩
        · rintro canvas contents ⟨⟩
      | ok contents =>
        constructor
        · rintro e ⟨⟩
          exact (growth_rewrite_same (dropMembers_forall₂
            (fun a b => imageAnnotationBytes_withoutMembers) filtered)).le
        · rintro canvas contents ⟨⟩
  | _ => cases purges

namespace Server

variable {cfg : ManagerConfig} {σ : Server}

theorem leaseConflict_ne_budget {client : String} {leases : Dict String} {state : State Annotation} {op : StateOp}
    {failure : Failure} (conflict : leaseConflict client leases state op = some failure) :
    failure ≠ .imageBudgetExceeded := by
  obtain ⟨id, -, held⟩ := Option.bind_eq_some_iff.mp conflict
  obtain ⟨holder, -, refused⟩ := Option.bind_eq_some_iff.mp held
  split at refused
  · cases refused
    simp
  · cases refused

/-- A walk over purges adds to the document what is reckoned before it, adds no image bytes,
and is not ended by the budgets. -/
theorem walk_purges (μ : Measure) {client : String} {ops : List BatchOp} (purges : ∀ op ∈ ops, op.purges = true)
    {w : Walk} (wf : w.memory.Wf) :
    (∀ w', Walk.run cfg client ops w = .ok w' → (μ.document w'.memory.view : Int) =
          μ.document w.memory.view + μ.growthEach cfg.toStoreConfig client ops w.memory.view ∧
        sessionImageBytes w'.memory.view.state none ≤ sessionImageBytes w.memory.view.state none) ∧
      ∀ m, Walk.run cfg client ops w ≠ .error (.imageBudgetExceeded, m) := by
  induction ops generalizing w with
  | nil =>
    constructor
    · intro w' ended
      cases ended
      simp [Measure.growthEach]
    · intro m ended
      cases ended
  | cons op ops ih =>
    have here := purges op List.mem_cons_self
    have later := fun op member => purges op (List.mem_cons_of_mem _ member)
    cases op with
    | state env op =>
      obtain ⟨shrinks, unbudgeted⟩ := w.memory.view.judge_purges cfg.toStoreConfig client here
      cases conflict : leaseConflict client w.leases w.memory.view.state op with
      | some failure =>
        have other := leaseConflict_ne_budget conflict
        have stepped : w.next cfg client (.state env op) = .error (failure, w.memory) := by
          simp only [Walk.next, conflict]
        rw [Walk.run, stepped]
        refine ⟨fun w' ended => absurd ended (by simp), fun m ended => ?_⟩
        cases ended
        exact other rfl
      | none =>
        cases verdict : w.memory.view.judge cfg.toStoreConfig (Walk.call client env op) with
        | reject failure canvas contents =>
          obtain ⟨after, stepped⟩ : ∃ after, w.next cfg client (.state env op) = .error (failure, after) := by
            simp only [Walk.next, conflict, Memory.applyStateOp]
            rw [Walk.call] at verdict
            rw [verdict]
            exact ⟨_, rfl⟩
          rw [Walk.run, stepped]
          refine ⟨fun w' ended => absurd ended (by simp), fun m ended => ?_⟩
          cases ended
          exact unbudgeted canvas contents verdict
        | drop =>
          have stepped : w.next cfg client (.state env op) = .ok w := by
            simp only [Walk.next, conflict, Memory.applyStateOp]
            rw [Walk.call] at verdict
            rw [verdict]
          simp only [Walk.run, stepped, Measure.growthEach, verdict]
          exact ih later wf
        | accept e =>
          have outcome : ∃ applied after, w.memory.applyStateOp cfg.toStoreConfig (Walk.call client env op) =
              .applied applied after := by
            simp only [Memory.applyStateOp, verdict]
            exact ⟨_, _, rfl⟩
          obtain ⟨applied, after, accepted⟩ := outcome
          have stepped : w.next cfg client (.state env op) =
              .ok { w with memory := after, pending := w.pending ++ [.state applied] } := by
            rw [Walk.call] at accepted
            simp only [Walk.next, conflict, accepted]
          obtain ⟨e', accepted', -, view⟩ := Session.applyStateOp_applied (Memory.view_applied wf accepted)
          rw [verdict] at accepted'
          cases accepted'
          obtain ⟨document, images⟩ := Session.sizes_commit verdict μ
          rw [← view] at document images
          have afterWf := (Memory.applyStateOp_extends wf (congrArg Outcome.after? accepted)).wf
          obtain ⟨rest, unended⟩ := @ih later { w with memory := after, pending := w.pending ++ [.state applied] } afterWf
          simp only [Walk.run, stepped, Measure.growthEach, verdict, ← view]
          refine ⟨fun w' ended => ?_, unended⟩
          obtain ⟨document', images'⟩ := rest w' ended
          have shrunk := shrinks e verdict
          dsimp only at document' images'
          omega
    | _ => cases here

/-- A batch that only deletes is accepted only if there is room for what it stores in the log
less what it frees, and where there is room the budgets do not refuse it. -/
theorem purge_room (additive : cfg.documentBytes = μ.document) (empty : ∀ now, Session.Within cfg { updatedAt := now })
    (wf : σ.Wf) (within : σ.Everywhere (Session.Within cfg)) {now : Nat} {client : String} {ops : List BatchOp}
    (purges : ∀ op ∈ ops, op.purges = true) {s : Session Annotation} (present : σ.session? = some s) :
    let room := μ.document s + μ.growthEach cfg.toStoreConfig client ops s ≤ cfg.maxSessionDocumentBytes
    ((σ.applyOps cfg now client ops).2 = .suspended → room) ∧
      (room → (σ.applyOps cfg now client ops).2 ≠ .raised .imageBudgetExceeded) := by
  rcases applyOps_cases cfg now client ops σ with ⟨-, same⟩ | ⟨base, got, ended⟩
  · rw [same]
    simp
  · have here := (get?_everywhere (within_stored empty) within got).memory
    have view : base.memory.view = s := by
      rw [session?, got] at present
      exact Option.some.inj present
    obtain ⟨sizes, unended⟩ := @walk_purges cfg μ client ops purges
      { memory := base.memory, leases := (base.leases.prune now).snapshot now } (get?_wf wf got).memory
    dsimp only at sizes
    rw [view] at sizes here
    rw [Session.within_iff additive] at here
    rcases ended with ⟨failure, m, failed, same⟩ | ⟨w, walked, ⟨-, same⟩ | ⟨-, ⟨exceeds, same⟩ | ⟨within, same⟩⟩⟩
    · rw [same]
      refine ⟨by simp, ?_⟩
      rintro - ⟨⟩
      exact unended m failed
    · rw [same]
      simp [commit]
    · obtain ⟨document, images⟩ := sizes w walked
      have beyond : ¬w.memory.view.Within cfg := by simp [Session.Within, exceeds]
      rw [Session.within_iff additive] at beyond
      refine ⟨by simp [same], fun room => ?_⟩
      omega
    · obtain ⟨document, images⟩ := sizes w walked
      have inside := (Session.within_iff additive).mp within
      rw [same]
      refine ⟨fun _ => ?_, by simp⟩
      omega

instance (cfg : ManagerConfig) (μ : Measure) (σ : Server) (action : Action) : Decidable (σ.Thrifty cfg μ action) := by
  unfold Thrifty
  split
  · split <;> infer_instance
  · split <;> infer_instance
  · split <;> infer_instance
  · infer_instance

end Server

/-! ### Texts as a measure -/

/-- The length of the text of an annotation dict. -/
def textSize (fields : Dict Json) : Nat :=
  match fields.get "text" with
  | .str text => text.length
  | _ => 0

/-- Only the texts count, in the annotations and in the copies that a record holds. -/
def textMeasure : Measure where
  shell _ _ _ := 0
  canvas _ := 0
  annotation a := textSize a.fields
  record r := snapshotSize r.before + snapshotSize r.after + inverseSize r.inverseOp
where
  snapshotSize : Snapshot → Nat
    | .annotationValue (some a) => textSize a.fields
    | _ => 0
  inverseSize : Option StateOp → Nat
    | some (.annotationCreated (some fields)) | some (.annotationUpdated (some fields) _) => textSize fields
    | _ => 0

def textBudget (bytes : Nat) : ManagerConfig :=
  { maxSessionDocumentBytes := bytes, documentBytes := textMeasure.document }

/-- The op that a write reports, with the revision. -/
def Reply.written? : Reply → Option (Applied Annotation × Nat)
  | .written (some op) revision => some (op, revision)
  | _ => none

theorem Reply.eq_of_written? {reply : Reply} {op : Applied Annotation} {revision : Nat}
    (reports : reply.written? = some (op, revision)) : reply = .written (some op) revision := by
  unfold written? at reports
  split at reports
  · cases reports
    rfl
  · cases reports

namespace Server

/-- A batch creates two notes. -/
def notesRun : List Action :=
  [.getOrCreate 0 false,
    .applyOps 0 "ada" [.state sampleEnv (.annotationCreated (some (sampleNote "a" "abc"))),
      .state sampleEnv (.annotationCreated (some (sampleNote "b" "abc")))],
    .persistDone 0 true]

def sampleRequest : Request := { env := sampleEnv, now := 0, client := "agent" }

def deletion : List BatchOp := [.state sampleEnv (.annotationDeleted (.str "b") .null)]

def lengthening : SyncWrite := .annotationUpdate (some (sampleNote "a" "abcdefg")) .null

end Server

end MetadataGraph
