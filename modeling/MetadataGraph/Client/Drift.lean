import MetadataGraph.Client.Diff
import MetadataGraph.Lib.Runs
import MetadataGraph.Session.Effects
import MetadataGraph.Session.Undo
import MetadataGraph.Graph.Models

namespace MetadataGraph.Client

open Runs

/-! ### The ops on the server -/

/-- The ops of a client, applied one after the other; a batch that is refused ends it. -/
def deliver (cfg : StoreConfig) (client : String) (env : Nat → Env) : Nat → List StateOp → Session Annotation →
    Option (Session Annotation)
  | _, [], s => some s
  | i, op :: ops, s => match s.applyStateOp cfg { env := env i, client, op } with
    | .applied _ after => deliver cfg client env (i + 1) ops after
    | .dropped => deliver cfg client env (i + 1) ops s
    | .raised _ _ => none

section Deliver

variable {cfg : StoreConfig} {client : String} {env : Nat → Env} {s t : Session Annotation}

theorem deliver_append {first rest : List StateOp} {i : Nat} (delivered : deliver cfg client env i (first ++ rest) s = some t) :
    ∃ u, deliver cfg client env i first s = some u ∧ deliver cfg client env (i + first.length) rest u = some t := by
  induction first generalizing i s with
  | nil => exact ⟨s, rfl, delivered⟩
  | cons op first ih =>
    rw [List.cons_append, deliver] at delivered
    rw [deliver, List.length_cons]
    have further : i + (first.length + 1) = i + 1 + first.length := by omega
    rw [further]
    cases outcome : s.applyStateOp cfg { env := env i, client, op } with
    | applied _ after =>
      rw [outcome] at delivered
      exact ih delivered
    | dropped =>
      rw [outcome] at delivered
      exact ih delivered
    | raised _ _ =>
      rw [outcome] at delivered
      cases delivered

/-- What an accepted op leaves of the canvas is in its effect. -/
theorem deliver_canvas {P : Canvas → Prop} {op : StateOp} {i : Nat}
    (planned : ∀ call : Call, call.op = op → (s.judge cfg call).Satisfies (fun e => P e.canvas) fun _ _ => True)
    (kept : s.judge cfg { env := env i, client, op } = .drop → P s.state.toCanvas)
    (delivered : deliver cfg client env i [op] s = some t) : P t.state.toCanvas := by
  have spec := planned { env := env i, client, op } rfl
  rw [deliver, Session.applyStateOp] at delivered
  cases verdict : s.judge cfg { env := env i, client, op } with
  | drop =>
    rw [verdict] at delivered
    obtain rfl := Option.some.inj delivered
    exact kept verdict
  | reject failure canvas contents =>
    rw [verdict] at delivered
    cases delivered
  | accept e =>
    rw [verdict] at delivered spec
    obtain rfl := Option.some.inj delivered
    exact spec

/-- An op that is not about nodes and their places. -/
def Quiet : StateOp → Prop
  | .nodesAdded _ | .nodesRemoved _ | .nodeMoved _ _ | .layoutApplied _ => False
  | _ => True

/-- The nodes and their places are the same. -/
def SamePlaces (c d : Canvas) : Prop := d.nodeRefs = c.nodeRefs ∧ d.positions = c.positions

theorem samePlaces_setIds (c : Canvas) (set : IdSet) (ids : List String) : SamePlaces c (c.setIds set ids) :=
  ⟨c.nodeRefs_setIds set ids, c.positions_setIds set ids⟩

theorem plan_quiet {trusted : Bool} {e : Env} {op : StateOp} (quiet : Quiet op) :
    (s.plan cfg e client trusted op).Satisfies (fun e => SamePlaces s.state.toCanvas e.canvas) fun _ _ => True := by
  have same : SamePlaces s.state.toCanvas s.state.toCanvas := ⟨rfl, rfl⟩
  have checked : ∀ {α : Type} {c : Except Failure α} {accept : α → Verdict},
      (∀ value, c = .ok value → (accept value).Satisfies (fun e => SamePlaces s.state.toCanvas e.canvas) fun _ _ => True) →
      (s.validated c accept).Satisfies (fun e => SamePlaces s.state.toCanvas e.canvas) fun _ _ => True :=
    fun valid => Session.validated_satisfies trivial valid
  cases op with
  | nodesAdded _ => exact quiet.elim
  | nodesRemoved _ => exact quiet.elim
  | nodeMoved _ _ => exact quiet.elim
  | layoutApplied _ => exact quiet.elim
  | idsAdded set ids => exact checked fun _ _ => samePlaces_setIds _ _ _
  | idsDropped set ids => exact checked fun _ _ => samePlaces_setIds _ _ _
  | edgesAdded _ => exact checked fun _ _ => same
  | edgesRemoved _ => exact checked fun _ _ => same
  | edgesUpdated _ => exact checked fun _ _ => same
  | edgeIntensitySet _ => exact checked fun _ _ => same
  | annotationCreated payload =>
    refine checked fun ann valid => ?_
    dsimp only
    repeat' split
    all_goals first | exact trivial | exact same
  | annotationUpdated payload baseVersion =>
    refine checked fun incoming valid => ?_
    repeat' split
    all_goals first | exact trivial | exact same
  | annotationDeleted annotationId id =>
    simp only [Session.plan, Session.planAnnotationDeleted]
    split
    · exact same
    · exact trivial
  | groupMembershipChanged groupId members =>
    simp only [Session.plan, Session.planGroupMembershipChanged]
    split
    · refine checked fun _ _ => ?_
      split
      · exact trivial
      · exact same
    · exact trivial
  | sessionRenamed name =>
    simp only [Session.plan, Session.planSessionRenamed]
    split
    · exact same
    · exact same
    · exact trivial

theorem deliver_quiet {ops : List StateOp} (quiet : ∀ op ∈ ops, Quiet op) {i : Nat}
    (delivered : deliver cfg client env i ops s = some t) : SamePlaces s.state.toCanvas t.state.toCanvas := by
  induction ops generalizing i s with
  | nil =>
    obtain rfl := Option.some.inj delivered
    exact ⟨rfl, rfl⟩
  | cons op ops ih =>
    obtain ⟨u, first, rest⟩ := @deliver_append cfg client env s t [op] ops i delivered
    have planned : ∀ call : Call, call.op = op →
        (s.judge cfg call).Satisfies (fun e => SamePlaces s.state.toCanvas e.canvas) fun _ _ => True := by
      rintro call rfl
      exact plan_quiet (quiet _ List.mem_cons_self)
    have here : SamePlaces s.state.toCanvas u.state.toCanvas := deliver_canvas planned (fun _ => ⟨rfl, rfl⟩) first
    have there := ih (fun op member => quiet op (List.mem_cons_of_mem _ member)) rest
    exact ⟨there.1.trans here.1, there.2.trans here.2⟩

theorem requireIdList_ofStrings (opName key : String) (ids : List String) :
    requireIdList opName key (.ofStrings ids) = .ok ids := by
  rw [requireIdList, Json.strings?_ofStrings]

theorem deliver_nodesAdded {ids : List String} {i : Nat}
    (delivered : deliver cfg client env i (idsOp .nodesAdded ids) s = some t) :
    (∀ id, id ∈ t.state.nodeRefs ↔ id ∈ s.state.nodeRefs ∨ id ∈ ids) ∧ t.state.positions = s.state.positions := by
  rw [idsOp] at delivered
  split at delivered
  · rename_i none_new
    obtain rfl := Option.some.inj delivered
    simp [none_new]
  · rw [deliver, Session.applyStateOp, Session.judge, Session.plan, Session.planNodesAdded,
      requireIdList_ofStrings] at delivered
    obtain rfl := Option.some.inj delivered
    exact ⟨fun id => mem_union, rfl⟩

theorem deliver_nodesRemoved {ids : List String} {i : Nat}
    (delivered : deliver cfg client env i (idsOp .nodesRemoved ids) s = some t) :
    (∀ id, id ∈ t.state.nodeRefs ↔ id ∈ s.state.nodeRefs ∧ id ∉ ids) ∧
      ∀ id ∉ ids, t.state.positions[id]? = s.state.positions[id]? := by
  rw [idsOp] at delivered
  split at delivered
  · rename_i none_gone
    obtain rfl := Option.some.inj delivered
    simp [none_gone]
  · rw [deliver, Session.applyStateOp, Session.judge, Session.plan, Session.planNodesRemoved,
      requireIdList_ofStrings] at delivered
    dsimp only [Session.validated] at delivered
    cases filtered : dropMembers ids s.state.annotations with
    | error contents =>
      rw [filtered] at delivered
      cases delivered
    | ok contents =>
      rw [filtered] at delivered
      obtain rfl := Option.some.inj delivered
      refine ⟨fun id => mem_removeAll, fun id stays => ?_⟩
      show (s.state.positions.filter fun k _ => k ∉ ids)[id]? = s.state.positions[id]?
      rw [Std.ExtTreeMap.getElem?_filter']
      cases s.state.positions[id]? with
      | none => rfl
      | some p => simp [stays]

/-- Moves one after the other. -/
theorem deliver_moves {moved : List (String × Position)} (distinct : (moved.map Prod.fst).Nodup) {i : Nat}
    (delivered : deliver cfg client env i (moved.map fun entry => .nodeMoved (.str entry.1) entry.2.toJson) s = some t) :
    t.state.nodeRefs = s.state.nodeRefs ∧
      ∀ id, t.state.positions[id]? = (moved.lookup id).or s.state.positions[id]? := by
  induction moved generalizing i s with
  | nil =>
    obtain rfl := Option.some.inj delivered
    exact ⟨rfl, fun id => rfl⟩
  | cons entry moved ih =>
    obtain ⟨id, position⟩ := entry
    obtain ⟨fresh, distinct⟩ := List.nodup_cons.mp distinct
    rw [List.map_cons, deliver, Session.applyStateOp, Session.judge, Session.plan, Session.planNodeMoved,
      validatePosition, Position.position?_toJson] at delivered
    obtain ⟨refs, positions⟩ := ih distinct delivered
    refine ⟨refs, fun other => ?_⟩
    rw [positions, OrderedDict.lookup_cons]
    show (moved.lookup other).or (s.state.positions.insert id position)[other]? = _
    simp only [Std.ExtTreeMap.getElem?_insert, Std.LawfulEqCmp.compare_eq_iff_eq]
    by_cases same : other = id
    · subst same
      have absent : moved.lookup other = none := by
        rw [List.lookup_eq_none_iff]
        intro entry member
        exact bne_iff_ne.mpr fun same => fresh (List.mem_map.mpr ⟨entry, member, same.symm⟩)
      simp [absent]
    · rw [if_neg same, if_neg fun no => same no.symm]

theorem lookup_map_snd {β γ : Type} (f : β → γ) (entries : List (String × β)) (key : String) :
    (entries.map fun entry => (entry.1, f entry.2)).lookup key = (entries.lookup key).map f := by
  induction entries with
  | nil => rfl
  | cons entry entries ih =>
    rw [List.map_cons, OrderedDict.lookup_cons, OrderedDict.lookup_cons, ih]
    split <;> rfl

theorem of_map_snd {β γ : Type} (f : β → γ) {entries : List (String × β)} (distinct : (entries.map Prod.fst).Nodup) :
    Dict.of (entries.map fun entry => (entry.1, f entry.2)) = (Dict.of entries).map fun _ => f := by
  have distinct' : ((entries.map fun entry => (entry.1, f entry.2)).map Prod.fst).Nodup := by
    rw [List.map_map]
    exact distinct
  apply Std.ExtTreeMap.ext_getElem?
  intro key
  rw [Dict.getElem?_of_eq_lookup distinct', getElem?_map, Dict.getElem?_of_eq_lookup distinct, lookup_map_snd]

theorem deliver_layout {moved : List (String × Position)} (distinct : (moved.map Prod.fst).Nodup) {i : Nat}
    (delivered : deliver cfg client env i
      [.layoutApplied (some (Dict.of (moved.map fun entry => (entry.1, entry.2.toJson))))] s = some t) :
    t.state.nodeRefs = s.state.nodeRefs ∧
      ∀ id, t.state.positions[id]? = (moved.lookup id).or s.state.positions[id]? := by
  have valid : validatePositions (some (Dict.of (moved.map fun entry => (entry.1, entry.2.toJson)))) =
      .ok ((Dict.of moved).map fun _ position => position) := by
    rw [of_map_snd Position.toJson distinct]
    exact validatePositions_toJson (Dict.of moved) fun _ position => position
  rw [deliver, Session.applyStateOp, Session.judge, Session.plan, Session.planLayoutApplied, valid] at delivered
  obtain rfl := Option.some.inj delivered
  refine ⟨rfl, fun id => ?_⟩
  show (s.state.positions ∪ (Dict.of moved).map fun _ position => position)[id]? = _
  rw [Std.ExtTreeMap.getElem?_union, getElem?_map, Option.map_id', Dict.getElem?_of_eq_lookup distinct]

end Deliver

/-! ### A diff on the server -/

theorem mem_uniqueIds {ids : List String} {id : String} : id ∈ uniqueIds ids ↔ id ∈ ids := by
  rw [uniqueIds, mem_union, or_iff_right List.not_mem_nil]

theorem uniqueIds_nodup (ids : List String) : (uniqueIds ids).Nodup := union_nodup List.nodup_nil ids

theorem normalizeMirror_tidy (s : Mirror) : (normalizeMirror s).toCanvas.Tidy := by
  refine ⟨uniqueIds_nodup _, fun set => ?_, le_max_left _ _, max_le zero_le_one (min_le_left _ _)⟩
  cases set <;> exact uniqueIds_nodup _

theorem normalizeMirror_idem (s : Mirror) : normalizeMirror (normalizeMirror s) = normalizeMirror s := by
  rw [normalizeMirror_of_tidy (normalizeMirror_tidy s)]
  have again : (normalizeMirror s).positions.map (fun _ => roundPos) = (normalizeMirror s).positions :=
    congrArg (fun t : Mirror => t.positions) (rounded_rounded s)
  rw [rounded, again]

theorem mem_diffAdded {prev next : List String} {id : String} : id ∈ diffAdded prev next ↔ id ∈ next ∧ id ∉ prev := by
  rw [diffAdded, List.mem_filter, decide_eq_true_eq]

theorem lookup_moves (prev next : Mirror) (id : String) :
    (moves prev next).lookup id = if id ∈ movedIds prev next then next.positions[id]? else none := by
  rw [moves]
  induction movedIds prev next with
  | nil => rfl
  | cons other ids ih =>
    cases found : next.positions[other]? with
    | none =>
      rw [List.filterMap_cons_none (by rw [found]; rfl), ih]
      by_cases same : id = other
      · subst same
        simp [found]
      · simp [same]
    | some position =>
      rw [List.filterMap_cons_some (b := (other, position)) (by rw [found]; rfl), OrderedDict.lookup_cons, ih]
      by_cases same : id = other
      · subst same
        simp [found]
      · simp [same]

theorem moves_distinct {prev next : Mirror} (distinct : next.nodeRefs.Nodup) : ((moves prev next).map Prod.fst).Nodup := by
  have sublist : ∀ ids : List String, ((ids.filterMap fun id => (next.positions[id]?).map fun position =>
      (id, position)).map Prod.fst).Sublist ids := by
    intro ids
    induction ids with
    | nil => exact .slnil
    | cons id ids ih =>
      cases found : next.positions[id]? with
      | none =>
        rw [List.filterMap_cons_none (by rw [found]; rfl)]
        exact ih.cons id
      | some position =>
        rw [List.filterMap_cons_some (b := (id, position)) (by rw [found]; rfl)]
        exact ih.cons_cons id
  exact (sublist _).nodup (distinct.filter _)

section Server

variable {cfg : StoreConfig} {client : String} {env : Nat → Env} {s t : Session Annotation} {prev next : Mirror}

theorem deliver_positionOps (distinct : next.nodeRefs.Nodup) {i : Nat}
    (delivered : deliver cfg client env i (positionOps prev next) s = some t) :
    t.state.nodeRefs = s.state.nodeRefs ∧
      ∀ id, t.state.positions[id]? =
        (if id ∈ movedIds prev next then next.positions[id]? else none).or s.state.positions[id]? := by
  simp only [← lookup_moves]
  rw [positionOps] at delivered
  split at delivered
  · exact deliver_layout (moves_distinct distinct) delivered
  · exact deliver_moves (moves_distinct distinct) delivered

theorem quiet_setOps (set : IdSet) : ∀ op ∈ setOps prev next set, Quiet op := by
  intro op member
  rcases List.mem_append.mp member with gained | lost
  · rw [idsOp] at gained
    split at gained
    · cases gained
    · obtain rfl := List.mem_singleton.mp gained
      trivial
  · rw [idsOp] at lost
    split at lost
    · cases lost
    · obtain rfl := List.mem_singleton.mp lost
      trivial

theorem quiet_updateOps {ignoreMembers : Bool} {before ann : Dict Json} :
    ∀ o ∈ updateOps ignoreMembers before ann, Quiet o.op := by
  intro o member
  rw [updateOps] at member
  split at member
  · cases member
  · obtain rfl := List.mem_singleton.mp member
    trivial

theorem quiet_annotationOps {before : Option (Dict Json)} {id : Json} {ann : Dict Json} :
    ∀ o ∈ annotationOps before id ann, Quiet o.op := by
  intro o member
  cases before with
  | none =>
    obtain rfl := List.mem_singleton.mp member
    trivial
  | some before =>
    simp only [annotationOps] at member
    split at member
    · rcases List.mem_append.mp member with membership | update
      · split at membership
        · cases membership
        · obtain rfl := List.mem_singleton.mp membership
          trivial
      · exact quiet_updateOps o update
    · exact quiet_updateOps o member

theorem quiet_annotationsOps : ∀ o ∈ annotationsOps prev next, Quiet o.op := by
  intro o member
  rcases List.mem_append.mp member with now | gone
  · obtain ⟨entry, _, member⟩ := List.mem_flatMap.mp now
    exact quiet_annotationOps o member
  · obtain ⟨id, _, rfl⟩ := List.mem_map.mp gone
    trivial

/-- The ops between the moves and the removals. -/
def quietOps (prev next : Mirror) : List StateOp :=
  setOps prev next .hiddenNodes ++ setOps prev next .hiddenEdges ++ setOps prev next .dimmedNodes ++
    setOps prev next .dimmedEdges ++ intensityOps prev next ++ (annotationsOps prev next).map (·.op)

theorem quiet_quietOps : ∀ op ∈ quietOps prev next, Quiet op := by
  intro op member
  simp only [quietOps, List.mem_append, or_assoc] at member
  rcases member with hidden | edges | dimmed | dimmedEdges | intensity | annotation
  · exact quiet_setOps _ op hidden
  · exact quiet_setOps _ op edges
  · exact quiet_setOps _ op dimmed
  · exact quiet_setOps _ op dimmedEdges
  · rw [intensityOps] at intensity
    split at intensity
    · obtain rfl := List.mem_singleton.mp intensity
      trivial
    · cases intensity
  · obtain ⟨o, member, rfl⟩ := List.mem_map.mp annotation
    exact quiet_annotationsOps o member

theorem computeOps_wire (prevState nextState : Mirror) :
    let prev := normalizeMirror prevState
    let next := normalizeMirror nextState
    (computeOps prevState nextState).map (·.op) =
      idsOp .nodesAdded (diffAdded prev.nodeRefs next.nodeRefs) ++ (positionOps prev next ++
        (quietOps prev next ++ removalOps prev next)) := by
  have wire : ∀ ops : List StateOp, (ops.map (LocalOp.mk · [])).map (·.op) = ops := fun ops => by
    rw [List.map_map]
    exact List.map_id ops
  dsimp only
  rw [computeOps]
  rw [List.map_append, List.map_append, wire, wire, canvasOps, quietOps]
  simp only [List.append_assoc]

/-- The server has the nodes of the new state, and for each of them the place that was sent, or else its old one. -/
theorem deliver_computeOps {prevState nextState : Mirror}
    (refs : ∀ id, id ∈ s.state.nodeRefs ↔ id ∈ (normalizeMirror prevState).nodeRefs)
    (delivered : deliver cfg client env 0 ((computeOps prevState nextState).map (·.op)) s = some t) :
    (∀ id, id ∈ t.state.nodeRefs ↔ id ∈ (normalizeMirror nextState).nodeRefs) ∧
      ∀ id ∈ (normalizeMirror nextState).nodeRefs, t.state.positions[id]? =
        (if id ∈ movedIds (normalizeMirror prevState) (normalizeMirror nextState) then
          (normalizeMirror nextState).positions[id]? else none).or s.state.positions[id]? := by
  rw [computeOps_wire] at delivered
  obtain ⟨added, atAdded, delivered⟩ := deliver_append delivered
  obtain ⟨moved, atMoved, delivered⟩ := deliver_append delivered
  obtain ⟨quiet, atQuiet, atRemoved⟩ := deliver_append delivered
  obtain ⟨addedRefs, addedPositions⟩ := deliver_nodesAdded atAdded
  obtain ⟨movedRefs, movedPositions⟩ := deliver_positionOps (normalizeMirror_tidy nextState).nodeRefs atMoved
  obtain ⟨quietRefs, quietPositions⟩ := deliver_quiet quiet_quietOps atQuiet
  obtain ⟨removedRefs, removedPositions⟩ := deliver_nodesRemoved atRemoved
  refine ⟨fun id => ?_, fun id stays => ?_⟩
  · rw [removedRefs, quietRefs, movedRefs, addedRefs, refs, mem_diffAdded, mem_diffAdded]
    tauto
  · have kept : id ∉ diffAdded (normalizeMirror nextState).nodeRefs (normalizeMirror prevState).nodeRefs := by
      rw [mem_diffAdded]
      exact fun gone => gone.2 stays
    rw [removedPositions id kept, quietPositions, movedPositions, addedPositions]

end Server

/-! ### One client alone -/

/-- The client's baseline, what its canvas shows, and the session on the server. -/
structure Syncing where
  baseline : Mirror
  canvas : Mirror
  server : Session Annotation

/-- A call of `syncState`, with the times and ids at which the server takes its ops, and the annotations of
the baseline once their acks have been folded in. -/
structure SyncCall where
  state : Mirror
  env : Nat → Env
  acked : List (Dict Json) := []

namespace Syncing

variable (cfg : StoreConfig) (client : String) (number : Json → Option ℚ)

/-- A call of `syncState`, and the delivery of all its ops. -/
def step (σ : Syncing) (call : SyncCall) : Option (Syncing × Unit) :=
  let synced := syncState number σ.baseline call.state
  (deliver cfg client call.env 0 (synced.2.map (·.op)) σ.server).map fun server =>
    ({ baseline := { synced.1 with annotations := call.acked }, canvas := call.state, server }, ())

/-- The client has read the session. -/
structure Joined (isoformat : Nat → String) (σ : Syncing) : Prop where
  canvas : σ.canvas = sent isoformat σ.server.state
  baseline : σ.baseline = normalizeMirror σ.canvas

/-- Every node that the session and the canvas have is at the same place in both, up to the epsilon and the rounding
of the mirror. -/
def Settled (σ : Syncing) : Prop :=
  ∀ id ∈ σ.server.state.nodeRefs, ∀ p, σ.canvas.positions[id]? = some p →
    ∃ sp, σ.server.state.positions[id]? = some sp ∧ samePos (roundPos sp) (roundPos p) = true

/-- A node that is close to its place in the call before is close to the place that was last sent as well. -/
def StaysClose (σ : Syncing) (call : SyncCall) : Prop :=
  ∀ id ∈ call.state.nodeRefs, ∀ p q, call.state.positions[id]? = some p → σ.canvas.positions[id]? = some q →
    samePos (roundPos q) (roundPos p) = true →
    ∃ sp, σ.server.state.positions[id]? = some sp ∧ samePos (roundPos sp) (roundPos p) = true

/-- The baseline is the canvas of the last call, and the session has its nodes. -/
structure Mirrored (σ : Syncing) : Prop where
  baseline : (normalizeMirror σ.baseline).toCanvas = (normalizeMirror σ.canvas).toCanvas
  refs : ∀ id, id ∈ σ.server.state.nodeRefs ↔ id ∈ (normalizeMirror σ.baseline).nodeRefs

variable {cfg client number} {isoformat : Nat → String} {σ τ : Syncing} {call : SyncCall}

theorem Joined.mirrored (joined : σ.Joined isoformat) : σ.Mirrored := by
  have same : normalizeMirror σ.baseline = normalizeMirror σ.canvas := by rw [joined.baseline, normalizeMirror_idem]
  refine ⟨by rw [same], fun id => ?_⟩
  rw [same, joined.canvas]
  exact mem_uniqueIds.symm

theorem samePos_self (p : Position) : samePos p p = true := by
  simp [samePos, positionEpsilon]

theorem Joined.settled (joined : σ.Joined isoformat) : σ.Settled := by
  intro id _ p shown
  rw [joined.canvas] at shown
  exact ⟨p, shown, samePos_self _⟩

theorem getElem?_positions (s : Mirror) (id : String) : (normalizeMirror s).positions[id]? = (s.positions[id]?).map roundPos :=
  getElem?_map roundPos s.positions id

theorem normalizeMirror_toCanvas {s t : Mirror} (same : s.toCanvas = t.toCanvas) :
    (normalizeMirror s).toCanvas = (normalizeMirror t).toCanvas := by
  obtain ⟨c, a⟩ := s
  obtain ⟨d, b⟩ := t
  obtain rfl : c = d := same
  rfl

/-- A node stays unsent where it was close to its place before. -/
theorem mem_movedIds {prev next : Mirror} {id : String} {p : Position} (member : id ∈ next.nodeRefs)
    (placed : next.positions[id]? = some p) :
    id ∈ movedIds prev next ↔ ∀ q, prev.positions[id]? = some q → samePos q p = false := by
  rw [movedIds, List.mem_filter, placed, and_iff_right member]
  cases before : prev.positions[id]? with
  | none => simp
  | some q => simp

theorem step_spec (mirrored : σ.Mirrored) (taken : step cfg client number σ call = some (τ, ())) :
    τ.Mirrored ∧ (τ.Settled ↔ σ.StaysClose call) := by
  obtain ⟨server, delivered, made⟩ := Option.map_eq_some_iff.mp taken
  obtain rfl := (Prod.mk.inj made).1
  rw [syncState] at delivered
  dsimp only at delivered
  obtain ⟨refs, places⟩ := deliver_computeOps mirrored.refs delivered
  rw [normalizeMirror_idem] at refs places
  have predicted : (syncState number σ.baseline call.state).1.toCanvas = (normalizeMirror call.state).toCanvas := by
    show (normalizeMirror (normalizeMirror call.state)).toCanvas = _
    rw [normalizeMirror_idem]
  have baseline : (normalizeMirror { (syncState number σ.baseline call.state).1 with annotations := call.acked }).toCanvas =
      (normalizeMirror call.state).toCanvas := by
    rw [← normalizeMirror_idem call.state]
    exact normalizeMirror_toCanvas predicted
  refine ⟨⟨baseline, fun id => ?_⟩, ?_⟩
  · rw [refs]
    exact Eq.to_iff (congrArg (fun c : Canvas => id ∈ c.nodeRefs) baseline.symm)
  have known : ∀ id : String, (normalizeMirror σ.baseline).positions[id]? = (σ.canvas.positions[id]?).map roundPos := by
    intro id
    have same : (normalizeMirror σ.baseline).positions = (normalizeMirror σ.canvas).positions :=
      congrArg Canvas.positions mirrored.baseline
    rw [same, getElem?_positions]
  -- A node that is sent is at its new place, another one where it was.
  have placed : ∀ id ∈ call.state.nodeRefs, ∀ p, call.state.positions[id]? = some p →
      (id ∈ movedIds (normalizeMirror σ.baseline) (normalizeMirror call.state) ↔
        ∀ q, σ.canvas.positions[id]? = some q → samePos (roundPos q) (roundPos p) = false) := by
    intro id member p shown
    have rounded : (normalizeMirror call.state).positions[id]? = some (roundPos p) := by
      rw [getElem?_positions, shown, Option.map_some]
    rw [mem_movedIds (mem_uniqueIds.mpr member) rounded, known]
    constructor
    · intro apart q before
      exact apart (roundPos q) (by rw [before, Option.map_some])
    · intro apart q before
      obtain ⟨r, atR, rfl⟩ := Option.map_eq_some_iff.mp before
      exact apart r atR
  have here : ∀ id, id ∈ server.state.nodeRefs ↔ id ∈ call.state.nodeRefs := fun id => (refs id).trans mem_uniqueIds
  constructor
  · intro settled id member p q shown before close
    obtain ⟨sp, held, near⟩ := settled id ((here id).mpr member) p shown
    have unsent : id ∉ movedIds (normalizeMirror σ.baseline) (normalizeMirror call.state) := fun sent => by
      rw [(placed id member p shown).mp sent q before] at close
      cases close
    refine ⟨sp, ?_, near⟩
    have at_server := places id (mem_uniqueIds.mpr member)
    rw [if_neg unsent, Option.none_or] at at_server
    exact at_server ▸ held
  · intro close id member p shown
    have member := (here id).mp member
    have at_server := places id (mem_uniqueIds.mpr member)
    by_cases sent : id ∈ movedIds (normalizeMirror σ.baseline) (normalizeMirror call.state)
    · rw [if_pos sent, getElem?_positions, shown, Option.map_some, Option.some_or] at at_server
      exact ⟨roundPos p, at_server, by rw [roundPos_roundPos]; exact samePos_self _⟩
    · rw [if_neg sent, Option.none_or] at at_server
      rw [placed id member p shown] at sent
      simp only [not_forall, Bool.not_eq_false] at sent
      obtain ⟨q, before, near⟩ := sent
      obtain ⟨sp, held, within⟩ := close id member p q shown before near
      exact ⟨sp, at_server.trans held, within⟩

theorem run_mirrored {start : Syncing} (joined : start.Joined isoformat) {history : List (SyncCall × Unit)}
    (run : Run (step cfg client number) (fun _ _ _ => True) start history σ) : σ.Mirrored := by
  refine Run.invariant (fun _ σ => σ.Mirrored) joined.mirrored ?_ run
  intro _ _ _ _ _ mirrored _ taken
  exact (step_spec mirrored taken).1

def joinedEmpty : Syncing where
  baseline := normalizeMirror {}
  canvas := {}
  server := {}

theorem joinedEmpty_joined : joinedEmpty.Joined Nat.repr := ⟨rfl, rfl⟩

def sampleNumber (value : Json) : Option ℚ := value.number?

/-- The canvas shows one node, at a place on the x axis. -/
def shownAt (x : ℚ) : SyncCall where
  state := { nodeRefs := ["n"], positions := Dict.of [("n", ⟨x, 0⟩)] }
  env i := { now := i, freshId := "new" }

private def ends (calls : List SyncCall) : Option Syncing := leadsTo (step {} "ada" sampleNumber) joinedEmpty calls

private theorem ends_facts :
    ((ends [shownAt 0]).isSome = true) ∧
      ((ends [shownAt 0, shownAt (2 / 5), shownAt (4 / 5)]).map fun σ =>
        (σ.server.state.nodeRefs, σ.server.state.positions["n"]?, σ.canvas.positions["n"]?)) =
      some (["n"], some ⟨0, 0⟩, some ⟨4 / 5, 0⟩) := by
  decide +kernel

end Syncing

end MetadataGraph.Client
