import MetadataGraph.Session.Op

namespace MetadataGraph

/-- `record["affected"]`, by its `kind`. The id lists stand for `node_visibility`,
`node_dim` and `edge_dim`. -/
inductive Affected where
  | annotationId (id : String)
  | nodePosition (id : String)
  | ids (set : IdSet) (ids : List String)
  | edgeIntensity
  | layout (nodeIds : List String)
  deriving DecidableEq

/-- The `before` and `after` values of a record. -/
inductive Snapshot where
  | annotationValue (value : Option Annotation)
  | position (value : Option Position)
  | ids (value : List String)
  | intensity (value : ℚ)
  | layout (value : Dict (Option Position))
  deriving DecidableEq

/-- One entry of the activity log (`build_activity_record`). Its values are deep copies. -/
structure ActivityRecord where
  op : String
  actor : String
  seq : Nat
  occurredAt : Nat
  affected : Affected
  before : Snapshot
  after : Snapshot
  inverseOp : Option StateOp
  undone : Bool := false
  undoneAt : Option Nat := none
  deriving DecidableEq

/-- The part of a record that a branch of `apply_state_op` supplies (`activity_kwargs`). -/
structure ActivityDraft where
  affected : Affected
  before : Snapshot
  after : Snapshot
  inverseOp : StateOp
  deriving DecidableEq

/-- What one call draws from outside: the clock in microseconds and a fresh random id. -/
structure Env where
  now : Nat
  freshId : String
  deriving DecidableEq

/-- `_now_iso`, the clock in whole seconds. -/
def Env.stamp (env : Env) : Nat := env.now / 1000000

structure StoreConfig where
  maxAnnotations : Nat := 2000
  ringSize : Nat := 500
  maxActivityRecords : Nat := 500
  activityMaxAge : Nat := 7 * 24 * 60 * 60 * 1000000
  deriving DecidableEq

/-- `prune_activity_log`: first the age filter, then the newest `max_records`. -/
def pruneActivityLog (cfg : StoreConfig) (now : Nat) (records : List ActivityRecord) :
    List ActivityRecord :=
  let kept := if cfg.activityMaxAge > 0 then
    records.filter fun r => now ≤ r.occurredAt * 1000000 + cfg.activityMaxAge else records
  if cfg.maxActivityRecords > 0 then kept.drop (kept.length - cfg.maxActivityRecords) else kept

/-- `session_activity.find_latest_undoable`. -/
def findLatestUndoable (log : List ActivityRecord) (actor : String) : Option ActivityRecord :=
  log.reverse.find? fun r => r.actor = actor && !r.undone && r.inverseOp.isSome

/-- `{nid: positions.get(nid) for nid in node_ids}`. -/
def positionsAt (positions : Dict Position) (nodeIds : List String) : Dict (Option Position) :=
  nodeIds.foldl (fun d nid => d.insert nid positions[nid]?) ∅

/-- `current_snapshot_for`. -/
def currentSnapshotFor (state : State Annotation) : Affected → Snapshot
  | .annotationId id => .annotationValue (state.find id)
  | .nodePosition id => .position state.positions[id]?
  | .ids set ids => .ids ((ids.filter (· ∈ state.toCanvas.ids set)).insertionSort (· ≤ ·))
  | .edgeIntensity => .intensity state.edgeIntensity
  | .layout nodeIds => .layout (positionsAt state.positions nodeIds)

/-- `session_activity.undo_conflict_reason`. -/
def undoConflictReason (state : State Annotation) (record : ActivityRecord) : Option String :=
  if currentSnapshotFor state record.affected ≠ record.after then
    some "affected state changed since this action"
  else none

theorem getElem?_positionsAt (positions : Dict Position) (nodeIds : List String) (nid : String) :
    (positionsAt positions nodeIds)[nid]? = if nid ∈ nodeIds then some positions[nid]? else none := by
  suffices fold : ∀ d : Dict (Option Position),
      (nodeIds.foldl (fun d nid => d.insert nid positions[nid]?) d)[nid]? =
        if nid ∈ nodeIds then some positions[nid]? else d[nid]? by
    rw [positionsAt, fold, Std.ExtTreeMap.getElem?_empty]
  induction nodeIds with
  | nil => simp
  | cons other nodeIds ih =>
    intro d
    rw [List.foldl_cons, ih]
    simp only [List.mem_cons]
    by_cases later : nid ∈ nodeIds
    · simp only [later, or_true, if_true]
    · by_cases same : nid = other
      · subst same
        simp only [later, or_false, if_true, if_false, Std.ExtTreeMap.getElem?_insert_self]
      · simp only [later, same, or_self, if_false, Std.ExtTreeMap.getElem?_insert,
          Std.LawfulEqCmp.compare_eq_iff_eq, Ne.symm same]

/-- The current positions of the nodes of a layout are the ones it set exactly when each is. -/
theorem positionsAt_keys_eq_iff (positions layout : Dict Position) :
    positionsAt positions layout.keys = layout.map (fun _ p => some p) ↔
      ∀ nid ∈ layout, positions[nid]? = layout[nid]? := by
  constructor
  · intro same nid member
    have entry := congrArg (fun d : Dict (Option Position) => d[nid]?) same
    obtain ⟨p, atNid⟩ := Option.isSome_iff_exists.mp (Std.ExtTreeMap.mem_iff_isSome_getElem?.mp member)
    simpa [getElem?_positionsAt, member, atNid] using entry
  · intro agree
    apply Std.ExtTreeMap.ext_getElem?
    intro nid
    rw [getElem?_positionsAt]
    by_cases member : nid ∈ layout
    · simp [member, agree nid member]
    · simp [member]

end MetadataGraph
