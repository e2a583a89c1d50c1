import MetadataGraph.Session.Activity

namespace MetadataGraph

/-- A `Session` object; `α` is what its annotation list holds. -/
structure Session (α : Type) where
  name : Option String := none
  updatedAt : Nat := 0
  seq : Nat := 0
  state : State α := {}
  activityLog : List ActivityRecord := []
  deletedAnnotationIds : List String := []
  deriving DecidableEq

def Session.map {α β : Type} (f : α → β) (s : Session α) : Session β :=
  { name := s.name, updatedAt := s.updatedAt, seq := s.seq, state := s.state.map f,
    activityLog := s.activityLog, deletedAnnotationIds := s.deletedAnnotationIds }

/-- `deque(maxlen=200)` of `_deleted_annotation_ids`. -/
def deletedIdsMax : Nat := 200

/-- What an op does to the annotation objects: assign new contents in place to the listed
objects, append one new object, or drop every object with an id. -/
inductive AnnotationEdit where
  | rewrite (contents : List Annotation)
  | append (ann : Annotation)
  | remove (id : String)

/-- The contents of the annotation list after an edit. -/
def AnnotationEdit.contents (old : List Annotation) : AnnotationEdit → List Annotation
  | .rewrite contents => contents
  | .append ann => old ++ [ann]
  | .remove id => old.filter fun a => !a.hasId id

/-- Everything a branch of `apply_state_op` changes. The applied op names its annotation
by the position of the object in the list after the edit. -/
structure Effect where
  canvas : Canvas
  edit : AnnotationEdit
  name : Option String
  deletedAnnotationIds : List String
  applied : AppliedOp Nat
  activity : Option ActivityDraft

/-- How a branch ends: applied, a legitimate no-op, or an exception with the state it left. -/
inductive Verdict where
  | accept (effect : Effect)
  | drop
  | reject (failure : Failure) (canvas : Canvas) (contents : List Annotation)

/-- `next` over the annotation list, as the position of the first match. -/
def replaceFirst (p : Annotation → Bool) (replacement : Annotation) : List Annotation → List Annotation
  | [] => []
  | a :: rest => if p a then replacement :: rest else a :: replaceFirst p replacement rest

/-- The member filter of `nodes_removed`; a member that cannot be hashed raises `TypeError`. -/
def Annotation.withoutMembers (drop : List String) (a : Annotation) : Option Annotation :=
  match a.members? with
  | none => some a
  | some members =>
    if members.all Json.hashable then
      some (a.withMembers (members.filter fun m => !m.isIdIn drop))
    else none

/-- The loop of `nodes_removed` over the annotations; on `TypeError` the annotations before
the offending one are already filtered. -/
def dropMembers (drop : List String) : List Annotation → Except (List Annotation) (List Annotation)
  | [] => .ok []
  | a :: rest => match a.withoutMembers drop with
    | none => .error (a :: rest)
    | some a' => match dropMembers drop rest with
      | .ok rest' => .ok (a' :: rest')
      | .error rest' => .error (a' :: rest')

/-- `[k for k in incoming if k not in _ANNOTATION_META_FIELDS and incoming[k] != target.get(k)]`. -/
def changedFields (target : Annotation) (incoming : Dict Json) : List String :=
  incoming.keys.filter fun k => k ∉ metaFields && incoming.get k ≠ target.get k

/-- `target.update(incoming)` with the version bump and the per-field versions. -/
def Annotation.merge (stamp : Nat) (target : Annotation) (incoming : Dict Json) : Annotation :=
  { fields := target.fields ∪ incoming
    version := some (target.priorVersion + 1)
    fieldVersions := (changedFields target incoming).foldl
      (fun versions field => versions.insert field (target.priorVersion + 1)) target.fieldVersions
    updatedAt := some stamp }

/-- The fields among `changedFields` that changed after `baseVersion`. -/
def fieldConflicts (target : Annotation) (incoming : Dict Json) (baseVersion : Int) :
    List (String × Nat) :=
  ((changedFields target incoming).map fun f => (f, target.fieldVersions.getD f 1)).filter
    fun conflict => baseVersion < conflict.2

namespace Session

variable (cfg : StoreConfig) (env : Env) (client : String) (trusted : Bool) (s : Session Annotation)

/-- The effect of an op that leaves the session alone but for its number. -/
def fanOut (applied : AppliedOp Nat) : Effect :=
  { canvas := s.state.toCanvas, edit := .rewrite s.state.annotations, name := s.name,
    deletedAnnotationIds := s.deletedAnnotationIds, applied := applied, activity := none }

def refuse (failure : Failure) : Verdict :=
  .reject failure s.state.toCanvas s.state.annotations

/-- A branch that validates its payload before it touches anything. -/
def validated {α : Type} (checked : Except Failure α) (accept : α → Verdict) : Verdict :=
  match checked with
  | .error failure => s.refuse failure
  | .ok value => accept value

def planNodesAdded (nodeIds : Json) : Verdict :=
  s.validated (requireIdList "nodes_added" "node_ids" nodeIds) fun ids =>
    .accept { s.fanOut (.nodesAdded ids) with
      canvas := { s.state.toCanvas with nodeRefs := union s.state.nodeRefs ids } }

def planNodesRemoved (nodeIds : Json) : Verdict :=
  s.validated (requireIdList "nodes_removed" "node_ids" nodeIds) fun removals =>
    let canvas : Canvas := { s.state.toCanvas with
      nodeRefs := removeAll s.state.nodeRefs removals
      positions := s.state.positions.filter fun k _ => k ∉ removals
      hiddenNodeIds := removeAll s.state.hiddenNodeIds removals
      dimmedNodeIds := removeAll s.state.dimmedNodeIds removals }
    match dropMembers removals s.state.annotations with
    | .error contents => .reject .typeError canvas contents
    | .ok contents =>
      .accept { s.fanOut (.nodesRemoved removals) with canvas := canvas, edit := .rewrite contents }

def planNodeMoved (nodeId position : Json) : Verdict :=
  match nodeId with
  | .str id =>
    s.validated (validatePosition position) fun position =>
      let before := s.state.positions[id]?
      .accept { s.fanOut (.nodeMoved id position) with
        canvas := { s.state.toCanvas with positions := s.state.positions.insert id position }
        activity := some
          { affected := .nodePosition id, before := .position before, after := .position (some position)
            inverseOp := .nodeMoved (.str id) (before.getD .origin).toJson } }
  | _ => s.refuse (.opError "node_moved requires a string 'node_id'")

/-- `nodes_hidden`, `edges_hidden`, `nodes_dimmed` and `edges_dimmed`. Only hiding edges is
not recorded, and nothing is when no id is new. -/
def planIdsAdded (set : IdSet) (ids : Json) : Verdict :=
  s.validated (requireIdList (StateOp.idsAdded set ids).name (StateOp.idsKey set) ids) fun requested =>
    let existing := s.state.toCanvas.ids set
    let added := sortedSet requested (· ∉ existing)
    .accept { s.fanOut (.idsAdded set requested) with
      canvas := s.state.toCanvas.setIds set (union existing requested)
      activity := if set = .hiddenEdges || added = [] then none else some
        { affected := .ids set added, before := .ids [], after := .ids added
          inverseOp := .idsDropped set (.ofStrings added) } }

/-- `nodes_shown`, `edges_shown`, `nodes_undimmed` and `edges_undimmed`. -/
def planIdsDropped (set : IdSet) (ids : Json) : Verdict :=
  s.validated (requireIdList (StateOp.idsDropped set ids).name (StateOp.idsKey set) ids) fun requested =>
    let existing := s.state.toCanvas.ids set
    let dropped := sortedSet requested (· ∈ existing)
    .accept { s.fanOut (.idsDropped set requested) with
      canvas := s.state.toCanvas.setIds set (removeAll existing requested)
      activity := if set = .hiddenEdges || dropped = [] then none else some
        { affected := .ids set dropped, before := .ids dropped, after := .ids []
          inverseOp := .idsAdded set (.ofStrings dropped) } }

def planEdgeIntensitySet (value : Json) : Verdict :=
  s.validated (validateIntensity value) fun value =>
    .accept { s.fanOut (.edgeIntensitySet value) with
      canvas := { s.state.toCanvas with edgeIntensity := value }
      activity := if value = s.state.edgeIntensity then none else some
        { affected := .edgeIntensity, before := .intensity s.state.edgeIntensity, after := .intensity value
          inverseOp := .edgeIntensitySet (.num s.state.edgeIntensity) } }

/-- The in-place merge onto the first annotation with this id that `annotation_created` on
an existing id and `annotation_updated` share. -/
def mergeEffect (id : String) (target : Annotation) (incoming : Dict Json)
    (applied : Nat → AppliedOp Nat) : Effect :=
  let merged := target.merge env.stamp incoming
  { s.fanOut (applied (s.state.annotations.findIdx (·.hasId id))) with
    edit := .rewrite (replaceFirst (·.hasId id) merged s.state.annotations)
    activity := some
      { affected := .annotationId id, before := .annotationValue (some target), after := .annotationValue (some merged)
        inverseOp := .annotationUpdated (some target.fields) .null } }

/-- The new record of an `annotation_created` whose id the session does not hold. -/
def freshAnnotation (ann : Dict Json) : Annotation :=
  let named := if (ann.get "id").string?.isSome then ann
    else ann.insert "id" (.str env.freshId)
  { fields := if "created_by" ∈ named then named else named.insert "created_by" (.str client)
    version := some 1, fieldVersions := ∅, updatedAt := some env.stamp }

def planAnnotationCreated (payload : Option (Dict Json)) : Verdict :=
  s.validated (validatePayload payload false) fun ann =>
    let incomingId := (ann.get "id").string?
    if incomingId.any (· ∈ s.deletedAnnotationIds) then .drop
    else
      let existing := incomingId.bind s.state.find
      match if trusted then none else imageAnnotationError ann existing with
      | some message => s.refuse (.opError message)
      | none => match incomingId, existing with
        | some id, some target =>
          if target.get "type" ≠ ann.get "type" then
            s.refuse (.opError ("annotation '" ++ id ++ "' already exists as type " ++
              ((target.get "type").string?.map fun t => "'" ++ t ++ "'").getD "None" ++
              "; cannot change type via upsert"))
          else .accept (s.mergeEffect env id target ann .annotationCreated)
        | _, _ =>
          if s.state.annotations.length ≥ cfg.maxAnnotations then
            s.refuse (.opError "annotation limit reached for this session")
          else
            let id := incomingId.getD env.freshId
            let fresh := freshAnnotation env client ann
            .accept { s.fanOut (.annotationCreated s.state.annotations.length) with
              edit := .append fresh
              activity := some
                { affected := .annotationId id, before := .annotationValue none, after := .annotationValue (some fresh)
                  inverseOp := .annotationDeleted (.str id) .null } }

def planAnnotationUpdated (payload : Option (Dict Json)) (baseVersion : Json) : Verdict :=
  s.validated (validatePayload payload true) fun incoming =>
    match (incoming.get "id").string? with
    | none => .drop
    | some id => match s.state.find id with
      | none => .drop
      | some target =>
        if target.get "type" ≠ incoming.get "type" then
          s.refuse (.opError ("annotation '" ++ id ++ "' is type " ++
            ((target.get "type").string?.map fun t => "'" ++ t ++ "'").getD "None" ++
            "; cannot change type via update"))
        else match if trusted then none else imageAnnotationError incoming (some target) with
        | some message => s.refuse (.opError message)
        | none =>
          let merged := s.mergeEffect env id target incoming .annotationUpdated
          if trusted || baseVersion = .null then .accept merged
          else match baseVersion.integer? with
          | none => s.refuse (.opError "annotation_updated: 'base_version' must be an integer")
          | some base =>
            if fieldConflicts target incoming base = [] then .accept merged
            else s.refuse (.annotationFieldConflict (target.get "id")
              (fieldConflicts target incoming base) target)

def planAnnotationDeleted (annotationId id : Json) : Verdict :=
  match annotationId.orElse id with
  | .str id =>
    .accept { s.fanOut (.annotationDeleted id) with
      edit := .remove id
      deletedAnnotationIds := boundedAppend deletedIdsMax s.deletedAnnotationIds id
      activity := (s.state.find id).map fun removed =>
        { affected := .annotationId id, before := .annotationValue (some removed), after := .annotationValue none
          inverseOp := .annotationCreated (some removed.fields) } }
  | _ => s.refuse (.opError "annotation_deleted requires a string 'annotation_id'")

/-- `a.get("id") == group_id and (a.get("type") or a.get("kind")) == "group"`. -/
def isGroup (groupId : String) (a : Annotation) : Bool :=
  a.hasId groupId && a.rawType = .str "group"

def planGroupMembershipChanged (groupId memberNodeIds : Json) : Verdict :=
  match groupId with
  | .str groupId =>
    s.validated (requireIdList "group_membership_changed" "member_node_ids" memberNodeIds) fun members =>
      match s.state.annotations.find? (isGroup groupId) with
      | none => s.refuse (.opError ("group annotation not found: " ++ groupId))
      | some group =>
        .accept { s.fanOut (.groupMembershipChanged groupId members) with
          edit := .rewrite (replaceFirst (isGroup groupId)
            { group.withMembers (members.map .str) with updatedAt := some env.stamp } s.state.annotations) }
  | _ => s.refuse (.opError "group_membership_changed requires a string 'group_id'")

def planSessionRenamed (name : Json) : Verdict :=
  match name with
  | .null => .accept { s.fanOut (.sessionRenamed none) with name := none }
  | .str name => .accept { s.fanOut (.sessionRenamed (some name)) with name := some name }
  | _ => s.refuse (.opError "session_renamed 'name' must be a string or null")

def planLayoutApplied (positions : Option (Dict Json)) : Verdict :=
  s.validated (validatePositions positions) fun normalised =>
    .accept { s.fanOut (.layoutApplied normalised) with
      canvas := { s.state.toCanvas with positions := s.state.positions ∪ normalised }
      activity := some
        { affected := .layout normalised.keys
          before := .layout (normalised.map fun nid _ => s.state.positions[nid]?)
          after := .layout (normalised.map fun _ p => some p)
          inverseOp := .layoutApplied (some (normalised.map fun nid _ =>
            (s.state.positions[nid]?.getD .origin).toJson)) } }

/-- The branches of `apply_state_op`. -/
def plan : StateOp → Verdict
  | .nodesAdded nodeIds => s.planNodesAdded nodeIds
  | .nodesRemoved nodeIds => s.planNodesRemoved nodeIds
  | .nodeMoved nodeId position => s.planNodeMoved nodeId position
  | .idsAdded set ids => s.planIdsAdded set ids
  | .idsDropped set ids => s.planIdsDropped set ids
  | .edgesAdded edges => s.validated (requireEdges "edges_added" edges) fun edges =>
      .accept (s.fanOut (.edgesAdded edges))
  | .edgesRemoved edgeIds => s.validated (requireIdList "edges_removed" "edge_ids" edgeIds) fun ids =>
      .accept (s.fanOut (.edgesRemoved ids))
  | .edgesUpdated edges => s.validated (requireEdges "edges_updated" edges) fun edges =>
      .accept (s.fanOut (.edgesUpdated edges))
  | .edgeIntensitySet value => s.planEdgeIntensitySet value
  | .annotationCreated payload => s.planAnnotationCreated cfg env client trusted payload
  | .annotationUpdated payload baseVersion => s.planAnnotationUpdated env trusted payload baseVersion
  | .annotationDeleted annotationId id => s.planAnnotationDeleted annotationId id
  | .groupMembershipChanged groupId members => s.planGroupMembershipChanged env groupId members
  | .sessionRenamed name => s.planSessionRenamed name
  | .layoutApplied positions => s.planLayoutApplied positions

end Session

/-- The arguments of one call of `apply_state_op` besides the session. -/
structure Call where
  env : Env
  client : String
  recordActivity : Bool := true
  trustedReplay : Bool := false
  op : StateOp

/-- The activity log after an op accepted as number `seq`. -/
def Call.log (call : Call) (cfg : StoreConfig) (seq : Nat) (log : List ActivityRecord) :
    Option ActivityDraft → List ActivityRecord
  | some draft =>
    if call.recordActivity && call.op.undoable && call.client ≠ "" then
      pruneActivityLog cfg call.env.now (log ++
        [{ op := call.op.name, actor := call.client, seq := seq, occurredAt := call.env.stamp
           affected := draft.affected, before := draft.before, after := draft.after
           inverseOp := some draft.inverseOp }])
    else log
  | none => log

/-- How a call ends: the numbered op with the session after it, `None`, or an exception
with the session it leaves. -/
inductive Outcome (α σ : Type) where
  | applied (op : Applied α) (after : σ)
  | dropped
  | raised (failure : Failure) (after : σ)

/-- Whether a call of the store returned an applied op. -/
def Outcome.accepted {α σ : Type} : Outcome α σ → Bool
  | .applied _ _ => true
  | _ => false

/-- The op over the annotation objects of the list it names them in. -/
def AppliedOp.at {α : Type} [Inhabited α] (op : AppliedOp Nat) (annotations : List α) : AppliedOp α :=
  op.map (annotations.getD · default)

/-- What every accepted op does to the session, given its annotation list after the edit. -/
def Session.commit {α : Type} (cfg : StoreConfig) (call : Call) (e : Effect) (annotations : List α)
    (s : Session α) : Session α :=
  { name := e.name, updatedAt := call.env.stamp, seq := s.seq + 1
    state := { toCanvas := e.canvas, annotations := annotations }
    activityLog := call.log cfg (s.seq + 1) s.activityLog e.activity
    deletedAnnotationIds := e.deletedAnnotationIds }

/-- The verdict of a call on the contents of a session. -/
def Session.judge (cfg : StoreConfig) (call : Call) (s : Session Annotation) : Verdict :=
  s.plan cfg call.env call.client call.trustedReplay call.op

/-- `apply_state_op` on the contents of a session. -/
def Session.applyStateOp (cfg : StoreConfig) (call : Call) (s : Session Annotation) :
    Outcome Annotation (Session Annotation) :=
  match s.judge cfg call with
  | .drop => .dropped
  | .reject failure canvas contents =>
    .raised failure { s with state := { toCanvas := canvas, annotations := contents } }
  | .accept e =>
    let annotations := e.edit.contents s.state.annotations
    .applied ⟨s.seq + 1, e.applied.at annotations⟩ (s.commit cfg call e annotations)

end MetadataGraph
