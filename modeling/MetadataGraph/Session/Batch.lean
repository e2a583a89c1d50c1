import MetadataGraph.Session.Memory

namespace MetadataGraph

open ObjectHeap

/-- The limits of `SessionManager`. The `Bytes` fields are `len(json.dumps(..))` of a value. -/
structure ManagerConfig extends StoreConfig where
  maxOps : Nat := 500
  maxOpBatchBytes : Nat := 256 * 1024
  maxOptimizedImageBytes : Nat := 2 * 1024 * 1024
  maxSessionImageBytes : Nat := 20 * 1024 * 1024
  maxSessionDocumentBytes : Nat := 25 * 1024 * 1024
  claimTtl : Nat := 30
  leaseTtl : Nat := 30
  queueMax : Nat := 1000
  documentBytes : Session Annotation → Nat := fun _ => 0
  annotationBytes : Annotation → Nat := fun _ => 0
  payloadBytes : Dict Json → Nat := fun _ => 0
  idsBytes : List Json → Nat := fun _ => 0

/-- An op of a batch that passed the structural checks made before the lock is taken. -/
inductive BatchOp where
  | state (env : Env) (op : StateOp)
  | selectionClaimed (ids : List String)
  | selectionReleased (ids : List String)
  | leaseAcquired (ids : List String)
  | leaseReleased (ids : List String)

/-- What a batch still has to commit and publish. -/
inductive Pending (α : Type) where
  | state (applied : Applied α)
  | selectionClaimed (ids : List String)
  | selectionReleased (ids : List String)
  | leaseAcquired (granted : List String) (denied : Dict String)
  | leaseReleased (released : List String)
  deriving DecidableEq

def Pending.map {α β : Type} (f : α → β) : Pending α → Pending β
  | .state applied => .state (applied.map f)
  | .selectionClaimed ids => .selectionClaimed ids
  | .selectionReleased ids => .selectionReleased ids
  | .leaseAcquired granted denied => .leaseAcquired granted denied
  | .leaseReleased released => .leaseReleased released

/-- The state op of a pending entry. -/
def Pending.applied? {α : Type} : Pending α → Option (Applied α)
  | .state applied => some applied
  | _ => none

/-- `_claimed_annotation_target`. -/
def claimedAnnotationTarget (op : StateOp) (state : State Annotation) : Option String :=
  op.annotationId?.filter fun id => state.annotations.any (·.hasId id)

/-- The refusal of an op on an annotation that another client holds the lease on. -/
def leaseConflict (client : String) (leases : Dict String) (state : State Annotation) (op : StateOp) :
    Option Failure :=
  (claimedAnnotationTarget op state).bind fun id =>
    leases[id]?.bind fun holder =>
      if holder ≠ client then some (.leaseConflict id holder) else none

/-- The loop of `edit_lease_acquired` over the working leases. -/
def grantEach (client : String) :
    List String → Dict String × List String × Dict String → Dict String × List String × Dict String
  | [], done => done
  | id :: ids, (leases, granted, denied) => match leases[id]? with
    | some holder =>
      if holder ≠ client then grantEach client ids (leases, granted, denied.insert id holder)
      else grantEach client ids (leases.insert id client, granted ++ [id], denied)
    | none => grantEach client ids (leases.insert id client, granted ++ [id], denied)

/-- The loop of `edit_lease_released` over the working leases. -/
def releaseEach (client : String) :
    List String → Dict String × List String → Dict String × List String
  | [], done => done
  | id :: ids, (leases, released) =>
    if leases[id]? = some client then releaseEach client ids (leases.erase id, released ++ [id])
    else releaseEach client ids (leases, released)

/-- Where the loop of `apply_ops` stands. -/
structure Walk where
  memory : Memory
  leases : Dict String
  pending : List (Pending Ref) := []

/-- One iteration of the loop of `apply_ops`; an exception keeps the memory it leaves. -/
def Walk.next (cfg : ManagerConfig) (client : String) (w : Walk) : BatchOp → Except (Failure × Memory) Walk
  | .selectionClaimed ids => .ok { w with pending := w.pending ++ [.selectionClaimed ids] }
  | .selectionReleased ids => .ok { w with pending := w.pending ++ [.selectionReleased ids] }
  | .leaseAcquired ids =>
    let (leases, granted, denied) := grantEach client ids.eraseDups (w.leases, [], ∅)
    .ok { w with leases := leases, pending := w.pending ++ [.leaseAcquired granted denied] }
  | .leaseReleased ids =>
    let (leases, released) := releaseEach client ids.eraseDups (w.leases, [])
    .ok { w with leases := leases, pending := w.pending ++ [.leaseReleased released] }
  | .state env op => match leaseConflict client w.leases w.memory.view.state op with
    | some failure => .error (failure, w.memory)
    | none => match w.memory.applyStateOp cfg.toStoreConfig { env := env, client := client, op := op } with
      | .raised failure after => .error (failure, after)
      | .dropped => .ok w
      | .applied applied after =>
        .ok { w with memory := after, pending := w.pending ++ [.state applied] }

/-- The loop of `apply_ops`. -/
def Walk.run (cfg : ManagerConfig) (client : String) : List BatchOp → Walk → Except (Failure × Memory) Walk
  | [], w => .ok w
  | op :: ops, w => match w.next cfg client op with
    | .error failed => .error failed
    | .ok w => Walk.run cfg client ops w

/-- `_image_annotation_bytes`. -/
def imageAnnotationBytes (a : Annotation) : Nat :=
  if a.get "type" = .str "image" && (a.get "image").isObject then
    dataUrlByteLength ((a.get "image").field "url")
  else 0

/-- `_session_image_bytes`. -/
def sessionImageBytes (state : State Annotation) (excludeId : Option String) : Nat :=
  ((state.annotations.filter fun a => !excludeId.any (a.hasId ·)).map imageAnnotationBytes).sum

/-- The serialised session: `to_dict` leaves out the deleted-annotation memory. -/
def Session.document (s : Session Annotation) : Session Annotation := { s with deletedAnnotationIds := [] }

/-- The cumulative budget check of `apply_ops` on the state the batch leads to. -/
def overBudget (cfg : ManagerConfig) (s : Session Annotation) : Bool :=
  sessionImageBytes s.state none > cfg.maxSessionImageBytes ||
    cfg.documentBytes s.document > cfg.maxSessionDocumentBytes

/-- The `except` clauses: the state comes back as fresh copies of the saved annotations,
the ring as the saved list of entries, and the deleted-annotation memory stays.
`_apply_op_sync` does not restore the name, so the caller says which it is. -/
def Memory.restore (m : Memory) (saved : Session Annotation) (savedRing : List (Applied Ref))
    (name : Option String) : Memory :=
  { heap := (m.heap.allocAll saved.state.annotations).1
    session :=
      { name := name, updatedAt := saved.updatedAt, seq := saved.seq
        state := { toCanvas := saved.state.toCanvas
                   annotations := (m.heap.allocAll saved.state.annotations).2 }
        activityLog := saved.activityLog
        deletedAnnotationIds := m.session.deletedAnnotationIds }
    ring := savedRing }

end MetadataGraph
