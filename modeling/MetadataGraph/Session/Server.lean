import MetadataGraph.Lib.Runs
import MetadataGraph.Session.Hub
import MetadataGraph.Session.Writes

namespace MetadataGraph

open ObjectHeap Runs

/-- A batch that holds the session lock while it awaits its persist. -/
structure InFlight where
  client : String
  saved : Session Annotation
  savedRing : List (Applied Ref)
  pending : List (Pending Ref)
  snapshot : Session Annotation

/-- Everything the process and its disk hold for one session id. -/
structure Server where
  memory : Memory := {}
  loaded : Bool := false
  disk : Option (Session Annotation) := none
  claims : Holders := ∅
  leases : Holders := ∅
  subscribers : List (Subscriber Ref) := []
  nextSubscriber : Nat := 0
  inFlight : Option InFlight := none
  /-- Snapshots that worker threads still write for cancelled batches. -/
  workers : List (Session Annotation) := []

/-- What a call returns, raises or hands to a client, in the contents of that moment. -/
inductive Reply where
  | done
  | raised (failure : Failure)
  | suspended
  | applied (entries : List (Pending Annotation)) (seq : Nat)
  | written (applied : Option (Applied Annotation)) (revision : Nat)
  | snapshot (seq : Nat) (session : Session Annotation) (claims leases : Dict String)
  | catchUp (seq : Nat) (ops : List (Applied Annotation)) (claims leases : Dict String)
  | event (event : Event Annotation)
  deriving DecidableEq

/-- The arguments that every synchronous write takes, with the verdict of the rate limiter
and whether the backend accepts the save. -/
structure Request where
  env : Env
  now : Nat
  client : String
  admitted : Bool := true
  expectedRevision : Option Int := none
  persists : Bool := true

/-- `_UNDO_REPLAY_CLIENT_ID`. -/
def undoReplayClientId : String := "undo-replay"

def Event.map {α β : Type} (f : α → β) : Event α → Event β
  | .op client applied => .op client (applied.map f)
  | .elements client name ids => .elements client name ids
  | .notice kind => .notice kind
  | .sessionDeleted => .sessionDeleted
  | .resync => .resync

/-- The state op that an event carries. -/
def Event.applied? {α : Type} : Event α → Option (Applied α)
  | .op _ applied => some applied
  | _ => none

namespace Server

def publish (cfg : ManagerConfig) (event : Event Ref) (σ : Server) : Server :=
  { σ with subscribers := MetadataGraph.publish cfg.queueMax event σ.subscribers }

/-- The broadcast of a claim or lease change, if it changed anything. -/
def publishElements (cfg : ManagerConfig) (client name : String) (ids : List String) (σ : Server) : Server :=
  if ids = [] then σ else σ.publish cfg (.elements client name ids)

/-- `Session.from_dict` into new objects, with an empty ring. -/
def load (saved : Session Annotation) (σ : Server) : Server :=
  let objects := σ.memory.heap.allocAll saved.state.annotations
  { σ with
    loaded := true
    memory :=
      { heap := objects.1
        session :=
          { name := saved.name, updatedAt := saved.updatedAt, seq := saved.seq
            state := { toCanvas := saved.state.toCanvas, annotations := objects.2 }
            activityLog := saved.activityLog }
        ring := [] } }

/-- `SessionStore.get`. -/
def get? (σ : Server) : Option Server :=
  if σ.loaded then some σ else σ.disk.map fun saved => σ.load saved

/-- `SessionStore.get_or_create` under the session limit. -/
def getOrCreate (now : Nat) (limitReached : Bool) (σ : Server) : Option Server :=
  match σ.get? with
  | some σ => some σ
  | none =>
    if limitReached then none
    else
      let created : Session Ref := { updatedAt := now }
      some { σ with
        loaded := true
        memory := { heap := σ.memory.heap, session := created, ring := [] }
        disk := some { updatedAt := now } }

/-- One committed entry of a batch: its claim or lease effect, its broadcast, and what
`apply_ops` reports for it. -/
def commitEntry (cfg : ManagerConfig) (now : Nat) (client : String) (σ : Server) :
    Pending Ref → Server × Pending Ref
  | .state applied => (σ.publish cfg (.op client applied), .state applied)
  | .selectionClaimed ids =>
    ({ σ with claims := σ.claims.claim cfg.claimTtl now client ids }.publish cfg
      (.elements client "selection_claimed" ids), .selectionClaimed ids)
  | .selectionReleased ids =>
    let released := σ.claims.release now client ids
    ({ σ with claims := released.1 }.publish cfg
      (.elements client "selection_released" released.2), .selectionReleased released.2)
  | .leaseAcquired granted denied =>
    (if granted = [] then σ
     else { σ with leases := σ.leases.acquire cfg.leaseTtl now client granted }.publish cfg
      (.elements client "edit_lease_acquired" granted), .leaseAcquired granted denied)
  | .leaseReleased released =>
    (if released = [] then σ
     else { σ with leases := (σ.leases.release now client released).1 }.publish cfg
      (.elements client "edit_lease_released" released), .leaseReleased released)

/-- The commit loop of `apply_ops`. -/
def commitEach (cfg : ManagerConfig) (now : Nat) (client : String) (σ : Server) :
    List (Pending Ref) → Server × List (Pending Ref)
  | [] => (σ, [])
  | entry :: pending =>
    let (σ, reported) := σ.commitEntry cfg now client entry
    let (σ, rest) := σ.commitEach cfg now client pending
    (σ, reported :: rest)

/-- The end of a batch that succeeded. -/
def commit (cfg : ManagerConfig) (now : Nat) (client : String) (pending : List (Pending Ref))
    (σ : Server) : Server × Reply :=
  let (σ, reported) := σ.commitEach cfg now client pending
  (σ, .applied (reported.map (Pending.map σ.memory.heap.read)) σ.memory.session.seq)

/-- The rollback of a batch. -/
def rollback (saved : Session Annotation) (savedRing : List (Applied Ref)) (m : Memory) (σ : Server) :
    Server :=
  { σ with memory := m.restore saved savedRing saved.name }

/-- `apply_ops` from the moment it holds the lock to its persist, or to its end when there
is nothing to persist. -/
def applyOps (cfg : ManagerConfig) (now : Nat) (client : String) (ops : List BatchOp) (σ : Server) :
    Server × Reply :=
  match σ.get? with
  | none => (σ, .raised .sessionNotFound)
  | some σ =>
    let saved := σ.memory.view
    let savedRing := σ.memory.ring
    let σ := { σ with leases := σ.leases.prune now }
    match Walk.run cfg client ops { memory := σ.memory, leases := σ.leases.snapshot now } with
    | .error (failure, m) => (σ.rollback saved savedRing m, .raised failure)
    | .ok w =>
      if w.pending.all fun entry => entry.applied?.isNone then
        { σ with memory := w.memory }.commit cfg now client w.pending
      else if overBudget cfg w.memory.view then
        (σ.rollback saved savedRing w.memory, .raised .imageBudgetExceeded)
      else
        ({ σ with
          memory := w.memory
          inFlight := some
            { client := client, saved := saved, savedRing := savedRing, pending := w.pending
              snapshot := w.memory.view.document } }, .suspended)

/-- The awaited persist returns. -/
def persistDone (cfg : ManagerConfig) (now : Nat) (ok : Bool) (batch : InFlight) (σ : Server) :
    Server × Reply :=
  let σ := { σ with inFlight := none }
  if ok then { σ with disk := some batch.snapshot }.commit cfg now batch.client batch.pending
  else (σ.rollback batch.saved batch.savedRing σ.memory, .raised .persistFailed)

/-- The awaiting call is cancelled: `CancelledError` is not an `Exception`, so nothing is
rolled back, and the worker thread goes on with its write. -/
def cancel (batch : InFlight) (σ : Server) : Server × Reply :=
  ({ σ with inFlight := none, workers := σ.workers ++ [batch.snapshot] }, .done)

/-- `_apply_op_sync`. -/
def applyOpSync (cfg : ManagerConfig) (call : Call) (persists : Bool) (σ : Server) :
    Server × Except Failure (Option (Applied Ref)) :=
  let saved := σ.memory.view
  let savedRing := σ.memory.ring
  match σ.memory.applyStateOp cfg.toStoreConfig call with
  | .dropped => (σ, .ok none)
  | .raised failure m => ({ σ with memory := m.restore saved savedRing m.session.name }, .error failure)
  | .applied applied m =>
    if persists then
      ({ σ with memory := m, disk := some m.view.document }.publish cfg (.op call.client applied),
        .ok (some applied))
    else
      ({ σ with memory := m.restore saved savedRing m.session.name }, .error .persistFailed)

/-- The reply of a synchronous write. -/
def writtenReply (σ : Server) (applied : Option (Applied Ref)) : Reply :=
  .written (applied.map (Applied.map σ.memory.heap.read)) σ.memory.session.seq

/-- The checks that every synchronous write makes once its arguments are in order. -/
def preflight (request : Request) (σ : Server) : Server × Option Failure :=
  if !request.admitted then (σ, some .rateLimited)
  else if σ.inFlight.isSome then (σ, some .layoutBusy)
  else match σ.get? with
  | none => (σ, some .sessionNotFound)
  | some σ =>
    if request.expectedRevision.any (· ≠ (σ.memory.session.seq : Int)) then
      (σ, some (.revisionConflict (request.expectedRevision.getD 0) σ.memory.session.seq))
    else (σ, none)

/-- `_reject_if_leased`; the lease map is only read, and so pruned, for an op with a target. -/
def rejectIfLeased (now : Nat) (client : String) (op : StateOp) (σ : Server) : Server × Option Failure :=
  if (claimedAnnotationTarget op σ.memory.view.state).isNone then (σ, none)
  else
    let σ := { σ with leases := σ.leases.prune now }
    (σ, leaseConflict client (σ.leases.snapshot now) σ.memory.view.state op)

/-- Everything that a synchronous write does before `_apply_op_sync`: the op it hands on,
or the reply it ends with. -/
def prepareWrite (cfg : ManagerConfig) (request : Request) (call : SyncWrite) (σ : Server) :
    Server × Except Reply StateOp :=
  if request.client = "" then (σ, .error (.raised (.opError "'client_id' is required")))
  else match call.checkArguments cfg with
  | .error failure => (σ, .error (.raised failure))
  | .ok _ => match σ.preflight request with
    | (σ, some failure) => (σ, .error (.raised failure))
    | (σ, none) => match call.prepare cfg σ.memory.view with
      | .error failure => (σ, .error (.raised failure))
      | .ok none => (σ, .error (σ.writtenReply none))
      | .ok (some op) => match call.leaseIdentity request.client with
        | none => (σ, .ok op)
        | some client => match σ.rejectIfLeased request.now client op with
          | (σ, some failure) => (σ, .error (.raised failure))
          | (σ, none) => (σ, .ok op)

/-- `apply_layout`, `add_node_refs`, `upsert_annotation`, `upsert_image_annotation`,
`update_annotation`, `delete_annotation` and `set_group_members`. -/
def write (cfg : ManagerConfig) (request : Request) (call : SyncWrite) (σ : Server) : Server × Reply :=
  match σ.prepareWrite cfg request call with
  | (σ, .error reply) => (σ, reply)
  | (σ, .ok op) =>
    match σ.applyOpSync cfg { env := request.env, client := request.client, op := op } request.persists with
    | (σ, .error failure) => (σ, .raised failure)
    | (σ, .ok (some applied)) => (σ, σ.writtenReply (some applied))
    | (σ, .ok none) => (σ, (call.droppedFailure.map .raised).getD (σ.writtenReply none))

/-- `record["undone"] = True` on the record that `find_latest_undoable` returned. -/
def markUndone (stamp : Nat) (actor : String) (log : List ActivityRecord) : List ActivityRecord :=
  ((markLatest log.reverse)).reverse
where
  markLatest : List ActivityRecord → List ActivityRecord
    | [] => []
    | r :: rest =>
      if r.actor = actor && !r.undone && r.inverseOp.isSome then
        { r with undone := true, undoneAt := some stamp } :: rest
      else r :: markLatest rest

/-- `session._deleted_annotation_ids.remove(ann_id)` before a replayed creation. -/
def forgetDeleted (op : StateOp) (deleted : List String) : List String :=
  match op with
  | .annotationCreated (some ann) => match (ann.get "id").string? with
    | some id => deleted.erase id
    | none => deleted
  | _ => deleted

def withSession (f : Session Ref → Session Ref) (σ : Server) : Server :=
  { σ with memory := { σ.memory with session := f σ.memory.session } }

/-- Everything that `undo_last_action` does before it touches the session: the record it
takes back with the stored inverse, or what it raises. -/
def prepareUndo (request : Request) (σ : Server) : Server × Except Failure (ActivityRecord × StateOp) :=
  if request.client = "" then (σ, .error (.opError "'client_id' is required"))
  else match σ.preflight request with
  | (σ, some failure) => (σ, .error failure)
  | (σ, none) => match findLatestUndoable σ.memory.session.activityLog request.client with
    | none => (σ, .error (.noUndoableAction request.client))
    | some record => match undoConflictReason σ.memory.view.state record with
      | some reason => (σ, .error (.undoConflict record.seq reason))
      | none => match record.inverseOp with
        | none => (σ, .error (.noUndoableAction request.client))
        | some inverse => match σ.rejectIfLeased request.now request.client inverse with
          | (σ, some failure) => (σ, .error failure)
          | (σ, none) => (σ, .ok (record, inverse))

/-- `undo_last_action`; `persistsAgain` is the outcome of its second save. -/
def undo (cfg : ManagerConfig) (request : Request) (persistsAgain : Bool) (σ : Server) : Server × Reply :=
  match σ.prepareUndo request with
  | (σ, .error failure) => (σ, .raised failure)
  | (σ, .ok (record, inverse)) =>
    let σ := σ.withSession fun s =>
      { s with deletedAnnotationIds := forgetDeleted inverse s.deletedAnnotationIds }
    let call : Call := { env := request.env, client := undoReplayClientId, op := inverse
                         recordActivity := false, trustedReplay := true }
    match σ.applyOpSync cfg call request.persists with
    | (σ, .error failure) => (σ, .raised failure)
    | (σ, .ok none) => (σ, .raised (.undoConflict record.seq "action could not be reverted"))
    | (σ, .ok (some applied)) =>
      let σ := σ.withSession fun s =>
        { s with activityLog := markUndone request.env.stamp request.client s.activityLog }
      if persistsAgain then
        let σ := { σ with disk := some σ.memory.view.document }
        (σ, σ.writtenReply (some applied))
      else (σ, .raised .persistFailed)

/-- `rename_session_sync`. Its own rollback restores the name. -/
def rename (cfg : ManagerConfig) (request : Request) (limitReached : Bool) (name : Option String)
    (σ : Server) : Server × Reply :=
  match σ.getOrCreate request.env.stamp limitReached with
  | none => (σ, .raised .sessionLimitReached)
  | some σ =>
    if σ.inFlight.isSome then (σ, .raised .layoutBusy)
    else
      let call : Call := { env := request.env, client := if request.client = "" then "rest" else request.client
                           op := .sessionRenamed ((name.map .str).getD .null) }
      let σ' := σ.applyOpSync cfg call request.persists
      match σ'.2 with
      | .error failure =>
        (σ'.1.withSession fun s => { s with name := σ.memory.session.name }, .raised failure)
      | .ok applied => (σ'.1, σ'.1.writtenReply applied)

/-- `catch_up`. -/
def catchUp (now : Nat) (sinceSeq : Option Int) (σ : Server) : Server × Reply :=
  match σ.get? with
  | none => (σ, .raised .sessionNotFound)
  | some σ =>
    let σ := { σ with claims := σ.claims.prune now, leases := σ.leases.prune now }
    let claims := σ.claims.snapshot now
    let leases := σ.leases.snapshot now
    match sinceSeq.bind σ.memory.opsSince with
    | some ops =>
      (σ, .catchUp σ.memory.session.seq (ops.map (Applied.map σ.memory.heap.read)) claims leases)
    | none => (σ, .snapshot σ.memory.session.seq σ.memory.view.document claims leases)

/-- The server once a subscriber's stream has taken its next event. -/
def popped (id : Nat) (queue : List (Event Ref)) (σ : Server) : Server :=
  { σ with subscribers := σ.subscribers.map fun s => if s.id = id then { s with queue := queue } else s }

/-- The stream of a subscriber takes its next event; a resync marker becomes a snapshot,
or the notice of a deletion that the overflow swallowed. -/
def deliver (now : Nat) (id : Nat) (σ : Server) : Server × Reply :=
  match σ.subscribers.find? (·.id = id) with
  | none => (σ, .done)
  | some subscriber => match subscriber.queue with
    | [] => (σ, .done)
    | event :: queue =>
      let σ := σ.popped id queue
      if event = .resync then
        match σ.catchUp now none with
        | (σ, .raised _) =>
          ({ σ with subscribers := σ.subscribers.filter (·.id ≠ id) }, .event .sessionDeleted)
        | answer => answer
      else (σ, .event (event.map σ.memory.heap.read))

/-- The server with one subscription more. -/
def joined (σ : Server) : Server :=
  { σ with
    subscribers := σ.subscribers ++ [Subscriber.mk σ.nextSubscriber []]
    nextSubscriber := σ.nextSubscriber + 1 }

/-- `connect`: the subscription comes before the announcement of the new client. -/
def connect (cfg : ManagerConfig) (σ : Server) : Server := σ.joined.publish cfg (.notice "presence_joined")

/-- `disconnect`; `last` is whether presence lost the client's last connection. -/
def disconnect (cfg : ManagerConfig) (id : Nat) (client : String) (last : Bool) (σ : Server) : Server :=
  let σ := { σ with subscribers := σ.subscribers.filter (·.id ≠ id) }
  if last then
    let claims := σ.claims.releaseAll client
    let leases := σ.leases.releaseAll client
    let σ := { σ with claims := claims.1 }.publishElements cfg client "selection_released" claims.2
    let σ := { σ with leases := leases.1 }.publishElements cfg client "edit_lease_released" leases.2
    σ.publish cfg (.notice "presence_left")
  else σ

/-- `delete_session`. The lock, the claims and the subscriptions of the id outlive it. -/
def delete (cfg : ManagerConfig) (σ : Server) : Server :=
  let existed := σ.loaded || σ.disk.isSome
  let σ := { σ with
    loaded := false, disk := none
    memory := { heap := σ.memory.heap, session := {}, ring := [] } }
  if existed then σ.publish cfg .sessionDeleted else σ

/-- The process stops and starts again; `landed` is whether a save under way reached the disk. -/
def restart (landed : Bool) (σ : Server) : Server :=
  { disk := if landed then (σ.inFlight.map (·.snapshot)).or σ.disk else σ.disk }

/-- The session as a reader sees it, loaded or not. -/
def session? (σ : Server) : Option (Session Annotation) := σ.get?.map (·.memory.view)

/-- What a catch-up from a sequence number would be answered. -/
def opsSince? (σ : Server) (sinceSeq : Int) : Option (List (Applied Annotation)) :=
  σ.get?.bind fun σ => (σ.memory.opsSince sinceSeq).map (·.map (Applied.map σ.memory.heap.read))

/-- The end of a batch that has begun, with nothing in between. -/
def endBatch (cfg : ManagerConfig) (now : Nat) (persists : Bool) (begun : Server × Reply) :
    Reply × Option (Session Annotation) :=
  match begun.1.inFlight with
  | none => (begun.2, begun.1.session?)
  | some batch =>
    let ended := begun.1.persistDone cfg now persists batch
    (ended.2, ended.1.session?)

/-- A whole batch: what the caller gets, and the session it leaves. -/
def batchOutcome (cfg : ManagerConfig) (now : Nat) (client : String) (ops : List BatchOp)
    (persists : Bool) (σ : Server) : Reply × Option (Session Annotation) :=
  endBatch cfg now persists (σ.applyOps cfg now client ops)

end Server

/-- One uninterrupted run of the event loop on this session. -/
inductive Action where
  | applyOps (now : Nat) (client : String) (ops : List BatchOp)
  | persistDone (now : Nat) (ok : Bool)
  | cancel
  | workerDone (index : Nat) (landed : Bool)
  | write (request : Request) (call : SyncWrite)
  | undo (request : Request) (persistsAgain : Bool)
  | rename (request : Request) (limitReached : Bool) (name : Option String)
  | catchUp (now : Nat) (sinceSeq : Option Int)
  | connect
  | disconnect (id : Nat) (client : String) (last : Bool)
  | deliver (now : Nat) (id : Nat)
  | notify (kind : String)
  | getOrCreate (now : Nat) (limitReached : Bool)
  | delete
  | restart (landed : Bool)

/-- The server after an action with what it hands out. A batch or an awaited deletion takes
the lock, so neither starts while another batch is in flight. -/
def Server.step (cfg : ManagerConfig) (σ : Server) : Action → Option (Server × Reply)
  | .applyOps now client ops => if σ.inFlight.isSome then none else some (σ.applyOps cfg now client ops)
  | .persistDone now ok => σ.inFlight.map fun batch => σ.persistDone cfg now ok batch
  | .cancel => σ.inFlight.map fun batch => σ.cancel batch
  | .workerDone index landed => σ.workers[index]?.map fun snapshot =>
    ({ σ with
      workers := σ.workers.eraseIdx index
      disk := if landed then some snapshot else σ.disk }, .done)
  | .write request call => some (σ.write cfg request call)
  | .undo request persistsAgain => some (σ.undo cfg request persistsAgain)
  | .rename request limitReached name => some (σ.rename cfg request limitReached name)
  | .catchUp now sinceSeq => some (σ.catchUp now sinceSeq)
  | .connect => some (σ.connect cfg, .done)
  | .disconnect id client last => some (σ.disconnect cfg id client last, .done)
  | .deliver now id => some (σ.deliver now id)
  | .notify kind => some (σ.publish cfg (.notice kind), .done)
  | .getOrCreate now limitReached => (σ.getOrCreate now limitReached).map fun σ => (σ, .done)
  | .delete => if σ.inFlight.isSome then none else some (σ.delete cfg, .done)
  | .restart landed => some (σ.restart landed, .done)

/-- A note with this id and text. -/
def sampleNote (id text : String) : Dict Json :=
  .of [("id", .str id), ("type", .str "note"), ("text", .str text)]

def sampleEnv : Env := { now := 0, freshId := "annotation-1" }

/-- A session in which a client has created one note. -/
def Server.sample : Server :=
  (leadsTo (step {}) {} [.getOrCreate 0 false,
    .applyOps 0 "ada" [.state sampleEnv (.annotationCreated (some (sampleNote "a" "first")))],
    .persistDone 0 true]).get (by decide +kernel)

theorem Server.sample_reachable : ∃ history, Run (step {}) (fun _ _ _ => True) {} history sample :=
  Run.of_leadsTo (Option.some_get _).symm

end MetadataGraph
