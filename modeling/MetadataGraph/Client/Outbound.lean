import Mathlib.Data.List.Basic
import Mathlib.Data.List.Nodup
import MetadataGraph.Lib.Runs

namespace MetadataGraph.Client

open Runs

def maxOpsPerBatch : Nat := 500

def maxBatchBytes : Nat := 240 * 1024

/-- An op object of the client. Objects are told apart by `ref`, whatever they hold. -/
structure QueuedOp (α : Type) where
  ref : Nat
  op : α
  deriving DecidableEq

/-- Op objects for the given ops, made in this order. -/
def numberFrom {α : Type} : Nat → List α → List (QueuedOp α)
  | _, [] => []
  | n, op :: ops => ⟨n, op⟩ :: numberFrom (n + 1) ops

/-- How a POST settles: with a response, or with a network error, an abort or the timeout. -/
inductive PostResult where
  | response (status : Nat)
  | failed
  deriving DecidableEq

/-- `resp.ok`. -/
def isOk (status : Nat) : Bool := 200 ≤ status && status < 300

/-- The statuses after which resending never succeeds. -/
def isTerminal (status : Nat) : Bool :=
  status == 400 || status == 413 || status == 404 || status == 410 || status == 409

/-- Where a `_flush` stands: it awaits its POST, or the body of the response. -/
inductive Suspension (α : Type) where
  | response (batch : List (QueuedOp α))
  | ackBody (batch : List (QueuedOp α))
  | dropBody (batch : List (QueuedOp α)) (status : Nat)
  deriving DecidableEq

/-- The outbound half of a `SessionSyncClient` that is not closed. -/
structure Outbound (α : Type) where
  queue : List (QueuedOp α) := []
  inFlightOps : List (QueuedOp α) := []
  forceSingle : Bool := false
  flushing : Bool := false
  ready : Bool := false
  flushTimer : Bool := false
  retryTimer : Bool := false
  suspended : Option (Suspension α) := none
  made : Nat := 0
  deriving DecidableEq

/-- What happens to the client. Handlers that run meanwhile may enqueue ops of their own. -/
inductive Event (α : Type) where
  | enqueue (ops : List α)
  | connected (ops : List α)
  | disconnected
  | flushTimer
  | retryTimer
  | flush (bypassReady : Bool)
  | settled (result : PostResult)
  | body (readable : Bool) (ops : List α)

inductive Effect (α : Type) where
  | none
  | posted (batch : List (QueuedOp α))
  | acknowledged (batch : List (QueuedOp α))
  | dropped (batch : List (QueuedOp α)) (status : Nat)
  deriving DecidableEq

namespace Outbound

variable {α : Type}

/-- `getPendingOps`. -/
def getPendingOps (c : Outbound α) : List (QueuedOp α) := c.inFlightOps ++ c.queue

def scheduleFlush (c : Outbound α) : Outbound α := { c with flushTimer := true }

def flushSoon (c : Outbound α) : Outbound α := if c.queue.isEmpty then c else c.scheduleFlush

def scheduleRetry (c : Outbound α) : Outbound α := { c with retryTimer := true }

def enqueue (ops : List α) (c : Outbound α) : Outbound α :=
  { c with queue := c.queue ++ numberFrom c.made ops, made := c.made + ops.length }.scheduleFlush

/-- What the handlers enqueue while they run, if anything. -/
def handlers (ops : List α) (c : Outbound α) : Outbound α := if ops.isEmpty then c else c.enqueue ops

/-- `_removeInFlight`, by reference. -/
def removeInFlight (batch : List (QueuedOp α)) (c : Outbound α) : Outbound α :=
  { c with inFlightOps := c.inFlightOps.filter fun o => o.ref ∉ batch.map (·.ref) }

/-- The loop of `_takeBatch` over what it may still take; `size` is the length that
`JSON.stringify` gives. -/
def takeWithin (size : α → Nat) : Nat → List (QueuedOp α) → List (QueuedOp α) → List (QueuedOp α)
  | _, batch, [] => batch
  | bytes, batch, o :: rest =>
    if batch.length > 0 ∧ bytes + size o.op > maxBatchBytes then batch
    else takeWithin size (bytes + size o.op) (batch ++ [o]) rest

/-- `_takeBatch`: the batch to send next. -/
def takeBatch (size : α → Nat) (c : Outbound α) : List (QueuedOp α) :=
  if c.forceSingle then c.queue.take 1
  else
    let limit := min c.queue.length maxOpsPerBatch
    let batch := takeWithin size 0 [] (c.queue.take limit)
    if batch.isEmpty then c.queue.take 1 else batch

/-- `_flush` up to its first suspension. -/
def flush (size : α → Nat) (bypassReady : Bool) (c : Outbound α) : Outbound α × Effect α :=
  if c.flushing || (!c.ready && !bypassReady) || c.queue.isEmpty then (c, .none)
  else
    let batch := c.takeBatch size
    ({ c with flushing := true, queue := c.queue.drop batch.length, inFlightOps := c.inFlightOps ++ batch
              suspended := some (.response batch) }, .posted batch)

/-- The `finally` of `_flush`. -/
def finish (batch : List (QueuedOp α)) (c : Outbound α) : Outbound α :=
  { c.removeInFlight batch with flushing := false, suspended := none }.flushSoon

/-- The batch goes back to the front of the queue. -/
def requeue (batch : List (QueuedOp α)) (c : Outbound α) : Outbound α := { c with queue := batch ++ c.queue }

/-- The single-op mode ends with an empty queue. -/
def endSingle (c : Outbound α) : Outbound α :=
  if c.forceSingle && c.queue.isEmpty then { c with forceSingle := false } else c

/-- `_flush` from the end of its POST to the next suspension or to its end. -/
def settle (batch : List (QueuedOp α)) (result : PostResult) (c : Outbound α) : Outbound α :=
  match result with
  | .response status =>
    if isOk status then { c with suspended := some (.ackBody batch) }
    else if isTerminal status then
      if batch.length > 1 then { c.requeue batch with forceSingle := true }.finish batch
      else { c.removeInFlight batch with suspended := some (.dropBody batch status) }
    else (c.requeue batch).scheduleRetry.finish batch
  | .failed => (c.requeue batch).scheduleRetry.finish batch

/-- `_flush` after the body of a 2xx response. A body that cannot be iterated over, or a
handler that throws, ends up in the `catch` branch. -/
def acknowledge (batch : List (QueuedOp α)) (readable : Bool) (ops : List α) (c : Outbound α) :
    Outbound α × Effect α :=
  if readable then ((c.handlers ops).endSingle.finish batch, .acknowledged batch)
  else (((c.handlers ops).requeue batch).scheduleRetry.finish batch, .none)

/-- `_flush` after the body of a terminal rejection; `ops` is what `onDropped` enqueues. -/
def drop (batch : List (QueuedOp α)) (status : Nat) (ops : List α) (c : Outbound α) : Outbound α × Effect α :=
  ((c.handlers ops).endSingle.finish batch, .dropped batch status)

/-- One step of the client. -/
def step (size : α → Nat) (c : Outbound α) : Event α → Option (Outbound α × Effect α)
  | .enqueue ops => some (c.enqueue ops, .none)
  | .connected ops => some (({ c with ready := true }.handlers ops).flushSoon, .none)
  | .disconnected => some ({ c with ready := false }, .none)
  | .flushTimer => if c.flushTimer then some ({ c with flushTimer := false }.flush size false) else none
  | .retryTimer => if c.retryTimer then some ({ c with retryTimer := false }.flush size false) else none
  | .flush bypassReady => some (c.flush size bypassReady)
  | .settled result => match c.suspended with
    | some (.response batch) => some (c.settle batch result, .none)
    | _ => none
  | .body readable ops => match c.suspended with
    | some (.ackBody batch) => some (c.acknowledge batch readable ops)
    | some (.dropBody batch status) => some (c.drop batch status ops)
    | _ => none

end Outbound

end MetadataGraph.Client
