import MetadataGraph.Execution.Models
import MetadataGraph.Lib.Catalogue
import MetadataGraph.Lib.StableSort
import Mathlib.Data.Prod.Lex

namespace MetadataGraph.Execution

open StableSort

/-- `(run_at, created_at)`, ties by rank. -/
def ExecutionJob.oldestFirst (rank : String → ℕ) (job : ExecutionJob) : ℚ ×ₗ ℚ ×ₗ ℕ :=
  toLex (job.runAt, toLex (job.createdAt, rank job.id))

/-- `created_at` in reverse, ties by rank. -/
def ExecutionJob.newestFirst (rank : String → ℕ) (job : ExecutionJob) : ℚᵒᵈ ×ₗ ℕ :=
  toLex (OrderDual.toDual job.createdAt, rank job.id)

/-- One more attempt is begun. -/
def ExecutionJob.begun (now : ℚ) (job : ExecutionJob) : ExecutionJob :=
  { job with attempts := job.attempts + 1, startedAt := some (job.startedAt.getD now), updatedAt := now }

/-- Dead-lettered rather than run again. -/
def ExecutionJob.exceeded (now : ℚ) (job : ExecutionJob) : ExecutionJob :=
  { job with state := .deadLetter, deadLetterReason := some "max attempts exceeded"
             leaseOwner := none, leaseExpiry := none, finishedAt := some now }

def ExecutionJob.leased (workerId : String) (now leaseSeconds : ℚ) (job : ExecutionJob) : ExecutionJob :=
  { job with state := .running, leaseOwner := some workerId, leaseExpiry := some (now + leaseSeconds) }

def ExecutionJob.renewed (now leaseSeconds : ℚ) (job : ExecutionJob) : ExecutionJob :=
  { job with leaseExpiry := some (now + leaseSeconds), updatedAt := now }

def ExecutionJob.completed (result : Option (Dict Json)) (now : ℚ) (job : ExecutionJob) : ExecutionJob :=
  { job with state := .succeeded, result := result, leaseOwner := none, leaseExpiry := none
             finishedAt := some now, updatedAt := now }

/-- An attempt that failed: dead-lettered once the budget is spent, else due after the backoff. -/
def ExecutionJob.failed (retry : RetryPolicy) (error : String) (now : ℚ) (job : ExecutionJob) : ExecutionJob :=
  let job := { job with lastError := some error, leaseOwner := none, leaseExpiry := none, updatedAt := now }
  if retry.maxAttempts ≤ job.attempts then
    { job with state := .deadLetter
               deadLetterReason := some ("failed after " ++ toString job.attempts ++ " attempt(s)")
               finishedAt := some now }
  else
    { job with state := .pending, runAt := now + retry.backoffSeconds job.attempts }

def ExecutionJob.cancelled (now : ℚ) (job : ExecutionJob) : ExecutionJob :=
  { job with state := .cancelled, leaseOwner := none, leaseExpiry := none, finishedAt := some now, updatedAt := now }

/-- Running on a lease that has run out. -/
def ExecutionJob.stale (now : ℚ) (job : ExecutionJob) : Bool := job.state = .running && job.leaseExpired now

def ExecutionJob.recovered (now : ℚ) (job : ExecutionJob) : ExecutionJob :=
  { job with state := .pending, leaseOwner := none, leaseExpiry := none, runAt := now, updatedAt := now }

/-- A job after the sweep of `recover_stale`. -/
def ExecutionJob.swept (now : ℚ) (job : ExecutionJob) : ExecutionJob :=
  if job.stale now then job.recovered now else job

/-- What `list_jobs` asks of a job. -/
def ExecutionJob.listed (states : Option (List ExecutionState)) (agentId : Option String)
    (kind : Option ExecutionKind) (job : ExecutionJob) : Bool :=
  (match states with
    | none | some [] => true
    | some states => states.contains job.state) &&
  (match agentId with
    | none => true
    | some agent => job.agentId = agent) &&
  (match kind with
    | none => true
    | some kind => job.kind = kind)

/-- `jobs[:limit]`, for a limit that is not negative. -/
def limited {α : Type} (limit : Option ℕ) (jobs : List α) : List α :=
  match limit with
  | none => jobs
  | some limit => jobs.take limit

namespace ExecutionJob

theorem begun_id (now : ℚ) (job : ExecutionJob) : (job.begun now).id = job.id := rfl

theorem swept_id (now : ℚ) (job : ExecutionJob) : (job.swept now).id = job.id := by
  rw [swept]
  split <;> rfl

theorem failed_id (retry : RetryPolicy) (error : String) (now : ℚ) (job : ExecutionJob) :
    (job.failed retry error now).id = job.id := by
  rw [failed]
  split <;> rfl

theorem failed_idempotencyKey (retry : RetryPolicy) (error : String) (now : ℚ) (job : ExecutionJob) :
    (job.failed retry error now).idempotencyKey = job.idempotencyKey := by
  rw [failed]
  split <;> rfl

end ExecutionJob

/-- The volatile store. A job changes in place, under the id that it was stored by. -/
structure Memory where
  jobs : Catalogue String ExecutionJob ExecutionJob.id := {}
  byKey : OrderedDict String String := {}

namespace Memory

def enqueue (job : ExecutionJob) (m : Memory) : Reply × Memory :=
  match m.byKey.get? job.idempotencyKey with
  | some existing => match m.jobs.get? existing with
    | some stored => (.job (some stored), m)
    | none => (.raised (.keyError existing), m)
  | none =>
    (.job (some job), { jobs := m.jobs.put job, byKey := m.byKey.set job.idempotencyKey job.id })

/-- `_runnable(now)`, oldest first. -/
def runnable (rank : String → ℕ) (now : ℚ) (m : Memory) : List ExecutionJob :=
  sortOn (ExecutionJob.oldestFirst rank) (m.jobs.values.filter (·.runnable now))

/-- The loop of `claim_next` over the candidates. -/
def claimEach (retry : RetryPolicy) (workerId : String) (now leaseSeconds : ℚ) :
    List ExecutionJob → Memory → Option ExecutionJob × Memory
  | [], m => (none, m)
  | job :: candidates, m =>
    let job := job.begun now
    if retry.maxAttempts < job.attempts then
      claimEach retry workerId now leaseSeconds candidates { m with jobs := m.jobs.put (job.exceeded now) }
    else
      let job := job.leased workerId now leaseSeconds
      (some job, { m with jobs := m.jobs.put job })

def claimNext (retry : RetryPolicy) (rank : String → ℕ) (workerId : String) (now leaseSeconds : ℚ) (m : Memory) :
    Reply × Memory :=
  let (claimed, m) := claimEach retry workerId now leaseSeconds (m.runnable rank now) m
  (.job claimed, m)

def renewLease (jobId workerId : String) (now leaseSeconds : ℚ) (m : Memory) : Reply × Memory :=
  match m.jobs.get? jobId with
  | none => (.flag false, m)
  | some job =>
    if job.state ≠ .running || job.leaseOwner ≠ some workerId then (.flag false, m)
    else (.flag true, { m with jobs := m.jobs.put (job.renewed now leaseSeconds) })

def complete (jobId : String) (result : Option (Dict Json)) (now : ℚ) (m : Memory) : Reply × Memory :=
  match m.jobs.get? jobId with
  | none => (.raised (.jobNotFound jobId), m)
  | some job =>
    if job.state.isTerminal then (.job (some job), m)
    else
      let job := job.completed result now
      (.job (some job), { m with jobs := m.jobs.put job })

def fail (retry : RetryPolicy) (jobId error : String) (now : ℚ) (m : Memory) : Reply × Memory :=
  match m.jobs.get? jobId with
  | none => (.raised (.jobNotFound jobId), m)
  | some job =>
    if job.state.isTerminal then (.job (some job), m)
    else
      let job := job.failed retry error now
      (.job (some job), { m with jobs := m.jobs.put job })

def cancel (jobId : String) (now : ℚ) (m : Memory) : Reply × Memory :=
  match m.jobs.get? jobId with
  | none => (.flag false, m)
  | some job =>
    if job.state.isTerminal then (.flag false, m)
    else (.flag true, { m with jobs := m.jobs.put (job.cancelled now) })

/-- `recover_stale`: the loop changes every stale job and lists it as it is then. -/
def recoverStale (rank : String → ℕ) (now : ℚ) (m : Memory) : Reply × Memory :=
  (.jobs ((sortOn (rank ·.id) (m.jobs.values.filter (·.stale now))).map (·.recovered now)),
    { m with jobs := m.jobs.change (·.swept now) (ExecutionJob.swept_id now) })

def listJobs (rank : String → ℕ) (states : Option (List ExecutionState)) (agentId : Option String)
    (kind : Option ExecutionKind) (limit : Option ℕ) (m : Memory) : List ExecutionJob :=
  limited limit (sortOn (ExecutionJob.newestFirst rank) (m.jobs.values.filter (·.listed states agentId kind)))

/-- One call; the volatile store has nothing to reopen. -/
def step (retry : RetryPolicy) (m : Memory) (request : Request) : Reply × Memory :=
  match request.call with
  | .enqueue job => m.enqueue job
  | .claimNext workerId now leaseSeconds => m.claimNext retry request.rank workerId now leaseSeconds
  | .renewLease jobId workerId now leaseSeconds => m.renewLease jobId workerId now leaseSeconds
  | .complete jobId result now => m.complete jobId result now
  | .fail jobId error now => m.fail retry jobId error now
  | .cancel jobId now => m.cancel jobId now
  | .recoverStale now => m.recoverStale request.rank now
  | .get jobId => (.job (m.jobs.get? jobId), m)
  | .listJobs states agentId kind limit => (.jobs (m.listJobs request.rank states agentId kind limit), m)
  | .reopen => (.reopened, m)

end Memory

end MetadataGraph.Execution
