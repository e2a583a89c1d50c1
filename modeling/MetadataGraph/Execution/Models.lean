import MetadataGraph.Session.Json

namespace MetadataGraph.Execution

/-- What triggered a unit of agent work. -/
inductive ExecutionKind where
  | scheduled | event
  deriving DecidableEq

def ExecutionKind.value : ExecutionKind → String
  | .scheduled => "scheduled"
  | .event => "event"

/-- `ExecutionKind(value)`, which raises on any other text. -/
def ExecutionKind.ofValue? (value : String) : Option ExecutionKind :=
  if value = "scheduled" then some .scheduled
  else if value = "event" then some .event
  else none

inductive ExecutionState where
  | pending | running | succeeded | deadLetter | cancelled
  deriving DecidableEq

def ExecutionState.value : ExecutionState → String
  | .pending => "pending"
  | .running => "running"
  | .succeeded => "succeeded"
  | .deadLetter => "dead_letter"
  | .cancelled => "cancelled"

def ExecutionState.ofValue? (value : String) : Option ExecutionState :=
  if value = "pending" then some .pending
  else if value = "running" then some .running
  else if value = "succeeded" then some .succeeded
  else if value = "dead_letter" then some .deadLetter
  else if value = "cancelled" then some .cancelled
  else none

def ExecutionState.isTerminal : ExecutionState → Bool
  | .pending | .running => false
  | .succeeded | .deadLetter | .cancelled => true

theorem ExecutionKind.ofValue?_value (kind : ExecutionKind) : ofValue? kind.value = some kind := by
  cases kind <;> decide +kernel

theorem ExecutionState.ofValue?_value (state : ExecutionState) : ofValue? state.value = some state := by
  cases state <;> decide +kernel

theorem ExecutionKind.value_inj {a b : ExecutionKind} : a.value = b.value ↔ a = b := by
  constructor
  · intro same
    have read := congrArg ofValue? same
    rw [ofValue?_value, ofValue?_value] at read
    exact Option.some.inj read
  · exact congrArg value

theorem ExecutionState.value_inj {a b : ExecutionState} : a.value = b.value ↔ a = b := by
  constructor
  · intro same
    have read := congrArg ofValue? same
    rw [ofValue?_value, ofValue?_value] at read
    exact Option.some.inj read
  · exact congrArg value

theorem RetryPolicy.one_le_three : (1 : ℤ) ≤ 3 := by decide

theorem RetryPolicy.half_nonneg : (0 : ℚ) ≤ 1 / 2 := by decide +kernel

theorem RetryPolicy.one_le_two : (1 : ℚ) ≤ 2 := by decide +kernel

theorem RetryPolicy.limit_nonneg : (0 : ℚ) ≤ 300 := by decide +kernel

/-- Bounded, capped-exponential retry policy, with what `__post_init__` checks. -/
structure RetryPolicy where
  maxAttempts : ℤ := 3
  baseSeconds : ℚ := 1 / 2
  factor : ℚ := 2
  maxSeconds : ℚ := 300
  one_le_maxAttempts : 1 ≤ maxAttempts := by exact RetryPolicy.one_le_three
  baseSeconds_nonneg : 0 ≤ baseSeconds := by exact RetryPolicy.half_nonneg
  maxSeconds_nonneg : 0 ≤ maxSeconds := by exact RetryPolicy.limit_nonneg
  one_le_factor : 1 ≤ factor := by exact RetryPolicy.one_le_two

/-- Delay before the next attempt, given how many attempts have failed. -/
def RetryPolicy.backoffSeconds (retry : RetryPolicy) (attempts : ℤ) : ℚ :=
  if attempts ≤ 0 then 0
  else min (retry.baseSeconds * retry.factor ^ (attempts - 1).toNat) retry.maxSeconds

theorem RetryPolicy.backoffSeconds_nonneg (retry : RetryPolicy) (attempts : ℤ) : 0 ≤ retry.backoffSeconds attempts := by
  rw [backoffSeconds]
  split
  · exact le_rfl
  · have power : 0 ≤ retry.factor ^ (attempts - 1).toNat := pow_nonneg (zero_le_one.trans retry.one_le_factor) _
    exact le_min (mul_nonneg retry.baseSeconds_nonneg power) retry.maxSeconds_nonneg

/-- One durable unit of agent work. Instants are exact numbers of seconds. -/
structure ExecutionJob where
  agentId : String
  kind : ExecutionKind
  idempotencyKey : String
  payload : Dict Json := {}
  id : String
  state : ExecutionState := .pending
  attempts : ℤ := 0
  runAt : ℚ
  leaseOwner : Option String := none
  leaseExpiry : Option ℚ := none
  correlationId : Option String := none
  sessionId : Option String := none
  origin : Option String := none
  lastError : Option String := none
  deadLetterReason : Option String := none
  result : Option (Dict Json) := none
  createdAt : ℚ
  updatedAt : ℚ
  startedAt : Option ℚ := none
  finishedAt : Option ℚ := none

/-- The lease has run out: a lease without an expiry never does. -/
def ExecutionJob.leaseExpired (job : ExecutionJob) (now : ℚ) : Bool :=
  match job.leaseExpiry with
  | some expiry => expiry ≤ now
  | none => false

/-- Due and pending, or running on a lease that has run out. -/
def ExecutionJob.runnable (job : ExecutionJob) (now : ℚ) : Bool :=
  (job.state = .pending && job.runAt ≤ now) || (job.state = .running && job.leaseExpired now)

inductive Failure where
  | jobNotFound (jobId : String)
  | keyError (jobId : String)
  | valueError (value : String)
  | integrityError
  | operationalError

/-- A call of the store, with the instant that it is given. -/
inductive Call where
  | enqueue (job : ExecutionJob)
  | claimNext (workerId : String) (now leaseSeconds : ℚ)
  | renewLease (jobId workerId : String) (now leaseSeconds : ℚ)
  | complete (jobId : String) (result : Option (Dict Json)) (now : ℚ)
  | fail (jobId error : String) (now : ℚ)
  | cancel (jobId : String) (now : ℚ)
  | recoverStale (now : ℚ)
  | get (jobId : String)
  | listJobs (states : Option (List ExecutionState)) (agentId : Option String) (kind : Option ExecutionKind)
      (limit : Option ℕ)
  | reopen

inductive Reply where
  | job (job : Option ExecutionJob)
  | flag (done : Bool)
  | jobs (jobs : List ExecutionJob)
  | raised (failure : Failure)
  | reopened

/-- A call as it reaches a store, and who makes it. The sort keys of the source leave open the order
of jobs that agree on them: `rank` is that order in this call, by the ids of the jobs. -/
structure Request where
  caller : String := ""
  call : Call
  rank : String → ℕ := fun _ => 0

end MetadataGraph.Execution
