import MetadataGraph.Execution.Memory

namespace MetadataGraph.Execution

open StableSort

/-- A row of `execution_jobs`. Instants are epoch seconds; a column that holds JSON is known by the
value that its text parses to. -/
structure Row where
  id : String
  agentId : String
  kind : String
  idempotencyKey : String
  payload : Dict Json
  state : String
  attempts : ℤ
  runAt : ℚ
  leaseOwner : Option String
  leaseExpiry : Option ℚ
  correlationId : Option String
  sessionId : Option String
  origin : Option String
  lastError : Option String
  deadLetterReason : Option String
  result : Option (Dict Json)
  createdAt : ℚ
  updatedAt : ℚ
  startedAt : Option ℚ
  finishedAt : Option ℚ

/-- `_to_row`. -/
def toRow (job : ExecutionJob) : Row where
  id := job.id
  agentId := job.agentId
  kind := job.kind.value
  idempotencyKey := job.idempotencyKey
  payload := job.payload
  state := job.state.value
  attempts := job.attempts
  runAt := job.runAt
  leaseOwner := job.leaseOwner
  leaseExpiry := job.leaseExpiry
  correlationId := job.correlationId
  sessionId := job.sessionId
  origin := job.origin
  lastError := job.lastError
  deadLetterReason := job.deadLetterReason
  result := job.result
  createdAt := job.createdAt
  updatedAt := job.updatedAt
  startedAt := job.startedAt
  finishedAt := job.finishedAt

/-- `_row_to_job`; a text that is no member of its enumeration raises. -/
def rowToJob (row : Row) : Except Failure ExecutionJob :=
  match ExecutionKind.ofValue? row.kind with
  | none => .error (.valueError row.kind)
  | some kind => match ExecutionState.ofValue? row.state with
    | none => .error (.valueError row.state)
    | some state => .ok
      { agentId := row.agentId, kind := kind, idempotencyKey := row.idempotencyKey, payload := row.payload
        id := row.id, state := state, attempts := row.attempts, runAt := row.runAt
        leaseOwner := row.leaseOwner, leaseExpiry := row.leaseExpiry, correlationId := row.correlationId
        sessionId := row.sessionId, origin := row.origin, lastError := row.lastError
        deadLetterReason := row.deadLetterReason, result := row.result, createdAt := row.createdAt
        updatedAt := row.updatedAt, startedAt := row.startedAt, finishedAt := row.finishedAt }

theorem rowToJob_toRow (job : ExecutionJob) : rowToJob (toRow job) = .ok job := by
  simp only [rowToJob, toRow, ExecutionKind.ofValue?_value, ExecutionState.ofValue?_value]

/-- The table, with its `PRIMARY KEY` and its `UNIQUE` column. -/
structure Table where
  rows : List Row := []
  primaryKey : (rows.map Row.id).Nodup := by exact List.nodup_nil
  uniqueKey : (rows.map Row.idempotencyKey).Nodup := by exact List.nodup_nil

/-- `INSERT … ON CONFLICT(idempotency_key) DO NOTHING`: the conflict that is named is looked for
first, any other one is an error. -/
def Table.insert (row : Row) (table : Table) : Except Failure Table :=
  if known : row.idempotencyKey ∈ table.rows.map Row.idempotencyKey then .ok table
  else if taken : row.id ∈ table.rows.map Row.id then .error .integrityError
  else .ok
    { rows := table.rows ++ [row]
      primaryKey := by
        rw [List.map_append, List.nodup_append]
        exact ⟨table.primaryKey, by simp, fun a old b new same =>
          taken (by rw [List.map_singleton, List.mem_singleton] at new; exact new ▸ same ▸ old)⟩
      uniqueKey := by
        rw [List.map_append, List.nodup_append]
        exact ⟨table.uniqueKey, by simp, fun a old b new same =>
          known (by rw [List.map_singleton, List.mem_singleton] at new; exact new ▸ same ▸ old)⟩ }

/-- `UPDATE … SET … WHERE …`; no statement of the store sets one of the two keys. -/
def Table.update (table : Table) (condition : Row → Bool) (set : Row → Row)
    (keepsId : ∀ row, (set row).id = row.id := by intro; rfl)
    (keepsKey : ∀ row, (set row).idempotencyKey = row.idempotencyKey := by intro; rfl) : Table where
  rows := table.rows.map fun row => if condition row then set row else row
  primaryKey := by
    have same : (Row.id ∘ fun row => if condition row then set row else row) = Row.id := by
      funext row
      rw [Function.comp_apply]
      split
      · exact keepsId row
      · rfl
    rw [List.map_map, same]
    exact table.primaryKey
  uniqueKey := by
    have same : (Row.idempotencyKey ∘ fun row => if condition row then set row else row) = Row.idempotencyKey := by
      funext row
      rw [Function.comp_apply]
      split
      · exact keepsKey row
      · rfl
    rw [List.map_map, same]
    exact table.uniqueKey

/-- A database behind one connection: the rows as the connection sees them, the rows as committed,
and whether a transaction is open. -/
structure Database where
  table : Table := {}
  saved : Table := {}
  inTransaction : Bool := false

namespace Database

/-- A statement that writes opens a transaction if none is open. -/
def execute (table : Table) (db : Database) : Database := { db with table := table, inTransaction := true }

def commit (db : Database) : Database := { db with saved := db.table, inTransaction := false }

/-- `close()`, and a store on the same file: what was not committed is gone. -/
def reopen (db : Database) : Database := { db with table := db.saved, inTransaction := false }

/-- `_get_by_id`. -/
def getById (jobId : String) (db : Database) : Except Failure (Option ExecutionJob) :=
  match db.table.rows.find? (·.id = jobId) with
  | none => .ok none
  | some row => (rowToJob row).map some

/-- `_get_by_key`. -/
def getByKey (key : String) (db : Database) : Except Failure (Option ExecutionJob) :=
  match db.table.rows.find? (·.idempotencyKey = key) with
  | none => .ok none
  | some row => (rowToJob row).map some

end Database

/-- What a method returns that reads a job last. -/
def Reply.read : Except Failure (Option ExecutionJob) → Reply
  | .ok found => .job found
  | .error failure => .raised failure

/-- `(run_at, created_at)`, ties by rank. -/
def Row.oldestFirst (rank : String → ℕ) (row : Row) : ℚ ×ₗ ℚ ×ₗ ℕ :=
  toLex (row.runAt, toLex (row.createdAt, rank row.id))

/-- `created_at DESC`, ties by rank. -/
def Row.newestFirst (rank : String → ℕ) (row : Row) : ℚᵒᵈ ×ₗ ℕ :=
  toLex (OrderDual.toDual row.createdAt, rank row.id)

/-- `state = ? AND lease_expiry IS NOT NULL AND lease_expiry <= ?`. -/
def Row.stale (now : ℚ) (row : Row) : Bool :=
  row.state = ExecutionState.running.value && match row.leaseExpiry with
    | some expiry => expiry ≤ now
    | none => false

/-- The condition of the query in `claim_next`. -/
def Row.runnable (now : ℚ) (row : Row) : Bool :=
  (row.state = ExecutionState.pending.value && row.runAt ≤ now) || row.stale now

def Row.terminal (row : Row) : Bool :=
  [ExecutionState.succeeded.value, ExecutionState.deadLetter.value, ExecutionState.cancelled.value].contains row.state

/-- The conditions that `list_jobs` puts together. -/
def Row.listed (states : Option (List ExecutionState)) (agentId : Option String) (kind : Option ExecutionKind)
    (row : Row) : Bool :=
  (match states with
    | none | some [] => true
    | some states => (states.map ExecutionState.value).contains row.state) &&
  (match agentId with
    | none => true
    | some agent => row.agentId = agent) &&
  (match kind with
    | none => true
    | some kind => row.kind = kind.value)

/-- The `SET` clauses. -/
def Row.exceeded (attempts : ℤ) (now : ℚ) (row : Row) : Row :=
  { row with state := ExecutionState.deadLetter.value, attempts := attempts
             deadLetterReason := some "max attempts exceeded", leaseOwner := none, leaseExpiry := none
             startedAt := some (row.startedAt.getD now), finishedAt := some now, updatedAt := now }

def Row.leased (attempts : ℤ) (workerId : String) (now leaseSeconds : ℚ) (row : Row) : Row :=
  { row with state := ExecutionState.running.value, attempts := attempts, leaseOwner := some workerId
             leaseExpiry := some (now + leaseSeconds), startedAt := some (row.startedAt.getD now)
             updatedAt := now }

def Row.renewed (now leaseSeconds : ℚ) (row : Row) : Row :=
  { row with leaseExpiry := some (now + leaseSeconds), updatedAt := now }

def Row.completed (result : Option (Dict Json)) (now : ℚ) (row : Row) : Row :=
  { row with state := ExecutionState.succeeded.value, result := result, leaseOwner := none, leaseExpiry := none
             finishedAt := some now, updatedAt := now }

def Row.deadLettered (error : String) (attempts : ℤ) (now : ℚ) (row : Row) : Row :=
  { row with state := ExecutionState.deadLetter.value, lastError := some error
             deadLetterReason := some ("failed after " ++ toString attempts ++ " attempt(s)")
             leaseOwner := none, leaseExpiry := none, finishedAt := some now, updatedAt := now }

def Row.rescheduled (error : String) (runAt now : ℚ) (row : Row) : Row :=
  { row with state := ExecutionState.pending.value, lastError := some error, runAt := runAt
             leaseOwner := none, leaseExpiry := none, updatedAt := now }

def Row.cancelled (now : ℚ) (row : Row) : Row :=
  { row with state := ExecutionState.cancelled.value, leaseOwner := none, leaseExpiry := none
             finishedAt := some now, updatedAt := now }

def Row.recovered (now : ℚ) (row : Row) : Row :=
  { row with state := ExecutionState.pending.value, leaseOwner := none, leaseExpiry := none
             runAt := now, updatedAt := now }

/-- `id = ? AND state = ? AND lease_owner = ?`. -/
def Row.heldBy (jobId workerId : String) (row : Row) : Bool :=
  row.id = jobId && row.state = ExecutionState.running.value && row.leaseOwner = some workerId

/-- `id = ? AND state NOT IN (?,?,?)`. -/
def Row.live (jobId : String) (row : Row) : Bool := row.id = jobId && !row.terminal

namespace Database

/-- A statement that writes, and the commit after it. -/
def write (table : Table) (db : Database) : Database := (db.execute table).commit

def enqueue (job : ExecutionJob) (db : Database) : Reply × Database :=
  match db.table.insert (toRow job) with
  | .error failure => (.raised failure, db.execute db.table)
  | .ok table => (.read ((db.write table).getByKey job.idempotencyKey), db.write table)

/-- The `while True` of `claim_next`, inside its transaction. -/
def claimLoop (retry : RetryPolicy) (rank : String → ℕ) (workerId : String) (now leaseSeconds : ℚ) :
    ℕ → Database → Option (Reply × Database)
  | 0, _ => none
  | fuel + 1, db =>
    match (sortOn (Row.oldestFirst rank) (db.table.rows.filter (·.runnable now))).head? with
    | none => some (.job none, db.commit)
    | some row =>
      let attempts := row.attempts + 1
      if retry.maxAttempts < attempts then
        claimLoop retry rank workerId now leaseSeconds fuel
          (db.execute (db.table.update (·.id = row.id) (Row.exceeded attempts now)))
      else
        let db := db.write (db.table.update (·.id = row.id) (Row.leased attempts workerId now leaseSeconds))
        some (.read (db.getById row.id), db)

/-- `BEGIN IMMEDIATE` fails inside a transaction. -/
def claimNext (retry : RetryPolicy) (rank : String → ℕ) (workerId : String) (now leaseSeconds : ℚ) (db : Database) :
    Option (Reply × Database) :=
  if db.inTransaction then some (.raised .operationalError, db)
  else claimLoop retry rank workerId now leaseSeconds (db.table.rows.length + 1) (db.execute db.table)

def renewLease (jobId workerId : String) (now leaseSeconds : ℚ) (db : Database) : Reply × Database :=
  (.flag (0 < db.table.rows.countP (Row.heldBy jobId workerId)),
    db.write (db.table.update (Row.heldBy jobId workerId) (Row.renewed now leaseSeconds)))

def complete (jobId : String) (result : Option (Dict Json)) (now : ℚ) (db : Database) : Reply × Database :=
  match db.getById jobId with
  | .error failure => (.raised failure, db)
  | .ok none => (.raised (.jobNotFound jobId), db)
  | .ok (some job) =>
    if job.state.isTerminal then (.job (some job), db)
    else
      let db := db.write (db.table.update (·.id = jobId) (Row.completed result now))
      (.read (db.getById jobId), db)

def fail (retry : RetryPolicy) (jobId error : String) (now : ℚ) (db : Database) : Reply × Database :=
  match db.getById jobId with
  | .error failure => (.raised failure, db)
  | .ok none => (.raised (.jobNotFound jobId), db)
  | .ok (some job) =>
    if job.state.isTerminal then (.job (some job), db)
    else if retry.maxAttempts ≤ job.attempts then
      let db := db.write (db.table.update (·.id = jobId) (Row.deadLettered error job.attempts now))
      (.read (db.getById jobId), db)
    else
      let runAt := now + retry.backoffSeconds job.attempts
      let db := db.write (db.table.update (·.id = jobId) (Row.rescheduled error runAt now))
      (.read (db.getById jobId), db)

def cancel (jobId : String) (now : ℚ) (db : Database) : Reply × Database :=
  (.flag (0 < db.table.rows.countP (Row.live jobId)),
    db.write (db.table.update (Row.live jobId) (Row.cancelled now)))

/-- `recover_stale`: the ids first, then one update of all of them, then the jobs one by one. -/
def recoverStale (rank : String → ℕ) (now : ℚ) (db : Database) : Reply × Database :=
  match (sortOn (rank ·.id) (db.table.rows.filter (·.stale now))).map Row.id with
  | [] => (.jobs [], db)
  | id :: others =>
    let ids := id :: others
    let db := db.write (db.table.update (ids.contains ·.id) (Row.recovered now))
    match ids.mapM db.getById with
    | .error failure => (.raised failure, db)
    | .ok jobs => (.jobs jobs.reduceOption, db)

def listJobs (rank : String → ℕ) (states : Option (List ExecutionState)) (agentId : Option String)
    (kind : Option ExecutionKind) (limit : Option ℕ) (db : Database) : Reply :=
  let rows := sortOn (Row.newestFirst rank) (db.table.rows.filter (·.listed states agentId kind))
  match (limited limit rows).mapM rowToJob with
  | .error failure => .raised failure
  | .ok jobs => .jobs jobs

/-- One call, or the store closed and opened again. -/
def step (retry : RetryPolicy) (db : Database) (request : Request) : Option (Reply × Database) :=
  match request.call with
  | .enqueue job => some (db.enqueue job)
  | .claimNext workerId now leaseSeconds => db.claimNext retry request.rank workerId now leaseSeconds
  | .renewLease jobId workerId now leaseSeconds => some (db.renewLease jobId workerId now leaseSeconds)
  | .complete jobId result now => some (db.complete jobId result now)
  | .fail jobId error now => some (db.fail retry jobId error now)
  | .cancel jobId now => some (db.cancel jobId now)
  | .recoverStale now => some (db.recoverStale request.rank now)
  | .get jobId => some (.read (db.getById jobId), db)
  | .listJobs states agentId kind limit => some (db.listJobs request.rank states agentId kind limit, db)
  | .reopen => some (.reopened, db.reopen)

end Database

end MetadataGraph.Execution
