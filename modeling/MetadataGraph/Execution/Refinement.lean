import MetadataGraph.Execution.Sqlite
import MetadataGraph.Execution.Lifecycle
import MetadataGraph.Lib.Runs

namespace MetadataGraph.Execution

open StableSort Runs

/-- Every key of a stored job leads to that job, and no key leads elsewhere. -/
def Memory.Indexed (m : Memory) : Prop :=
  ∀ key id, m.byKey.get? key = some id ↔ ∃ job, m.jobs.get? id = some job ∧ job.idempotencyKey = key

/-- The rows are the jobs, one by one. -/
def Table.Shows (table : Table) (m : Memory) : Prop := table.rows = m.jobs.values.map toRow

/-- Between two calls every change is committed, and the rows are the jobs of the volatile store. -/
structure Mirrors (db : Database) (m : Memory) : Prop where
  shows : db.table.Shows m
  indexed : m.Indexed
  saved : db.saved = db.table

theorem Table.rows_update (table : Table) (condition : Row → Bool) (set : Row → Row)
    (keepsId : ∀ row, (set row).id = row.id) (keepsKey : ∀ row, (set row).idempotencyKey = row.idempotencyKey) :
    (table.update condition set keepsId keepsKey).rows =
      table.rows.map fun row => if condition row then set row else row := rfl

theorem Table.insert_new {table : Table} {row : Row}
    (unknown : row.idempotencyKey ∉ table.rows.map Row.idempotencyKey) (untaken : row.id ∉ table.rows.map Row.id) :
    ∃ next, table.insert row = .ok next ∧ next.rows = table.rows ++ [row] := by
  rw [insert, dif_neg unknown, dif_neg untaken]
  exact ⟨_, rfl, rfl⟩

theorem Table.insert_known {table : Table} {row : Row}
    (known : row.idempotencyKey ∈ table.rows.map Row.idempotencyKey) : table.insert row = .ok table := by
  rw [insert, dif_pos known]

theorem stale_toRow (now : ℚ) (job : ExecutionJob) : (toRow job).stale now = job.stale now := by
  cases expiry : job.leaseExpiry with
  | none => simp [Row.stale, ExecutionJob.stale, ExecutionJob.leaseExpired, toRow, expiry]
  | some time =>
    simp [Row.stale, ExecutionJob.stale, ExecutionJob.leaseExpired, toRow, ExecutionState.value_inj, expiry]

theorem runnable_toRow (now : ℚ) (job : ExecutionJob) : (toRow job).runnable now = job.runnable now := by
  rw [Row.runnable, stale_toRow]
  simp only [toRow, ExecutionState.value_inj]
  rfl

theorem terminal_toRow (job : ExecutionJob) : (toRow job).terminal = job.state.isTerminal := by
  have byState : ∀ state : ExecutionState, [ExecutionState.succeeded.value, ExecutionState.deadLetter.value,
      ExecutionState.cancelled.value].contains state.value = state.isTerminal := by
    intro state
    cases state <;> decide +kernel
  exact byState job.state

theorem listed_toRow (states : Option (List ExecutionState)) (agentId : Option String) (kind : Option ExecutionKind)
    (job : ExecutionJob) : (toRow job).listed states agentId kind = job.listed states agentId kind := by
  have byState : ∀ states : List ExecutionState,
      (states.map ExecutionState.value).contains job.state.value = states.contains job.state := by
    intro states
    simp only [List.contains_eq_mem, List.mem_map, ExecutionState.value_inj, exists_eq_right]
  simp only [Row.listed, ExecutionJob.listed, toRow, byState, ExecutionKind.value_inj]
  rfl

variable {db : Database} {m : Memory}

/-- A selection of the rows, sorted, is the same selection of the jobs. -/
theorem Table.Shows.select {κ : Type} [LinearOrder κ] (shows : db.table.Shows m) (rowKey : Row → κ)
    (key : ExecutionJob → κ) (sameKey : ∀ job, rowKey (toRow job) = key job) {rowTest : Row → Bool}
    {test : ExecutionJob → Bool} (sameTest : ∀ job, rowTest (toRow job) = test job) :
    sortOn rowKey (db.table.rows.filter rowTest) = (sortOn key (m.jobs.values.filter test)).map toRow := by
  have tests : rowTest ∘ toRow = test := funext sameTest
  rw [shows, List.filter_map, tests, map_sortOn toRow sameKey]

theorem Table.Shows.getById (shows : db.table.Shows m) (id : String) : db.getById id = .ok (m.jobs.get? id) := by
  have tests : (fun row : Row => decide (row.id = id)) ∘ toRow = fun job => decide (job.id = id) := rfl
  rw [Database.getById, shows, List.find?_map, tests, Catalogue.find?_values]
  cases m.jobs.get? id with
  | none => rfl
  | some job =>
    dsimp only [Option.map_some]
    rw [rowToJob_toRow]
    rfl

/-- Two stored jobs with one key are one job. -/
theorem Table.Shows.unique (shows : db.table.Shows m) {a b : ExecutionJob} (first : a ∈ m.jobs.values)
    (second : b ∈ m.jobs.values) (same : a.idempotencyKey = b.idempotencyKey) : a = b := by
  have keys : (m.jobs.values.map ExecutionJob.idempotencyKey).Nodup := by
    have unique := db.table.uniqueKey
    rw [shows, List.map_map] at unique
    exact unique
  exact List.inj_on_of_nodup_map keys first second same

theorem Table.Shows.getByKey (shows : db.table.Shows m) {job : ExecutionJob} {id : String}
    (stored : m.jobs.get? id = some job) : db.getByKey job.idempotencyKey = .ok (some job) := by
  have member := (Catalogue.get?_eq_some.mp stored).1
  have tests : (fun row : Row => decide (row.idempotencyKey = job.idempotencyKey)) ∘ toRow =
      fun other => decide (other.idempotencyKey = job.idempotencyKey) := rfl
  rw [Database.getByKey, shows, List.find?_map, tests]
  cases found : m.jobs.values.find? fun other => decide (other.idempotencyKey = job.idempotencyKey) with
  | none => exact absurd (decide_eq_true rfl) (List.find?_eq_none.mp found job member)
  | some other =>
    have same : other.idempotencyKey = job.idempotencyKey := by simpa using List.find?_some found
    rw [shows.unique (List.mem_of_find?_eq_some found) member same]
    dsimp only [Option.map_some]
    rw [rowToJob_toRow]
    rfl

theorem Memory.Indexed.put (indexed : m.Indexed) {old new : ExecutionJob} (stored : m.jobs.get? old.id = some old)
    (sameId : new.id = old.id) (sameKey : new.idempotencyKey = old.idempotencyKey) :
    ({ m with jobs := m.jobs.put new } : Memory).Indexed := by
  intro key id
  rw [indexed key id]
  simp only [Catalogue.get?_put, sameId]
  by_cases here : id = old.id
  · subst here
    simp only [if_pos, stored, Option.some.injEq, exists_eq_left', sameKey]
  · simp only [if_neg here]

/-- An update that does to each row what is done to its job. -/
theorem Table.Shows.each (shows : db.table.Shows m) {after : Memory} {change : ExecutionJob → ExecutionJob}
    (values : after.jobs.values = m.jobs.values.map change) (condition : Row → Bool) (set : Row → Row)
    (keepsId : ∀ row, (set row).id = row.id) (keepsKey : ∀ row, (set row).idempotencyKey = row.idempotencyKey)
    (each : ∀ job ∈ m.jobs.values,
      (if condition (toRow job) then set (toRow job) else toRow job) = toRow (change job)) :
    (db.table.update condition set keepsId keepsKey).Shows after := by
  rw [Table.Shows, Table.rows_update, shows, values, List.map_map, List.map_map]
  exact List.map_congr_left each

/-- One job changed, and its row with it. -/
theorem Table.Shows.put (shows : db.table.Shows m) {old : ExecutionJob} (stored : m.jobs.get? old.id = some old)
    (new : ExecutionJob) (sameId : new.id = old.id) (condition : Row → Bool) (set : Row → Row)
    (keepsId : ∀ row, (set row).id = row.id) (keepsKey : ∀ row, (set row).idempotencyKey = row.idempotencyKey)
    (selects : ∀ job ∈ m.jobs.values, condition (toRow job) = decide (job.id = old.id))
    (sets : set (toRow old) = toRow new) :
    (db.table.update condition set keepsId keepsKey).Shows { m with jobs := m.jobs.put new } := by
  refine shows.each (Catalogue.values_put_old (by rw [sameId]; exact stored)) condition set keepsId keepsKey ?_
  intro job member
  rw [selects job member, sameId]
  by_cases here : job.id = old.id
  · have same : job = old := by
      have found := Catalogue.get?_of_mem member
      rw [here, stored] at found
      exact (Option.some.inj found).symm
    rw [if_pos (decide_eq_true here), if_pos here, same, sets]
  · rw [if_neg (by simpa using here), if_neg here]

/-- The same, committed. -/
theorem Table.Shows.write (shows : db.table.Shows m) (indexed : m.Indexed) {old : ExecutionJob} (stored : m.jobs.get? old.id = some old)
    (new : ExecutionJob) (sameId : new.id = old.id) (sameKey : new.idempotencyKey = old.idempotencyKey)
    (condition : Row → Bool) (set : Row → Row) (keepsId : ∀ row, (set row).id = row.id)
    (keepsKey : ∀ row, (set row).idempotencyKey = row.idempotencyKey)
    (selects : ∀ job ∈ m.jobs.values, condition (toRow job) = decide (job.id = old.id))
    (sets : set (toRow old) = toRow new) :
    Mirrors (db.write (db.table.update condition set keepsId keepsKey)) { m with jobs := m.jobs.put new } where
  shows := shows.put stored new sameId condition set keepsId keepsKey selects sets
  indexed := indexed.put stored sameId sameKey
  saved := rfl

/-- A write that selects no row. -/
theorem Mirrors.untouched (mirrors : Mirrors db m) (condition : Row → Bool) (set : Row → Row)
    (keepsId : ∀ row, (set row).id = row.id)
    (keepsKey : ∀ row, (set row).idempotencyKey = row.idempotencyKey)
    (selects : ∀ job ∈ m.jobs.values, condition (toRow job) = false) :
    Mirrors (db.write (db.table.update condition set keepsId keepsKey)) m where
  shows := by
    refine mirrors.shows.each (List.map_id _).symm condition set keepsId keepsKey ?_
    intro job member
    rw [selects job member]
    rfl
  indexed := mirrors.indexed
  saved := rfl

theorem Mirrors.getById (mirrors : Mirrors db m) (id : String) : db.getById id = .ok (m.jobs.get? id) :=
  mirrors.shows.getById id

/-- The two stores answer alike, the rows are the jobs again, and no transaction is left open. -/
structure Agree (db : Database) (left : Reply × Database) (right : Reply × Memory) : Prop where
  reply : left.1 = right.1
  mirrors : Mirrors left.2 right.2
  closed : db.inTransaction = false → left.2.inTransaction = false

/-- An update of one stored job, after which it is read again. -/
theorem Table.Shows.agree_put (shows : db.table.Shows m) (indexed : m.Indexed) {jobId : String} {old : ExecutionJob}
    (stored : m.jobs.get? jobId = some old) (new : ExecutionJob) (sameId : new.id = old.id)
    (sameKey : new.idempotencyKey = old.idempotencyKey) (set : Row → Row) (keepsId : ∀ row, (set row).id = row.id)
    (keepsKey : ∀ row, (set row).idempotencyKey = row.idempotencyKey) (sets : set (toRow old) = toRow new) :
    Agree db (.read ((db.write (db.table.update (·.id = jobId) set keepsId keepsKey)).getById jobId),
        db.write (db.table.update (·.id = jobId) set keepsId keepsKey))
      (.job (some new), { m with jobs := m.jobs.put new }) := by
  have own := Catalogue.key_of_get? stored
  rw [← own] at stored ⊢
  have next := shows.write indexed stored new sameId sameKey (·.id = old.id) set keepsId keepsKey (fun _ _ => rfl) sets
  refine ⟨?_, next, fun _ => rfl⟩
  rw [next.getById, Catalogue.get?_put, if_pos sameId.symm]
  rfl

theorem complete_agree (mirrors : Mirrors db m) (jobId : String) (result : Option (Dict Json)) (now : ℚ) :
    Agree db (db.complete jobId result now) (m.complete jobId result now) := by
  rw [Database.complete, Memory.complete, mirrors.getById]
  cases stored : m.jobs.get? jobId with
  | none => exact ⟨rfl, mirrors, id⟩
  | some job =>
    dsimp only
    split
    · exact ⟨rfl, mirrors, id⟩
    · exact mirrors.shows.agree_put mirrors.indexed stored (job.completed result now) rfl rfl (Row.completed result now)
        (fun _ => rfl) (fun _ => rfl) rfl

theorem fail_agree (retry : RetryPolicy) (mirrors : Mirrors db m) (jobId error : String) (now : ℚ) :
    Agree db (db.fail retry jobId error now) (m.fail retry jobId error now) := by
  rw [Database.fail, Memory.fail, mirrors.getById]
  cases stored : m.jobs.get? jobId with
  | none => exact ⟨rfl, mirrors, id⟩
  | some job =>
    dsimp only
    split
    · exact ⟨rfl, mirrors, id⟩
    · split
      · rename_i spent
        refine mirrors.shows.agree_put mirrors.indexed stored (job.failed retry error now) (job.failed_id retry error now)
          (job.failed_idempotencyKey retry error now) (Row.deadLettered error job.attempts now)
          (fun _ => rfl) (fun _ => rfl) ?_
        rw [ExecutionJob.failed, if_pos spent]
        rfl
      · rename_i left
        refine mirrors.shows.agree_put mirrors.indexed stored (job.failed retry error now) (job.failed_id retry error now)
          (job.failed_idempotencyKey retry error now)
          (Row.rescheduled error (now + retry.backoffSeconds job.attempts) now) (fun _ => rfl) (fun _ => rfl) ?_
        rw [ExecutionJob.failed, if_neg left]
        rfl

theorem Table.Shows.countP_pos (shows : db.table.Shows m) (condition : Row → Bool) :
    0 < db.table.rows.countP condition ↔ ∃ job ∈ m.jobs.values, condition (toRow job) = true := by
  rw [List.countP_pos_iff, shows]
  simp only [List.mem_map, exists_exists_and_eq_and]

/-- An update that names an id and a test, answered by whether it changed a row. -/
theorem Mirrors.agree_where (mirrors : Mirrors db m) (jobId : String) {condition : Row → Bool}
    {test : ExecutionJob → Bool} (selects : ∀ job, condition (toRow job) = (decide (job.id = jobId) && test job))
    (change : ExecutionJob → ExecutionJob) (sameId : ∀ job, (change job).id = job.id)
    (sameKey : ∀ job, (change job).idempotencyKey = job.idempotencyKey) (set : Row → Row)
    (keepsId : ∀ row, (set row).id = row.id) (keepsKey : ∀ row, (set row).idempotencyKey = row.idempotencyKey)
    (sets : ∀ job, set (toRow job) = toRow (change job)) {right : Reply × Memory}
    (absent : m.jobs.get? jobId = none → right = (.flag false, m))
    (refused : ∀ job, m.jobs.get? jobId = some job → test job = false → right = (.flag false, m))
    (taken : ∀ job, m.jobs.get? jobId = some job → test job = true →
      right = (.flag true, { m with jobs := m.jobs.put (change job) })) :
    Agree db (.flag (0 < db.table.rows.countP condition), db.write (db.table.update condition set keepsId keepsKey))
      right := by
  have count := mirrors.shows.countP_pos condition
  have missed : (∀ job ∈ m.jobs.values, condition (toRow job) = false) → right = (.flag false, m) →
      Agree db (.flag (0 < db.table.rows.countP condition), db.write (db.table.update condition set keepsId keepsKey))
        right := by
    intro none same
    rw [same]
    refine ⟨?_, mirrors.untouched condition set keepsId keepsKey none, fun _ => rfl⟩
    refine congrArg Reply.flag (decide_eq_false ?_)
    rw [count]
    rintro ⟨job, member, selected⟩
    rw [none job member] at selected
    cases selected
  cases stored : m.jobs.get? jobId with
  | none =>
    refine missed ?_ (absent stored)
    intro job member
    rw [selects, decide_eq_false (Catalogue.get?_eq_none.mp stored job member), Bool.false_and]
  | some old =>
    obtain ⟨present, rfl⟩ := Catalogue.get?_eq_some.mp stored
    have alone : ∀ job ∈ m.jobs.values, job.id = old.id → job = old := by
      intro job member same
      have found := Catalogue.get?_of_mem member
      rw [same, stored] at found
      exact (Option.some.inj found).symm
    cases passes : test old with
    | false =>
      refine missed ?_ (refused old stored passes)
      intro job member
      rw [selects]
      by_cases same : job.id = old.id
      · rw [alone job member same, passes, Bool.and_false]
      · rw [decide_eq_false same, Bool.false_and]
    | true =>
      rw [taken old stored passes]
      refine ⟨congrArg Reply.flag (decide_eq_true (count.mpr ⟨old, present, ?_⟩)), ?_, fun _ => rfl⟩
      · rw [selects, passes, Bool.and_true, decide_eq_true rfl]
      · refine mirrors.shows.write mirrors.indexed stored (change old) (sameId old) (sameKey old) condition set keepsId
          keepsKey ?_ (sets old)
        intro job member
        rw [selects]
        by_cases same : job.id = old.id
        · rw [alone job member same, passes, Bool.and_true]
        · rw [decide_eq_false same, Bool.false_and]

theorem renewLease_agree (mirrors : Mirrors db m) (jobId workerId : String) (now leaseSeconds : ℚ) :
    Agree db (db.renewLease jobId workerId now leaseSeconds) (m.renewLease jobId workerId now leaseSeconds) := by
  have selects : ∀ job, (toRow job).heldBy jobId workerId =
      (decide (job.id = jobId) && (decide (job.state = .running) && decide (job.leaseOwner = some workerId))) := by
    intro job
    rw [Row.heldBy, Bool.and_assoc]
    simp only [toRow, ExecutionState.value_inj]
    rfl
  refine mirrors.agree_where jobId selects (·.renewed now leaseSeconds) (fun _ => rfl) (fun _ => rfl)
    (Row.renewed now leaseSeconds) (fun _ => rfl) (fun _ => rfl) (fun _ => rfl) ?_ ?_ ?_
  · intro stored
    rw [Memory.renewLease, stored]
  · intro job stored held
    rw [Memory.renewLease, stored]
    dsimp only
    rw [if_pos]
    simpa only [Bool.and_eq_false_iff, decide_eq_false_iff_not, Bool.or_eq_true, decide_eq_true_eq] using held
  · intro job stored held
    rw [Memory.renewLease, stored]
    dsimp only
    rw [if_neg]
    simpa only [Bool.and_eq_true, decide_eq_true_eq, Bool.or_eq_true, not_or, not_not] using held

theorem cancel_agree (mirrors : Mirrors db m) (jobId : String) (now : ℚ) :
    Agree db (db.cancel jobId now) (m.cancel jobId now) := by
  have selects : ∀ job, (toRow job).live jobId = (decide (job.id = jobId) && !job.state.isTerminal) := by
    intro job
    rw [Row.live, terminal_toRow]
    rfl
  refine mirrors.agree_where jobId selects (·.cancelled now) (fun _ => rfl) (fun _ => rfl)
    (Row.cancelled now) (fun _ => rfl) (fun _ => rfl) (fun _ => rfl) ?_ ?_ ?_
  · intro stored
    rw [Memory.cancel, stored]
  · intro job stored live
    rw [Memory.cancel, stored]
    dsimp only
    rw [if_pos (by simpa using live)]
  · intro job stored live
    rw [Memory.cancel, stored]
    dsimp only
    rw [if_neg (by simpa using live)]

theorem Memory.Indexed.enqueued (indexed : m.Indexed) {job : ExecutionJob} (absent : m.jobs.get? job.id = none)
    (unknown : m.byKey.get? job.idempotencyKey = none) :
    ({ jobs := m.jobs.put job, byKey := m.byKey.set job.idempotencyKey job.id } : Memory).Indexed := by
  intro key id
  rw [OrderedDict.get?_set]
  simp only [Catalogue.get?_put]
  by_cases sameKey : key = job.idempotencyKey
  · subst sameKey
    rw [if_pos rfl, Option.some.injEq]
    constructor
    · rintro rfl
      exact ⟨job, if_pos rfl, rfl⟩
    · rintro ⟨other, stored, same⟩
      by_cases sameId : id = job.id
      · exact sameId.symm
      · rw [if_neg sameId] at stored
        rw [(indexed _ id).mpr ⟨other, stored, same⟩] at unknown
        cases unknown
  · rw [if_neg sameKey, indexed key id]
    by_cases sameId : id = job.id
    · subst sameId
      simp only [absent, reduceCtorEq, false_and, exists_false, if_pos, Option.some.injEq, exists_eq_left', false_iff]
      exact fun same => sameKey same.symm
    · simp only [if_neg sameId]

theorem enqueue_agree (mirrors : Mirrors db m) (job : ExecutionJob)
    (spares : m.byKey.get? job.idempotencyKey = none → m.jobs.get? job.id = none) :
    Agree db (db.enqueue job) (m.enqueue job) := by
  rw [Database.enqueue, Memory.enqueue]
  have keys : (toRow job).idempotencyKey ∈ db.table.rows.map Row.idempotencyKey ↔
      ∃ id, m.byKey.get? job.idempotencyKey = some id := by
    rw [mirrors.shows, List.map_map, List.mem_map]
    constructor
    · rintro ⟨other, member, same⟩
      exact ⟨other.id, (mirrors.indexed _ _).mpr ⟨other, Catalogue.get?_of_mem member, same⟩⟩
    · rintro ⟨id, known⟩
      obtain ⟨other, stored, same⟩ := (mirrors.indexed _ _).mp known
      exact ⟨other, (Catalogue.get?_eq_some.mp stored).1, same⟩
  cases known : m.byKey.get? job.idempotencyKey with
  | some id =>
    rw [Table.insert_known (keys.mpr ⟨id, known⟩)]
    obtain ⟨stored, found, same⟩ := (mirrors.indexed _ _).mp known
    have next : Mirrors (db.write db.table) m := ⟨mirrors.shows, mirrors.indexed, rfl⟩
    have read := next.shows.getByKey found
    rw [same] at read
    refine ⟨?_, ?_, fun _ => rfl⟩
    · dsimp only
      rw [read, found]
      rfl
    · dsimp only
      rw [found]
      exact next
  | none =>
    have new := spares known
    have unknown : (toRow job).idempotencyKey ∉ db.table.rows.map Row.idempotencyKey := by
      rw [keys, known]
      rintro ⟨_, ⟨⟩⟩
    have untaken : (toRow job).id ∉ db.table.rows.map Row.id := by
      rw [mirrors.shows, List.map_map, List.mem_map]
      rintro ⟨other, member, same⟩
      exact Catalogue.get?_eq_none.mp new other member same
    obtain ⟨table, inserted, rows⟩ := Table.insert_new unknown untaken
    rw [inserted]
    have next : Mirrors (db.write table) { jobs := m.jobs.put job, byKey := m.byKey.set job.idempotencyKey job.id } := by
      refine ⟨?_, mirrors.indexed.enqueued new known, rfl⟩
      rw [Table.Shows, Catalogue.values_put_new new, List.map_append, ← mirrors.shows]
      exact rows
    have stored : (m.jobs.put job).get? job.id = some job := by rw [Catalogue.get?_put, if_pos rfl]
    refine ⟨?_, next, fun _ => rfl⟩
    dsimp only
    rw [next.shows.getByKey stored]
    rfl

/-- A job that is dead-lettered leaves the candidates, and the others stay in their order. -/
theorem Memory.runnable_exceeded (rank : String → ℕ) (now : ℚ) {job : ExecutionJob} {rest : List ExecutionJob}
    (candidates : m.runnable rank now = job :: rest) :
    ({ m with jobs := m.jobs.put ((job.begun now).exceeded now) } : Memory).runnable rank now = rest := by
  have distinct : ((job :: rest).map ExecutionJob.id).Nodup := by
    rw [← candidates, Memory.runnable, ((perm_sortOn _).map _).nodup_iff]
    exact (List.filter_sublist.map _).nodup m.jobs.nodup_values
  have stored : m.jobs.get? job.id = some job := by
    have member : job ∈ m.runnable rank now := by rw [candidates]; exact List.mem_cons_self
    rw [Memory.runnable, mem_sortOn] at member
    exact Catalogue.get?_of_mem (List.mem_of_mem_filter member)
  have kept := Catalogue.filter_values_put (a := (job.begun now).exceeded now) stored (·.runnable now) rfl
  rw [Memory.runnable] at candidates ⊢
  dsimp only
  rw [kept, ← filter_sortOn, candidates, List.filter_cons, if_neg (by simp [ExecutionJob.exceeded, ExecutionJob.begun]),
    List.filter_eq_self]
  intro other member
  rw [List.map_cons, List.nodup_cons] at distinct
  refine decide_eq_true fun same => distinct.1 ?_
  rw [show job.id = other.id from same.symm]
  exact List.mem_map_of_mem member

/-- The loop over the candidates is the loop that queries for one at a time: by induction on the
candidates that are left. -/
theorem claimLoop_agree (retry : RetryPolicy) (rank : String → ℕ) (workerId : String) (now leaseSeconds : ℚ)
    {fuel : ℕ} (shows : db.table.Shows m) (indexed : m.Indexed) (enough : (m.runnable rank now).length < fuel) :
    ∃ reply after, db.claimLoop retry rank workerId now leaseSeconds fuel = some (reply, after) ∧
      reply = .job (Memory.claimEach retry workerId now leaseSeconds (m.runnable rank now) m).1 ∧
      Mirrors after (Memory.claimEach retry workerId now leaseSeconds (m.runnable rank now) m).2 ∧
      after.inTransaction = false := by
  induction fuel generalizing db m with
  | zero => omega
  | succ fuel ih =>
    have query := shows.select (Row.oldestFirst rank) (ExecutionJob.oldestFirst rank) (fun _ => rfl) (runnable_toRow now)
    rw [Database.claimLoop, query, List.head?_map]
    cases candidates : m.runnable rank now with
    | nil =>
      rw [Memory.runnable] at candidates
      rw [candidates]
      exact ⟨_, _, rfl, rfl, ⟨shows, indexed, rfl⟩, rfl⟩
    | cons job rest =>
      have later := Memory.runnable_exceeded rank now candidates
      have stored : m.jobs.get? job.id = some job := by
        have member : job ∈ m.runnable rank now := by rw [candidates]; exact List.mem_cons_self
        rw [Memory.runnable, mem_sortOn] at member
        exact Catalogue.get?_of_mem (List.mem_of_mem_filter member)
      rw [candidates, List.length_cons] at enough
      rw [Memory.runnable] at candidates
      rw [candidates, Memory.claimEach]
      dsimp only [List.head?_cons, Option.map_some]
      by_cases spent : retry.maxAttempts < (job.begun now).attempts
      · rw [if_pos spent, if_pos (show retry.maxAttempts < (toRow job).attempts + 1 from spent)]
        have shown : (db.table.update (·.id = job.id) (Row.exceeded ((toRow job).attempts + 1) now)
            (fun _ => rfl) (fun _ => rfl)).Shows { m with jobs := m.jobs.put ((job.begun now).exceeded now) } :=
          shows.put stored ((job.begun now).exceeded now) rfl _ _ _ _ (fun _ _ => rfl) rfl
        have put : ({ m with jobs := m.jobs.put ((job.begun now).exceeded now) } : Memory).Indexed :=
          indexed.put stored rfl rfl
        rw [← later]
        have fewer : (({ m with jobs := m.jobs.put ((job.begun now).exceeded now) } : Memory).runnable rank now).length <
            fuel := by
          rw [later]
          omega
        exact ih shown put fewer
      · rw [if_neg spent, if_neg (show ¬ retry.maxAttempts < (toRow job).attempts + 1 from spent)]
        have agree := shows.agree_put indexed stored ((job.begun now).leased workerId now leaseSeconds) rfl rfl
          (Row.leased ((toRow job).attempts + 1) workerId now leaseSeconds) (fun _ => rfl) (fun _ => rfl) rfl
        exact ⟨_, _, rfl, agree.reply, agree.mirrors, rfl⟩

theorem claimNext_agree (retry : RetryPolicy) (rank : String → ℕ) (mirrors : Mirrors db m)
    (closed : db.inTransaction = false) (workerId : String) (now leaseSeconds : ℚ) :
    ∃ answer, db.claimNext retry rank workerId now leaseSeconds = some answer ∧
      Agree db answer (m.claimNext retry rank workerId now leaseSeconds) := by
  rw [Database.claimNext, closed, if_neg Bool.false_ne_true]
  have opened : (db.execute db.table).table.Shows m := mirrors.shows
  have enough : (m.runnable rank now).length < db.table.rows.length + 1 := by
    have rows : db.table.rows.length = m.jobs.values.length := by rw [mirrors.shows, List.length_map]
    have few := List.length_filter_le (·.runnable now) m.jobs.values
    rw [Memory.runnable, (perm_sortOn _).length_eq, rows]
    omega
  obtain ⟨reply, after, looped, same, next, closed⟩ :=
    claimLoop_agree retry rank workerId now leaseSeconds opened mirrors.indexed enough
  exact ⟨_, looped, same, next, fun _ => closed⟩

theorem mapM_rowToJob (jobs : List ExecutionJob) : (jobs.map toRow).mapM rowToJob = .ok jobs := by
  induction jobs with
  | nil => rfl
  | cons job jobs ih =>
    rw [List.map_cons, List.mapM_cons, rowToJob_toRow, ih]
    rfl

theorem listJobs_agree (mirrors : Mirrors db m) (rank : String → ℕ) (states : Option (List ExecutionState))
    (agentId : Option String) (kind : Option ExecutionKind) (limit : Option ℕ) :
    db.listJobs rank states agentId kind limit = .jobs (m.listJobs rank states agentId kind limit) := by
  have cut : ∀ jobs : List ExecutionJob, limited limit (jobs.map toRow) = (limited limit jobs).map toRow := by
    intro jobs
    cases limit with
    | none => rfl
    | some limit => exact List.map_take.symm
  rw [Database.listJobs, mirrors.shows.select (Row.newestFirst rank) (ExecutionJob.newestFirst rank)
    (fun _ => rfl) (listed_toRow states agentId kind), cut, mapM_rowToJob]
  rfl

/-- The jobs that a sweep changes are read again one by one. -/
theorem mapM_getById (mirrors : Mirrors db m) {jobs : List ExecutionJob}
    (stored : ∀ job ∈ jobs, m.jobs.get? job.id = some job) :
    (jobs.map ExecutionJob.id).mapM db.getById = .ok (jobs.map some) := by
  induction jobs with
  | nil => rfl
  | cons job jobs ih =>
    rw [List.map_cons, List.mapM_cons, mirrors.getById, stored job List.mem_cons_self,
      ih fun other member => stored other (List.mem_cons_of_mem _ member)]
    rfl

theorem Memory.Indexed.swept (indexed : m.Indexed) (now : ℚ) :
    ({ m with jobs := m.jobs.change (·.swept now) (ExecutionJob.swept_id now) } : Memory).Indexed := by
  intro key id
  rw [indexed key id]
  dsimp only
  rw [Catalogue.get?_change]
  cases m.jobs.get? id with
  | none => rfl
  | some job =>
    have sameKey : (job.swept now).idempotencyKey = job.idempotencyKey := by
      rw [ExecutionJob.swept]
      split <;> rfl
    simp only [Option.map_some, Option.some.injEq, exists_eq_left', sameKey]

theorem recoverStale_agree (mirrors : Mirrors db m) (rank : String → ℕ) (now : ℚ) :
    Agree db (db.recoverStale rank now) (m.recoverStale rank now) := by
  have query := mirrors.shows.select (rank ·.id) (rank ·.id) (fun _ => rfl) (stale_toRow now)
  have ids : ∀ jobs : List ExecutionJob, (jobs.map toRow).map Row.id = jobs.map ExecutionJob.id := by
    intro jobs
    rw [List.map_map]
    rfl
  have chosen : ∀ job, job ∈ sortOn (rank ·.id) (m.jobs.values.filter (·.stale now)) ↔
      job ∈ m.jobs.values ∧ job.stale now = true := by
    intro job
    rw [mem_sortOn, List.mem_filter]
  rw [Database.recoverStale, Memory.recoverStale, query, ids]
  cases found : sortOn (rank ·.id) (m.jobs.values.filter (·.stale now)) with
  | nil =>
    rw [found] at chosen
    refine ⟨rfl, ⟨?_, mirrors.indexed.swept now, mirrors.saved⟩, id⟩
    refine mirrors.shows.trans ?_
    rw [Catalogue.values_change, List.map_map]
    apply List.map_congr_left
    intro job member
    have fresh : ¬ job.stale now = true := fun stale => by simpa using (chosen job).mpr ⟨member, stale⟩
    rw [Function.comp_apply, ExecutionJob.swept, if_neg fresh]
  | cons first others =>
    rw [found] at chosen
    rw [List.map_cons]
    dsimp only
    rw [← List.map_cons]
    have next : Mirrors (db.write (db.table.update (fun row => ((first :: others).map ExecutionJob.id).contains row.id)
        (Row.recovered now) (fun _ => rfl) (fun _ => rfl)))
        { m with jobs := m.jobs.change (·.swept now) (ExecutionJob.swept_id now) } := by
      refine ⟨?_, mirrors.indexed.swept now, rfl⟩
      refine mirrors.shows.each (Catalogue.values_change _ _ (ExecutionJob.swept_id now)) _ (Row.recovered now)
        (fun _ => rfl) (fun _ => rfl) ?_
      intro job member
      have selected : ((first :: others).map ExecutionJob.id).contains (toRow job).id = job.stale now := by
        rw [Bool.eq_iff_iff, List.contains_eq_mem, decide_eq_true_eq, List.mem_map]
        constructor
        · rintro ⟨other, listed, same⟩
          obtain ⟨present, stale⟩ := (chosen other).mp listed
          have stored := Catalogue.get?_of_mem present
          rw [same, show (toRow job).id = job.id from rfl, Catalogue.get?_of_mem member] at stored
          rw [Option.some.inj stored]
          exact stale
        · intro stale
          exact ⟨job, (chosen job).mpr ⟨member, stale⟩, rfl⟩
      rw [selected, ExecutionJob.swept]
      split <;> rfl
    have stored : ∀ job ∈ (first :: others).map (·.recovered now),
        (m.jobs.change (·.swept now) (ExecutionJob.swept_id now)).get? job.id = some job := by
      intro job member
      obtain ⟨old, listed, rfl⟩ := List.mem_map.mp member
      obtain ⟨present, stale⟩ := (chosen old).mp listed
      rw [Catalogue.get?_change, show (old.recovered now).id = old.id from rfl, Catalogue.get?_of_mem present,
        Option.map_some, ExecutionJob.swept, if_pos stale]
    have read := mapM_getById next stored
    have sameIds : ((first :: others).map (·.recovered now)).map ExecutionJob.id =
        (first :: others).map ExecutionJob.id := by
      rw [List.map_map]
      rfl
    rw [sameIds] at read
    rw [read]
    refine ⟨?_, next, fun _ => rfl⟩
    dsimp only
    have all : ((first :: others).map (·.recovered now) |>.map some).reduceOption = (first :: others).map (·.recovered now) :=
      (List.filterMap_map ..).trans List.filterMap_some
    exact congrArg Reply.jobs all

/-- One call of the volatile store, with the jobs that it holds afterwards. -/
def Memory.act (retry : RetryPolicy) (m : Memory) (request : Request) :
    Option (Memory × Reply × Except Failure (List ExecutionJob)) :=
  let (reply, after) := m.step retry request
  some (after, reply, .ok after.jobs.values)

/-- One call of the durable store, with the jobs that its rows hold afterwards. -/
def Database.act (retry : RetryPolicy) (db : Database) (request : Request) :
    Option (Database × Reply × Except Failure (List ExecutionJob)) :=
  (db.step retry request).map fun (reply, after) => (after, reply, after.table.rows.mapM rowToJob)

theorem step_agree (retry : RetryPolicy) (mirrors : Mirrors db m) (request : Request)
    (spares : ¬ m.Overwrites request)
    (idle : ∀ workerId now leaseSeconds, request.call = .claimNext workerId now leaseSeconds → db.inTransaction = false) :
    ∃ answer, db.step retry request = some answer ∧ Agree db answer (m.step retry request) := by
  obtain ⟨caller, call, rank⟩ := request
  cases call with
  | enqueue job =>
    refine ⟨_, rfl, enqueue_agree mirrors job fun unknown => ?_⟩
    by_contra stored
    exact spares ⟨unknown, Option.isSome_iff_ne_none.mpr stored⟩
  | claimNext workerId now leaseSeconds =>
    exact claimNext_agree retry rank mirrors (idle workerId now leaseSeconds rfl) workerId now leaseSeconds
  | renewLease jobId workerId now leaseSeconds =>
    exact ⟨_, rfl, renewLease_agree mirrors jobId workerId now leaseSeconds⟩
  | complete jobId result now => exact ⟨_, rfl, complete_agree mirrors jobId result now⟩
  | fail jobId error now => exact ⟨_, rfl, fail_agree retry mirrors jobId error now⟩
  | cancel jobId now => exact ⟨_, rfl, cancel_agree mirrors jobId now⟩
  | recoverStale now => exact ⟨_, rfl, recoverStale_agree mirrors rank now⟩
  | get jobId => exact ⟨_, rfl, congrArg Reply.read (mirrors.getById jobId), mirrors, id⟩
  | listJobs states agentId kind limit =>
    exact ⟨_, rfl, listJobs_agree mirrors rank states agentId kind limit, mirrors, id⟩
  | reopen =>
    refine ⟨_, rfl, rfl, ⟨?_, mirrors.indexed, rfl⟩, fun _ => rfl⟩
    exact (congrArg Table.rows mirrors.saved).trans mirrors.shows

/-- The two stores, and the ids that are still to be offered. -/
structure InStep (script : List Request) (db : Database) (m : Memory) : Prop where
  mirrors : Mirrors db m
  closed : db.inTransaction = false
  distinct : (script.filterMap Request.offered).Nodup
  new : ∀ id ∈ script.filterMap Request.offered, m.jobs.get? id = none

theorem act_inStep (retry : RetryPolicy) {request : Request} {script : List Request}
    (inStep : InStep (request :: script) db m) :
    ∃ db' m' output, db.act retry request = some (db', output) ∧ m.act retry request = some (m', output) ∧
      InStep script db' m' := by
  have offers : ∀ id, request.offered = some id → id ∈ (request :: script).filterMap Request.offered :=
    fun id offered => List.mem_filterMap.mpr ⟨request, List.mem_cons_self, offered⟩
  have spares : ¬ m.Overwrites request := by
    rw [Memory.overwrites_iff]
    rintro ⟨job, call, _, stored⟩
    rw [inStep.new job.id (offers job.id (by rw [Request.offered, call]))] at stored
    cases stored
  obtain ⟨⟨reply, db'⟩, stepped, agree⟩ := step_agree retry inStep.mirrors request spares fun _ _ _ _ => inStep.closed
  have jobs : db'.table.rows.mapM rowToJob = .ok (m.step retry request).2.jobs.values := by
    rw [agree.mirrors.shows, mapM_rowToJob]
  refine ⟨db', (m.step retry request).2, (reply, .ok (m.step retry request).2.jobs.values), ?_, ?_, ?_⟩
  · rw [Database.act, stepped, ← jobs]
    rfl
  · rw [show reply = (m.step retry request).1 from agree.reply]
    rfl
  · have distinct := inStep.distinct
    have rest : ∀ id ∈ script.filterMap Request.offered,
        request.offered ≠ some id ∧ id ∈ (request :: script).filterMap Request.offered := by
      intro id member
      rw [List.filterMap_cons] at distinct ⊢
      cases offered : request.offered with
      | none => exact ⟨fun no => (by cases no), member⟩
      | some first =>
        rw [offered, List.nodup_cons] at distinct
        refine ⟨?_, List.mem_cons_of_mem _ member⟩
        rintro ⟨⟩
        exact distinct.1 member
    refine ⟨agree.mirrors, agree.closed inStep.closed, ?_, ?_⟩
    · rw [List.filterMap_cons] at distinct
      split at distinct
      · exact distinct
      · exact (List.nodup_cons.mp distinct).2
    · intro id member
      obtain ⟨other, listed⟩ := rest id member
      exact (m.step_moves retry request spares id).absent (inStep.new id listed) other

theorem mirrors_empty : Mirrors {} {} := by
  refine ⟨rfl, ?_, rfl⟩
  intro key id
  refine ⟨nofun, ?_⟩
  rintro ⟨job, ⟨⟩, _⟩

/-- The durable store answers every sequence of calls as the volatile one does, and holds the same
jobs after each of them, ties broken alike; to close and reopen it changes nothing. -/
theorem sqlite_refines_memory (retry : RetryPolicy) (script : List Request)
    (distinct : (script.filterMap Request.offered).Nodup) :
    ∃ outputs db m, behaviour (Database.act retry) {} script = some (outputs, db) ∧
      behaviour (Memory.act retry) {} script = some (outputs, m) ∧ db.reopen = db := by
  have start : InStep script {} {} := ⟨mirrors_empty, rfl, distinct, fun _ _ => rfl⟩
  obtain ⟨outputs, db, m, left, right, last⟩ := behaviour_of_lockstep InStep (act_inStep retry) start
  refine ⟨outputs, db, m, left, right, ?_⟩
  have saved := last.mirrors.saved
  have closed := last.closed
  obtain ⟨table, committed, inTransaction⟩ := db
  cases saved
  cases closed
  rfl

/-- A job that is due at once. -/
def dueJob (id key : String) : ExecutionJob :=
  { agentId := "agent", kind := .event, idempotencyKey := key, id := id, runAt := 0, createdAt := 0, updatedAt := 0 }

/-- Two jobs due at the same time, one of them claimed; the store is reopened before it fails. -/
def reopenedScript : List Request :=
  [⟨"", .enqueue (dueJob "a" "first"), fun _ => 0⟩, ⟨"", .enqueue (dueJob "b" "second"), fun _ => 0⟩,
    ⟨"w", .claimNext "w" 0 60, fun _ => 0⟩, ⟨"", .reopen, fun _ => 0⟩, ⟨"w", .fail "a" "boom" 1, fun _ => 0⟩]

theorem sqlite_refines_memory_sample : ∃ outputs db m,
    behaviour (Database.act {}) {} reopenedScript = some (outputs, db) ∧
      behaviour (Memory.act {}) {} reopenedScript = some (outputs, m) ∧ db.reopen = db :=
  sqlite_refines_memory {} reopenedScript (by decide)

end MetadataGraph.Execution
