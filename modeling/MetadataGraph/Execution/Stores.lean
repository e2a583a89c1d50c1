import MetadataGraph.Execution.Refinement

namespace MetadataGraph.Execution

open Runs

/-- A store that is called, of either kind. -/
inductive Store where
  | memory (m : Memory)
  | sqlite (db : Database)

inductive Adapter where
  | memory | sqlite

/-- A store with no job in it. -/
def Adapter.empty : Adapter → Store
  | .memory => .memory {}
  | .sqlite => .sqlite {}

namespace Store

def act (retry : RetryPolicy) (s : Store) (request : Request) : Option (Store × Reply) :=
  match s with
  | .memory m => some (.memory (m.step retry request).2, (m.step retry request).1)
  | .sqlite db => (db.step retry request).map fun (reply, after) => (.sqlite after, reply)

/-- The job that is stored under an id. -/
def get? (s : Store) (id : String) : Option ExecutionJob :=
  match s with
  | .memory m => m.jobs.get? id
  | .sqlite db => match db.getById id with
    | .ok job => job
    | .error _ => none

/-- A job offered under a new key and the id of a stored job takes that job's place. The primary key
of the database refuses it. -/
def Overwrites (s : Store) (request : Request) : Prop :=
  match s with
  | .memory m => m.Overwrites request
  | .sqlite _ => False

/-- What every reachable store is: the jobs of a volatile store that a database could hold. -/
def Shows (s : Store) (m : Memory) : Prop :=
  match s with
  | .memory m' => m' = m ∧ ∃ db, Mirrors db m
  | .sqlite db => Mirrors db m

instance (s : Store) (request : Request) : Decidable (s.Overwrites request) := by
  unfold Overwrites
  cases s <;> infer_instance

variable {s t : Store} {m : Memory} {retry : RetryPolicy} {request : Request} {reply : Reply}

theorem Shows.get? (shows : s.Shows m) (id : String) : s.get? id = m.jobs.get? id := by
  cases s with
  | memory m' =>
    obtain ⟨rfl, _⟩ := shows
    rfl
  | sqlite db => rw [Store.get?, Mirrors.getById shows]

/-- At most one job is stored under an idempotency key. -/
theorem Shows.unique (shows : s.Shows m) {i j : String} {a b : ExecutionJob} (first : s.get? i = some a)
    (second : s.get? j = some b) (same : a.idempotencyKey = b.idempotencyKey) : i = j := by
  have indexed : m.Indexed := by
    cases s with
    | memory m' =>
      obtain ⟨rfl, db, mirrors⟩ := shows
      exact mirrors.indexed
    | sqlite db => exact Mirrors.indexed shows
  rw [shows.get?] at first second
  have left := (indexed a.idempotencyKey i).mpr ⟨a, first, rfl⟩
  rw [(indexed a.idempotencyKey j).mpr ⟨b, second, same.symm⟩] at left
  exact (Option.some.inj left).symm


/-- A second job under one id is refused, and leaves its transaction open. -/
theorem enqueue_refused {db : Database} (mirrors : Mirrors db m) {job : ExecutionJob}
    (unknown : m.byKey.get? job.idempotencyKey = none) (taken : (m.jobs.get? job.id).isSome = true) :
    db.enqueue job = (.raised .integrityError, db.execute db.table) := by
  obtain ⟨old, stored⟩ := Option.isSome_iff_exists.mp taken
  have fresh : (toRow job).idempotencyKey ∉ db.table.rows.map Row.idempotencyKey := by
    rw [mirrors.shows, List.map_map, List.mem_map]
    rintro ⟨other, member, same⟩
    have known := (mirrors.indexed job.idempotencyKey other.id).mpr ⟨other, Catalogue.get?_of_mem member, same⟩
    rw [known] at unknown
    cases unknown
  have present : (toRow job).id ∈ db.table.rows.map Row.id := by
    rw [mirrors.shows, List.map_map, List.mem_map]
    exact ⟨old, (Catalogue.get?_eq_some.mp stored).1, Catalogue.key_of_get? stored⟩
  rw [Database.enqueue, Table.insert, dif_neg fresh, dif_pos present]

theorem sqlite_moves {db : Database} (mirrors : Mirrors db m) (retry : RetryPolicy) (request : Request) :
    ∃ reply after m', db.step retry request = some (reply, after) ∧ Mirrors after m' ∧
      ∀ id, Moves retry request reply id (m.jobs.get? id) (m'.jobs.get? id) := by
  by_cases overwrites : m.Overwrites request
  · obtain ⟨job, call, unknown, taken⟩ := Memory.overwrites_iff.mp overwrites
    have refused := enqueue_refused mirrors unknown taken
    have next : Mirrors (db.execute db.table) m := ⟨mirrors.shows, mirrors.indexed, mirrors.saved⟩
    refine ⟨.raised .integrityError, db.execute db.table, m, ?_, next, fun id => .still ?_ ?_ ?_⟩
    · rw [Database.step, call]
      exact congrArg some refused
    · simp only [Request.handedOut, call]
    · simp only [Request.rescheduled, call]
    · simp only [Request.renewed, call]
  · by_cases idle : ∀ workerId now leaseSeconds, request.call = .claimNext workerId now leaseSeconds →
        db.inTransaction = false
    · obtain ⟨⟨reply, after⟩, stepped, agree⟩ := step_agree retry mirrors request overwrites idle
      refine ⟨reply, after, _, stepped, agree.mirrors, fun id => ?_⟩
      rw [show reply = (m.step retry request).1 from agree.reply]
      exact m.step_moves retry request overwrites id
    · simp only [not_forall, Bool.not_eq_false] at idle
      obtain ⟨workerId, now, leaseSeconds, call, busy⟩ := idle
      refine ⟨.raised .operationalError, db, m, ?_, mirrors, fun id => .still ?_ ?_ ?_⟩
      · rw [Database.step, call]
        exact if_pos busy
      · simp only [Request.handedOut, call]
      · simp only [Request.rescheduled, call]
      · simp only [Request.renewed, call]

/-- A call of either store does to the job under each id one of the moves. -/
theorem Shows.act_moves (shows : s.Shows m) (spares : ¬ s.Overwrites request)
    (stepped : s.act retry request = some (t, reply)) :
    (∃ m', t.Shows m') ∧ ∀ id, Moves retry request reply id (s.get? id) (t.get? id) := by
  cases s with
  | memory m₁ =>
    obtain ⟨rfl, db, mirrors⟩ := shows
    have idle : Mirrors { db with inTransaction := false } m₁ := ⟨mirrors.shows, mirrors.indexed, mirrors.saved⟩
    obtain ⟨answer, _, agree⟩ := step_agree retry idle request spares fun _ _ _ _ => rfl
    cases stepped
    exact ⟨⟨_, rfl, _, agree.mirrors⟩, m₁.step_moves retry request spares⟩
  | sqlite db =>
    obtain ⟨reply', after, m', stepped', next, moves⟩ := sqlite_moves shows retry request
    rw [act, stepped'] at stepped
    cases stepped
    refine ⟨⟨m', next⟩, fun id => ?_⟩
    rw [shows.get?, Shows.get? (s := .sqlite after) next]
    exact moves id

theorem empty_shows (adapter : Adapter) : adapter.empty.Shows {} := by
  cases adapter with
  | memory => exact ⟨rfl, _, mirrors_empty⟩
  | sqlite => exact mirrors_empty

end Store

end MetadataGraph.Execution
