import MetadataGraph.Agents.Models
import MetadataGraph.Lib.Catalogue

namespace MetadataGraph.Agents

/-- A row of `proposals`. Instants are epoch seconds; a column that holds JSON is known by the value
that its text parses to. -/
structure Row where
  id : String
  agentId : String
  agentName : Option String
  tool : String
  inputArgs : Dict Json
  autonomyLevel : String
  status : String
  runId : Option String
  correlationId : Option String
  decidedBy : Option String
  applyResult : Option Json
  applyError : Option String
  createdAt : ℚ
  updatedAt : ℚ
  decidedAt : Option ℚ

/-- `_to_row`. -/
def toRow (p : Proposal) : Row where
  id := p.id
  agentId := p.agentId
  agentName := p.agentName
  tool := p.tool
  inputArgs := p.inputArgs
  autonomyLevel := p.autonomyLevel.value
  status := p.status.value
  runId := p.runId
  correlationId := p.correlationId
  decidedBy := p.decidedBy
  applyResult := p.applyResult
  applyError := p.applyError
  createdAt := p.createdAt
  updatedAt := p.updatedAt
  decidedAt := p.decidedAt

/-- `_row_to_proposal`, with no proposal where a text is no member of its enumeration. -/
def rowToProposal (row : Row) : Option Proposal := do
  let autonomyLevel ← AutonomyLevel.ofValue? row.autonomyLevel
  let status ← ProposalStatus.ofValue? row.status
  some
    { agentId := row.agentId, tool := row.tool, inputArgs := row.inputArgs, autonomyLevel, agentName := row.agentName
      id := row.id, status, runId := row.runId, correlationId := row.correlationId, decidedBy := row.decidedBy
      applyResult := row.applyResult, applyError := row.applyError, createdAt := row.createdAt
      updatedAt := row.updatedAt, decidedAt := row.decidedAt }

theorem rowToProposal_toRow (p : Proposal) : rowToProposal (toRow p) = some p := by
  simp only [rowToProposal, toRow, AutonomyLevel.ofValue?_value, ProposalStatus.ofValue?_value, Option.bind_eq_bind,
    Option.bind_some]

/-- The table. Only the store writes it, so every row can be read back. -/
structure Table where
  rows : Catalogue String Row Row.id := {}
  readable : ∀ row ∈ rows.values, ∃ p, row = toRow p := by exact fun _ member => nomatch member

/-- A proposal store, in memory or in a database file. -/
inductive Store where
  | memory (items : Catalogue String Proposal Proposal.id)
  | sqlite (table : Table)

namespace Table

/-- `_get_locked`. -/
def get? (id : String) (table : Table) : Option Proposal := (table.rows.get? id).bind rowToProposal

/-- The row of a proposal is written, in the place of one with its id. -/
def write (p : Proposal) (table : Table) : Table where
  rows := table.rows.put (toRow p)
  readable := by
    intro row member
    have found := Catalogue.get?_of_mem member
    rw [Catalogue.get?_put] at found
    split at found
    · cases found
      exact ⟨p, rfl⟩
    · exact table.readable row (Catalogue.get?_eq_some.mp found).1

theorem row_of_get? {table : Table} {id : String} {p : Proposal} (found : table.get? id = some p) :
    table.rows.get? id = some (toRow p) := by
  obtain ⟨row, atRow, read⟩ := Option.bind_eq_some_iff.mp found
  obtain ⟨q, rfl⟩ := table.readable row (Catalogue.get?_eq_some.mp atRow).1
  rw [rowToProposal_toRow] at read
  cases read
  exact atRow

theorem row_of_get?_none {table : Table} {id : String} (absent : table.get? id = none) : table.rows.get? id = none := by
  cases atRow : table.rows.get? id with
  | none => rfl
  | some row =>
    obtain ⟨q, rfl⟩ := table.readable row (Catalogue.get?_eq_some.mp atRow).1
    rw [get?, atRow, Option.bind_some, rowToProposal_toRow] at absent
    cases absent

theorem get?_write (p : Proposal) (table : Table) (id : String) :
    (table.write p).get? id = if id = p.id then some p else table.get? id := by
  rw [get?, write, Catalogue.get?_put, show (toRow p).id = p.id from rfl]
  split
  · rw [Option.bind_some, rowToProposal_toRow]
  · rfl

/-- `INSERT`: a second row with one id is refused. -/
def insert (p : Proposal) (table : Table) : Option Table :=
  if (table.rows.get? p.id).isSome then none else some (table.write p)

/-- `UPDATE proposals SET … WHERE id = ?` of `save`: the agent and the time of creation stay. -/
def updateAll (p : Proposal) (table : Table) : Table :=
  match table.get? p.id with
  | none => table
  | some old => table.write { p with agentId := old.agentId, createdAt := old.createdAt }

/-- `UPDATE … WHERE id = ? AND status = ?` of `decide`, and whether it changed a row. -/
def updatePending (id : String) (toStatus : ProposalStatus) (decidedBy : Option String) (when : ℚ) (table : Table) :
    Table × Bool :=
  match table.rows.get? id, table.get? id with
  | some row, some p =>
    if row.status = ProposalStatus.pending.value then
      (table.write { p with status := toStatus, decidedBy, decidedAt := some when, updatedAt := when }, true)
    else (table, false)
  | _, _ => (table, false)

end Table

namespace Store

def get? (id : String) : Store → Option Proposal
  | .memory items => items.get? id
  | .sqlite table => table.get? id

/-- `create`, with nothing returned where it raises. -/
def create (p : Proposal) : Store → Store × Option Proposal
  | .memory items => (.memory (items.put p), some p)
  | .sqlite table => match table.insert p with
    | none => (.sqlite table, none)
    | some table => (.sqlite table, table.get? p.id)

/-- `save`. -/
def save (p : Proposal) : Store → Store × Option Proposal
  | .memory items => (.memory (items.put p), some p)
  | .sqlite table => (.sqlite (table.updateAll p), (table.updateAll p).get? p.id)

/-- The proposal as it is decided. -/
def decided (toStatus : ProposalStatus) (decidedBy : Option String) (when : ℚ) (p : Proposal) : Proposal :=
  { p with status := toStatus, decidedBy, decidedAt := some when, updatedAt := when }

/-- `decide`: only a pending proposal is decided. -/
def decide (id : String) (toStatus : ProposalStatus) (decidedBy : Option String) (when : ℚ) :
    Store → Store × Option Proposal
  | .memory items => match items.get? id with
    | none => (.memory items, none)
    | some item =>
      if item.status = .pending then
        let item := decided toStatus decidedBy when item
        (.memory (items.put item), some item)
      else (.memory items, none)
  | .sqlite table => match table.updatePending id toStatus decidedBy when with
    | (table, false) => (.sqlite table, none)
    | (table, true) => (.sqlite table, table.get? id)

variable {s : Store} {p : Proposal} {id : String}

theorem id_of_get? (found : s.get? id = some p) : p.id = id := by
  cases s with
  | memory items => exact Catalogue.key_of_get? found
  | sqlite table =>
    have named := Catalogue.key_of_get? (Table.row_of_get? found)
    exact named

theorem get?_create (fresh : s.get? p.id = none) :
    (s.create p).2 = some p ∧ ∀ k, (s.create p).1.get? k = if k = p.id then some p else s.get? k := by
  cases s with
  | memory items => exact ⟨rfl, Catalogue.get?_put p items⟩
  | sqlite table =>
    have inserted : table.insert p = some (table.write p) := by
      rw [Table.insert, Table.row_of_get?_none fresh]
      rfl
    rw [create, inserted]
    exact ⟨(Table.get?_write p table p.id).trans (if_pos rfl), Table.get?_write p table⟩

/-- A proposal that another one with its agent and time of creation is stored for is saved as it is. -/
theorem get?_save {old : Proposal} (stored : s.get? p.id = some old) (agent : old.agentId = p.agentId)
    (created : old.createdAt = p.createdAt) :
    (s.save p).2 = some p ∧ ∀ k, (s.save p).1.get? k = if k = p.id then some p else s.get? k := by
  cases s with
  | memory items => exact ⟨rfl, Catalogue.get?_put p items⟩
  | sqlite table =>
    have updated : table.updateAll p = table.write p := by
      rw [Table.updateAll, show table.get? p.id = some old from stored]
      dsimp only
      rw [agent, created]
    rw [save, updated]
    exact ⟨(Table.get?_write p table p.id).trans (if_pos rfl), Table.get?_write p table⟩

/-- Only the caller that finds the proposal pending decides it. -/
theorem get?_decide_pending (toStatus : ProposalStatus) (decidedBy : Option String) (when : ℚ)
    (found : s.get? id = some p) (pending : p.status = .pending) :
    (s.decide id toStatus decidedBy when).2 = some (decided toStatus decidedBy when p) ∧
      ∀ k, (s.decide id toStatus decidedBy when).1.get? k =
        if k = id then some (decided toStatus decidedBy when p) else s.get? k := by
  have named := id_of_get? found
  cases s with
  | memory items =>
    rw [decide, show items.get? id = some p from found]
    dsimp only
    rw [if_pos pending, ← named]
    exact ⟨rfl, Catalogue.get?_put (decided toStatus decidedBy when p) items⟩
  | sqlite table =>
    have updated : table.updatePending id toStatus decidedBy when =
        (table.write (decided toStatus decidedBy when p), true) := by
      rw [Table.updatePending, Table.row_of_get? found, show table.get? id = some p from found]
      exact if_pos (congrArg ProposalStatus.value pending)
    rw [decide, updated, ← named]
    have written := Table.get?_write (decided toStatus decidedBy when p) table
    refine ⟨?_, written⟩
    exact (written p.id).trans (if_pos rfl)

theorem decide_other (toStatus : ProposalStatus) (decidedBy : Option String) (when : ℚ)
    (settled : ∀ p, s.get? id = some p → p.status ≠ .pending) :
    s.decide id toStatus decidedBy when = (s, none) := by
  cases s with
  | memory items =>
    rw [decide]
    cases found : items.get? id with
    | none => rfl
    | some p => exact if_neg (settled p found)
  | sqlite table =>
    have unchanged : table.updatePending id toStatus decidedBy when = (table, false) := by
      rw [Table.updatePending]
      cases found : table.get? id with
      | none => rw [Table.row_of_get?_none found]
      | some p =>
        rw [Table.row_of_get? found]
        exact if_neg fun same => settled p found (ProposalStatus.value_inj.mp same)
    rw [decide, unchanged]

end Store

end MetadataGraph.Agents
