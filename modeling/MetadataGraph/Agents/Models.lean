import MetadataGraph.Session.Json

namespace MetadataGraph.Agents

/-- How much an agent may do on its own. -/
inductive AutonomyLevel where
  | observe | assist | propose | actAfterApproval
  deriving DecidableEq

def AutonomyLevel.value : AutonomyLevel → String
  | .observe => "observe"
  | .assist => "assist"
  | .propose => "propose"
  | .actAfterApproval => "act_after_approval"

/-- `AutonomyLevel(value)`, which raises on any other text. -/
def AutonomyLevel.ofValue? (value : String) : Option AutonomyLevel :=
  if value = "observe" then some .observe
  else if value = "assist" then some .assist
  else if value = "propose" then some .propose
  else if value = "act_after_approval" then some .actAfterApproval
  else none

def AutonomyLevel.isReadOnly : AutonomyLevel → Bool
  | .observe | .assist => true
  | .propose | .actAfterApproval => false

def AutonomyLevel.appliesOnApproval : AutonomyLevel → Bool
  | .actAfterApproval => true
  | .observe | .assist | .propose => false

def defaultAutonomy : AutonomyLevel := .actAfterApproval

/-- A stored autonomy string; the default stands for one that is missing or unknown. -/
def coerceAutonomy : Option String → AutonomyLevel
  | none => defaultAutonomy
  | some value => if value = "" then defaultAutonomy else (AutonomyLevel.ofValue? value).getD defaultAutonomy

inductive ProposalStatus where
  | pending | approved | rejected | applied | applyFailed
  deriving DecidableEq

def ProposalStatus.value : ProposalStatus → String
  | .pending => "pending"
  | .approved => "approved"
  | .rejected => "rejected"
  | .applied => "applied"
  | .applyFailed => "apply_failed"

def ProposalStatus.ofValue? (value : String) : Option ProposalStatus :=
  if value = "pending" then some .pending
  else if value = "approved" then some .approved
  else if value = "rejected" then some .rejected
  else if value = "applied" then some .applied
  else if value = "apply_failed" then some .applyFailed
  else none

theorem AutonomyLevel.ofValue?_value (level : AutonomyLevel) : ofValue? level.value = some level := by
  cases level <;> decide +kernel

theorem ProposalStatus.ofValue?_value (status : ProposalStatus) : ofValue? status.value = some status := by
  cases status <;> decide +kernel

theorem ProposalStatus.value_inj {a b : ProposalStatus} : a.value = b.value ↔ a = b := by
  constructor
  · intro same
    have read := congrArg ofValue? same
    rw [ofValue?_value, ofValue?_value] at read
    exact Option.some.inj read
  · exact congrArg value

/-- A mutating action of an agent that awaits a human decision. Instants are numbers of seconds. -/
structure Proposal where
  agentId : String
  tool : String
  inputArgs : Dict Json
  autonomyLevel : AutonomyLevel
  agentName : Option String := none
  id : String
  status : ProposalStatus := .pending
  runId : Option String := none
  correlationId : Option String := none
  decidedBy : Option String := none
  applyResult : Option Json := none
  applyError : Option String := none
  createdAt : ℚ
  updatedAt : ℚ
  decidedAt : Option ℚ := none

end MetadataGraph.Agents
