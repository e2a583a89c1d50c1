import MetadataGraph.Agents.Gate
import MetadataGraph.Agents.Service

namespace MetadataGraph.Agents

open MetadataGraph.Graph Runs

/-- What an approved action is applied with: the registry's loader, its graph service and the executors
of the other integrations, which act on something else. `ready` is what initialising it raises. -/
structure Registry (Other : Type) where
  loader : MCPLoader
  graphService : Option ServiceConfig
  executeFetchTool : String → Dict Json → Other → Other × Except String Json
  executeFsTool : String → Dict Json → Other → Other × Except String Json
  executeSearchTool : String → Dict Json → Other → Other × Except String Json
  ready : Except String Unit := .ok ()
  str : Json → String

variable {Other : Type}

/-- `_build_apply_executor`. -/
def Registry.executors (registry : Registry Other) (moment : Moment) (agentId : String) :
    Executors (Storage × Other) :=
  let elsewhere (execute : String → Dict Json → Other → Other × Except String Json) (toolName : String)
      (inputArgs : Dict Json) (world : Storage × Other) : (Storage × Other) × Except String Json :=
    let done := execute toolName inputArgs world.2
    ((world.1, done.1), done.2)
  { executeGraphTool toolName inputArgs world :=
      let done := executeGraphTool registry.graphService moment agentId toolName inputArgs world.1
      ((done.1, world.2), done.2)
    executeFetchTool := elsewhere registry.executeFetchTool
    executeFsTool := elsewhere registry.executeFsTool
    executeSearchTool := elsewhere registry.executeSearchTool }

/-- The governance manager of a registry, and whether it was given the registry's factory of executors. -/
structure Manager (Other : Type) where
  registry : Registry Other
  executorFactory : Bool := true

/-- A run of a captured action. -/
structure Executed where
  proposalId : String
  tool : String
  inputArgs : Dict Json
  effective : Bool

/-- A text cut at a length. -/
def cut (limit : Nat) (text : String) : String := String.ofList (text.toList.take limit)

/-- `_small_result`. -/
def smallResult (str : Json → String) : Json → Option Json
  | .null => none
  | .obj entries => some (.obj entries)
  | other => some (.obj [("result", .str (cut 500 (str other)))])

/-- `str(value)`. -/
def asText (str : Json → String) : Json → String
  | .str text => text
  | other => str other

/-- The result says that the action took effect. -/
def reportsSuccess : Except String Json → Bool
  | .ok result => effective result
  | .error _ => false

/-- The run of a captured action, if one of the executors ran it. -/
def runsWith (p : Proposal) (execution : Execution) : List Executed :=
  match execution.ran with
  | none => []
  | some _ => [⟨p.id, p.tool, p.inputArgs, reportsSuccess execution.result⟩]

/-- `_apply`, with the run of the action. -/
def Manager.apply (manager : Manager Other) (moment : Moment) (p : Proposal) (world : Storage × Other) :
    (Storage × Other) × Proposal × List Executed :=
  let registry := manager.registry
  let failed (error : String) : Proposal := { p with status := .applyFailed, applyError := some error }
  if manager.executorFactory then match registry.ready with
    | .error error => (world, failed error, [])
    | .ok () =>
      let done := registry.loader.executeTool (registry.executors moment p.agentId) p.tool p.inputArgs world
      let ran := runsWith p done.2
      match done.2.result with
      | .ok result =>
        if complains result then (done.1, failed (asText registry.str (result.field "error")), ran)
        else (done.1, { p with status := .applied, applyResult := smallResult registry.str result }, ran)
      | .error error => (done.1, failed error, ran)
  else (world, failed "No executor configured to apply the approved action.", [])

/-- Where a call of `approve` or `reject` stands. What the store is asked next is one step; `approved`
is the end of an approval that was the one to decide the proposal. -/
inductive Caller where
  | approving (id : String) (decidedBy : Option String)
  | claiming (id : String) (decidedBy : Option String)
  | applying (p : Proposal)
  | saving (p : Proposal)
  | approved (p : Proposal)
  | rejecting (id : String) (decidedBy : Option String)
  | refusing (id : String) (decidedBy : Option String)
  | reading (id : String)
  | answered (answer : Option Proposal)
  | raised

/-- The call goes on. -/
def Caller.active : Caller → Bool
  | .approved _ | .answered _ | .raised => false
  | _ => true

/-- The proposals, the callers at work on them, what the actions act on, and the actions that ran. -/
structure Governance (Other : Type) where
  proposals : Store
  world : Storage × Other
  callers : List Caller := []
  executed : List Executed := []

/-- A gate records a proposal, a call begins or goes on or fails, or the world changes otherwise. -/
inductive Event (Other : Type) where
  | propose (p : Proposal)
  | approve (id : String) (decidedBy : Option String)
  | reject (id : String) (decidedBy : Option String)
  | advance (caller : Nat) (now : ℚ) (moment : Moment)
  | fail (caller : Nat)
  | change (world : Storage × Other)

namespace Governance

def setCaller (i : Nat) (caller : Caller) (s : Governance Other) : Governance Other :=
  { s with callers := s.callers.set i caller }

/-- The next step of a caller, if its call has not ended. -/
def advance (manager : Manager Other) (i : Nat) (now : ℚ) (moment : Moment) (s : Governance Other) :
    Caller → Option (Governance Other)
  | .approving id decidedBy => match s.proposals.get? id with
    | none => some (s.setCaller i (.answered none))
    | some _ => some (s.setCaller i (.claiming id decidedBy))
  | .claiming id decidedBy =>
    let decision := s.proposals.decide id .approved decidedBy now
    let s := { s with proposals := decision.1 }
    match decision.2 with
    | none => some (s.setCaller i (.reading id))
    | some claimed =>
      some (s.setCaller i (if claimed.autonomyLevel.appliesOnApproval then .applying claimed else .approved claimed))
  | .applying p =>
    let done := manager.apply moment p s.world
    let s := { s with world := done.1, executed := s.executed ++ done.2.2 }
    some (s.setCaller i (.saving { done.2.1 with updatedAt := now }))
  | .saving p =>
    let saved := s.proposals.save p
    let s := { s with proposals := saved.1 }
    match saved.2 with
    | none => some (s.setCaller i .raised)
    | some claimed => some (s.setCaller i (.approved claimed))
  | .rejecting id decidedBy => match s.proposals.get? id with
    | none => some (s.setCaller i (.answered none))
    | some _ => some (s.setCaller i (.refusing id decidedBy))
  | .refusing id decidedBy =>
    let decision := s.proposals.decide id .rejected decidedBy now
    let s := { s with proposals := decision.1 }
    match decision.2 with
    | none => some (s.setCaller i (.reading id))
    | some claimed => some (s.setCaller i (.answered (some claimed)))
  | .reading id => some (s.setCaller i (.answered (s.proposals.get? id)))
  | .approved _ | .answered _ | .raised => none

/-- A proposal as a gate records it. -/
def Recorded (manager : Manager Other) (p : Proposal) (s : Governance Other) : Prop :=
  p.status = .pending ∧ isMutatingTool manager.registry.loader p.tool = true ∧ p.autonomyLevel.isReadOnly = false ∧
    s.proposals.get? p.id = none

instance (manager : Manager Other) (p : Proposal) (s : Governance Other) : Decidable (Recorded manager p s) :=
  inferInstanceAs (Decidable (_ ∧ _ ∧ _ ∧ _))

def step (manager : Manager Other) (s : Governance Other) : Event Other → Option (Governance Other × Unit)
  | .propose p =>
    if Recorded manager p s then some ({ s with proposals := (s.proposals.create p).1 }, ()) else none
  | .approve id decidedBy => some ({ s with callers := s.callers ++ [.approving id decidedBy] }, ())
  | .reject id decidedBy => some ({ s with callers := s.callers ++ [.rejecting id decidedBy] }, ())
  | .advance i now moment => match s.callers[i]? with
    | none => none
    | some caller => (s.advance manager i now moment caller).map fun t => (t, ())
  | .fail i => match s.callers[i]? with
    | none => none
    | some caller => if caller.active then some (s.setCaller i .raised, ()) else none
  | .change world => some ({ s with world }, ())

end Governance

end MetadataGraph.Agents
