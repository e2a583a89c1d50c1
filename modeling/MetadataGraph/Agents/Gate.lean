import MetadataGraph.Lib.Runs
import MetadataGraph.Agents.Store
import MetadataGraph.Agents.Tools

namespace MetadataGraph.Agents

open Runs

/-- The tools, by their original names, that change persistent state. -/
def mutatingOriginalTools : List String := ["add_nodes", "update_node", "delete_nodes", "delete_edges", "write_file"]

def isMutatingTool (loader : MCPLoader) (namespacedName : String) : Bool :=
  match loader.getTool namespacedName with
  | none => false
  | some tool => tool.originalName ∈ mutatingOriginalTools

/-- `set(tool_allowlist) if tool_allowlist else None`. -/
def allowSet : Option (List String) → Option (List String)
  | none | some [] => none
  | some (name :: names) => some (name :: names)

/-- The name is outside an allowlist that is set. -/
def outsideAllowlist (allow : Option (List String)) (name : String) : Bool :=
  match allow with
  | none => false
  | some names => name ∉ names

def filterToolDefinitions (toolDefinitions : List ToolDefinition) (autonomyLevel : AutonomyLevel)
    (toolAllowlist : Option (List String)) (loader : MCPLoader) : List ToolDefinition :=
  toolDefinitions.filter fun definition =>
    !outsideAllowlist (allowSet toolAllowlist) definition.name &&
      !(autonomyLevel.isReadOnly && isMutatingTool loader definition.name)

/-- What the run of an agent is set up from. -/
structure AgentConfig where
  agentId : String
  name : String
  mcpIntegrationIds : List String := []
  autonomyLevel : Option String := none
  toolAllowlist : Option (List String) := none

structure AutonomyGate where
  level : AutonomyLevel
  allowlist : Option (List String)
  mcpLoader : MCPLoader
  agentId : String
  agentName : Option String := none
  runId : Option String := none
  correlationId : Option String := none

/-- A tool call of the language model, with the id and the instant that a proposal made for it gets,
and whether the store takes the proposal. -/
structure ToolCall where
  namespacedName : String
  inputArgs : Dict Json := {}
  proposalId : String
  now : ℚ
  stored : Bool := true

/-- What an agent's tools act on, and the proposals. -/
structure Surroundings (World : Type) where
  world : World
  proposals : Store

/-- How the gate answers a call. -/
inductive Outcome where
  | blocked (error : String)
  | proposed (proposal : Proposal)
  | unrecorded (error : String)
  | executed (execution : Execution)

/-- What the language model is answered, or what is raised. -/
def Outcome.result : Outcome → Except String Json
  | .blocked error | .unrecorded error => .ok (errorResult error)
  | .proposed proposal => .ok (.obj [
      ("message", .str "Action recorded as a proposal awaiting human approval; it was not executed."),
      ("proposal_id", .str proposal.id), ("status", .str "proposed")])
  | .executed execution => execution.result

/-- The tool that an executor ran. -/
def Outcome.ran : Outcome → Option NamespacedTool
  | .blocked _ | .proposed _ | .unrecorded _ => none
  | .executed execution => execution.ran

variable {World : Type}

namespace AutonomyGate

/-- `_record_proposal`. -/
def recordProposal (call : ToolCall) (s : Surroundings World) (gate : AutonomyGate) : Surroundings World × Outcome :=
  let proposal : Proposal :=
    { agentId := gate.agentId, agentName := gate.agentName, tool := call.namespacedName, inputArgs := call.inputArgs
      autonomyLevel := gate.level, runId := gate.runId, correlationId := gate.correlationId, id := call.proposalId
      createdAt := call.now, updatedAt := call.now }
  let failed : Outcome := .unrecorded
    ("Mutating tool '" ++ call.namespacedName ++ "' could not be recorded for approval and was not executed.")
  if call.stored then match s.proposals.create proposal with
    | (proposals, some proposal) => ({ s with proposals }, .proposed proposal)
    | (proposals, none) => ({ s with proposals }, failed)
  else (s, failed)

/-- The executor that `wrap` makes. -/
def governed (executors : Executors World) (call : ToolCall) (s : Surroundings World) (gate : AutonomyGate) :
    Surroundings World × Outcome :=
  let name := call.namespacedName
  if outsideAllowlist gate.allowlist name then
    (s, .blocked ("Tool '" ++ name ++ "' is not in this agent's allowlist and was blocked."))
  else if isMutatingTool gate.mcpLoader name then
    if gate.level.isReadOnly then
      (s, .blocked ("Agent autonomy level '" ++ gate.level.value ++ "' is read-only; mutating tool '" ++ name ++
        "' was blocked."))
    else gate.recordProposal call s
  else
    let done := gate.mcpLoader.executeTool executors name call.inputArgs s.world
    ({ s with world := done.1 }, .executed done.2)

/-- A call during an event. The id that a proposal gets is new. -/
def step (gate : AutonomyGate) (executors : Executors World) (s : Surroundings World) (call : ToolCall) :
    Option (Surroundings World × Outcome) :=
  if s.proposals.get? call.proposalId = none then some (gate.governed executors call s) else none

/-- The gate refuses the tool outright, whatever it is called with. -/
def refusesOutright (gate : AutonomyGate) (name : String) : Bool :=
  outsideAllowlist gate.allowlist name || (gate.level.isReadOnly && isMutatingTool gate.mcpLoader name)

theorem blocked_iff {gate : AutonomyGate} (executors : Executors World) (call : ToolCall) (s : Surroundings World) :
    (∃ error, (gate.governed executors call s).2 = .blocked error) ↔ gate.refusesOutright call.namespacedName = true := by
  rw [governed, refusesOutright, Bool.or_eq_true, Bool.and_eq_true]
  dsimp only
  by_cases outside : outsideAllowlist gate.allowlist call.namespacedName = true
  · rw [if_pos outside]
    exact ⟨fun _ => .inl outside, fun _ => ⟨_, rfl⟩⟩
  · rw [if_neg outside]
    by_cases mutating : isMutatingTool gate.mcpLoader call.namespacedName = true
    · rw [if_pos mutating]
      by_cases readOnly : gate.level.isReadOnly = true
      · rw [if_pos readOnly]
        exact ⟨fun _ => .inr ⟨readOnly, mutating⟩, fun _ => ⟨_, rfl⟩⟩
      · rw [if_neg readOnly]
        constructor
        · rintro ⟨error, recorded⟩
          rw [recordProposal] at recorded
          split at recorded
          · split at recorded <;> cases recorded
          · cases recorded
        · rintro (no | ⟨no, -⟩)
          · exact absurd no outside
          · exact absurd no readOnly
    · rw [if_neg mutating]
      constructor
      · rintro ⟨error, executed⟩
        cases executed
      · rintro (no | ⟨-, no⟩)
        · exact absurd no outside
        · exact absurd no mutating

end AutonomyGate

/-- The tools as they are described to the language model when an event is processed. -/
def AgentConfig.toolDefinitions (loader : MCPLoader) (config : AgentConfig) : List ToolDefinition :=
  filterToolDefinitions (loader.getToolDefinitions config.mcpIntegrationIds) (coerceAutonomy config.autonomyLevel)
    config.toolAllowlist loader

/-- The gate that an event is processed with. -/
def AgentConfig.gate (loader : MCPLoader) (runId correlationId : Option String) (config : AgentConfig) : AutonomyGate where
  level := coerceAutonomy config.autonomyLevel
  allowlist := allowSet config.toolAllowlist
  mcpLoader := loader
  agentId := config.agentId
  agentName := some config.name
  runId
  correlationId

/-- What the agent may run. -/
structure Permitted (config : AgentConfig) (tool : NamespacedTool) : Prop where
  readOnly : tool.originalName ∉ mutatingOriginalTools
  allowed : ∀ names, allowSet config.toolAllowlist = some names → tool.namespacedName ∈ names
  integrated : config.mcpIntegrationIds ≠ [] → tool.integrationId ∈ config.mcpIntegrationIds

/-- Nothing has changed but for a new proposal, which is pending. -/
def Held (s t : Surroundings World) : Prop :=
  t.world = s.world ∧ ((∀ k, t.proposals.get? k = s.proposals.get? k) ∨
    ∃ p : Proposal, p.status = .pending ∧ s.proposals.get? p.id = none ∧
      ∀ k, t.proposals.get? k = if k = p.id then some p else s.proposals.get? k)

/-- A call stays within what the agent may do. -/
structure Confined (loader : MCPLoader) (config : AgentConfig) (s : Surroundings World) (call : ToolCall)
    (t : Surroundings World) (outcome : Outcome) : Prop where
  permitted : ∀ tool, outcome.ran = some tool → Permitted config tool
  held : isMutatingTool loader call.namespacedName = true → Held s t

/-- The tools that the language model is shown are the loaded ones that the gate does not refuse
whatever they are called with. -/
def ShowsUnrefused (executors : Executors World) (config : AgentConfig) (gate : AutonomyGate) : Prop :=
  ∀ definition, definition ∈ config.toolDefinitions gate.mcpLoader ↔ ∃ tool ∈ gate.mcpLoader.getAllTools,
    tool.definition = definition ∧ ∃ (call : ToolCall) (s : Surroundings World),
      call.namespacedName = tool.namespacedName ∧ ∀ error, (gate.governed executors call s).2 ≠ .blocked error

variable {executors : Executors World} {loader : MCPLoader} {config : AgentConfig} {gate : AutonomyGate}
variable {call : ToolCall} {s : Surroundings World} {runId correlationId : Option String}

/-- A tool that runs has passed the gate, which takes it for one that only reads. -/
theorem AutonomyGate.of_ran {tool : NamespacedTool} (ran : (gate.governed executors call s).2.ran = some tool) :
    gate.mcpLoader.getTool call.namespacedName = some tool ∧ tool.originalName ∉ mutatingOriginalTools ∧
      gate.refusesOutright call.namespacedName = false := by
  rw [governed] at ran
  dsimp only at ran
  split_ifs at ran with outside mutating readOnly
  · cases ran
  · cases ran
  · rw [recordProposal] at ran
    split at ran
    · split at ran <;> cases ran
    · cases ran
  · have found := MCPLoader.ran_executeTool ran
    rw [isMutatingTool, found, decide_eq_true_eq] at mutating
    refine ⟨found, mutating, ?_⟩
    have reads : isMutatingTool gate.mcpLoader call.namespacedName = false := by
      rw [isMutatingTool, found]
      exact decide_eq_false mutating
    rw [refusesOutright, eq_false_of_ne_true outside, reads, Bool.and_false, Bool.or_false]

/-- A mutating call changes nothing but for the proposal that is made of it. -/
theorem AutonomyGate.held (gate : AutonomyGate) (executors : Executors World)
    (fresh : s.proposals.get? call.proposalId = none)
    (mutating : isMutatingTool gate.mcpLoader call.namespacedName = true) :
    Held s (gate.governed executors call s).1 := by
  have same : Held s s := ⟨rfl, .inl fun _ => rfl⟩
  rw [governed]
  dsimp only
  split_ifs
  · exact same
  · exact same
  · rw [recordProposal]
    split_ifs
    · obtain ⟨created, after⟩ := Store.get?_create (s := s.proposals) (p :=
        { agentId := gate.agentId, agentName := gate.agentName, tool := call.namespacedName, inputArgs := call.inputArgs
          autonomyLevel := gate.level, runId := gate.runId, correlationId := gate.correlationId, id := call.proposalId
          createdAt := call.now, updatedAt := call.now }) fresh
      split
      · rename_i proposals proposal made
        rw [made] at created after
        exact ⟨rfl, .inr ⟨_, rfl, fresh, after⟩⟩
      · rename_i made
        rw [made] at created
        cases created
    · exact same

theorem mem_toolDefinitions (runId correlationId : Option String) {definition : ToolDefinition} :
    definition ∈ config.toolDefinitions loader ↔ ∃ tool ∈ loader.getAllTools, tool.definition = definition ∧
      (config.mcpIntegrationIds ≠ [] → tool.integrationId ∈ config.mcpIntegrationIds) ∧
      (config.gate loader runId correlationId).refusesOutright tool.namespacedName = false := by
  rw [AgentConfig.toolDefinitions, filterToolDefinitions, List.mem_filter, MCPLoader.mem_getToolDefinitions,
    ← Bool.not_or, Bool.not_eq_true']
  constructor
  · rintro ⟨⟨tool, loaded, own, rfl⟩, passes⟩
    exact ⟨tool, loaded, rfl, own, passes⟩
  · rintro ⟨tool, loaded, rfl, own, passes⟩
    exact ⟨⟨tool, loaded, own, rfl⟩, passes⟩

/-- What is shown and what the gate lets through agree where no tool of another integration is
loaded that the gate would let through. -/
theorem showsUnrefused_iff (s : Surroundings World) :
    ShowsUnrefused executors config (config.gate loader runId correlationId) ↔ (config.mcpIntegrationIds = [] ∨
      ∀ tool ∈ loader.getAllTools,
        (config.gate loader runId correlationId).refusesOutright tool.namespacedName = false →
          tool.integrationId ∈ config.mcpIntegrationIds) := by
  constructor
  · intro shows
    by_cases none : config.mcpIntegrationIds = []
    · exact .inl none
    · refine .inr fun tool loaded passes => ?_
      have unblocked : ∀ error,
          ((config.gate loader runId correlationId).governed executors ⟨tool.namespacedName, {}, "", 0, true⟩ s).2 ≠
            .blocked error := by
        intro error blocked
        rw [(AutonomyGate.blocked_iff executors _ s).mp ⟨error, blocked⟩] at passes
        cases passes
      have shown := (shows tool.definition).mpr ⟨tool, loaded, rfl, _, s, rfl, unblocked⟩
      obtain ⟨other, otherLoaded, same, own, -⟩ := (mem_toolDefinitions runId correlationId).mp shown
      exact MCPLoader.definition_inj otherLoaded loaded same ▸ own none
  · intro agree definition
    rw [mem_toolDefinitions runId correlationId]
    constructor
    · rintro ⟨tool, loaded, same, -, passes⟩
      refine ⟨tool, loaded, same, ⟨tool.namespacedName, {}, "", 0, true⟩, s, rfl, fun error blocked => ?_⟩
      have refuses := (AutonomyGate.blocked_iff executors _ s).mp ⟨error, blocked⟩
      exact Bool.false_ne_true (passes.symm.trans refuses)
    · rintro ⟨tool, loaded, same, call, at_, named, unblocked⟩
      have passes : (config.gate loader runId correlationId).refusesOutright tool.namespacedName = false := by
        rw [← named, ← Bool.not_eq_true]
        intro refuses
        obtain ⟨error, blocked⟩ := (AutonomyGate.blocked_iff executors call at_).mpr refuses
        exact unblocked error blocked
      exact ⟨tool, loaded, same, fun given => (agree.resolve_left given) tool loaded passes, passes⟩

/-- An agent is confined, and is shown what it may call, exactly where every loaded tool that the gate
would let through is of one of its integrations, if it has any. -/
theorem agent_confined_iff (loader : MCPLoader) (config : AgentConfig) (runId correlationId : Option String)
    (executors : Executors World) (start : Surroundings World) :
    ((∀ history s, Run ((config.gate loader runId correlationId).step executors) (fun _ _ _ => True) start history s →
        ∀ call t outcome, (config.gate loader runId correlationId).step executors s call = some (t, outcome) →
          Confined loader config s call t outcome) ∧
      ShowsUnrefused executors config (config.gate loader runId correlationId)) ↔
    (config.mcpIntegrationIds = [] ∨ ∀ tool ∈ loader.getAllTools,
      (config.gate loader runId correlationId).refusesOutright tool.namespacedName = false →
        tool.integrationId ∈ config.mcpIntegrationIds) := by
  rw [showsUnrefused_iff start]
  refine and_iff_right_of_imp ?_
  intro agree history s _ call t outcome stepped
  rw [AutonomyGate.step] at stepped
  split at stepped
  · rename_i fresh
    have answered := Option.some.inj stepped
    obtain rfl : (AutonomyGate.governed executors call s _).1 = t := congrArg Prod.fst answered
    obtain rfl : (AutonomyGate.governed executors call s _).2 = outcome := congrArg Prod.snd answered
    refine ⟨fun tool ran => ?_, AutonomyGate.held (config.gate loader runId correlationId) executors fresh⟩
    obtain ⟨found, readOnly, passes⟩ := AutonomyGate.of_ran ran
    obtain ⟨loaded, named⟩ := MCPLoader.mem_of_getTool found
    refine ⟨readOnly, fun names set => ?_, fun given => ?_⟩
    · rw [AutonomyGate.refusesOutright, Bool.or_eq_false_iff] at passes
      have inside := passes.1
      rw [show (config.gate loader runId correlationId).allowlist = some names from set, outsideAllowlist] at inside
      rw [named]
      simpa using inside
    · exact (agree.resolve_left given) tool loaded (by rw [named]; exact passes)
  · cases stepped

/-- A loader with a tool of two integrations. -/
def sampleLoader : MCPLoader where
  toolsCache := (Catalogue.put ⟨"GRAPH", "get_graph_stats", "GRAPH__get_graph_stats", "Get graph statistics", .obj []⟩
    (Catalogue.put ⟨"WEB", "fetch", "WEB__fetch", "Fetch content from a URL", .obj []⟩ {}))

/-- Executors that answer without looking at the world. -/
def sampleExecutors : Executors Unit where
  executeGraphTool _ _ world := (world, .ok (.obj []))
  executeFetchTool _ _ world := (world, .ok (.obj []))
  executeFsTool _ _ world := (world, .ok (.obj []))
  executeSearchTool _ _ world := (world, .ok (.obj []))

/-- An agent of one integration calls a tool of another one by its name, and the tool runs. -/
theorem agent_not_confined :
    ¬ ∀ (loader : MCPLoader) (config : AgentConfig) (runId correlationId : Option String) (executors : Executors Unit)
        (start : Surroundings Unit),
      (∀ history s, Run ((config.gate loader runId correlationId).step executors) (fun _ _ _ => True) start history s →
        ∀ call t outcome, (config.gate loader runId correlationId).step executors s call = some (t, outcome) →
          Confined loader config s call t outcome) ∧
      ShowsUnrefused executors config (config.gate loader runId correlationId) := by
  intro claim
  obtain ⟨confined, -⟩ := claim sampleLoader { agentId := "a", name := "Agent", mcpIntegrationIds := ["GRAPH"] } none none
    sampleExecutors { world := (), proposals := .memory {} }
  have permitted := (confined [] _ .start { namespacedName := "WEB__fetch", proposalId := "p", now := 0 } _ _ rfl).permitted
    ⟨"WEB", "fetch", "WEB__fetch", "Fetch content from a URL", .obj []⟩ (by decide +kernel)
  have own := permitted.integrated (by decide +kernel)
  exact absurd own (by decide +kernel)

end MetadataGraph.Agents
