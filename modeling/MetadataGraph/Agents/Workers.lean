import MetadataGraph.Graph.Models
import MetadataGraph.Lib.OrderedDict
import MetadataGraph.Lib.Runs

namespace MetadataGraph.Agents.Workers

open Runs MetadataGraph.Graph

/-- What `ZoneInfo(key)` does: a bad key may also raise an error that nobody catches. -/
inductive ZoneInfo where
  | found | notFound | raises
  deriving DecidableEq

/-- What the configuration uses of Python: lower case, `int()` of a value, the text of a value,
and the time zones. -/
structure ConfigReaders where
  lower : String → String
  int : Json → Option Int
  str : Json → String
  zoneInfo : String → ZoneInfo

structure AgentSchedule where
  dayOfWeek : Int
  hour : Int
  minute : Int
  timezone : String
  deriving DecidableEq

def weekdayNames : List (String × Int) :=
  [("monday", 0), ("tuesday", 1), ("wednesday", 2), ("thursday", 3), ("friday", 4), ("saturday", 5), ("sunday", 6)]

def ConfigReaders.weekday (p : ConfigReaders) : Json → Option Int
  | .str name => weekdayNames.lookup (p.lower name)
  | .bool b => some (if b then 1 else 0)
  | value => value.integer?

/-- The hour and minute of a schedule, from its `time` or from fields of their own. -/
def ConfigReaders.clockTime (p : ConfigReaders) (data : Dict Json) : Option (Int × Int) :=
  match data.get "time" with
  | .str time =>
    if time = "" then fields
    else match time.splitOn ":" with
      | hour :: minute :: _ => do return (← p.int (.str hour), ← p.int (.str minute))
      | [hour] => do return (← p.int (.str hour), 0)
      | [] => none
  | _ => fields
where
  fields : Option (Int × Int) := do
    return (← p.int (data["hour"]?.getD (.num 0)), ← p.int (data["minute"]?.getD (.num 0)))

/-- `AgentSchedule.from_dict`. There is no result where it raises. -/
def AgentSchedule.fromDict (p : ConfigReaders) (data : Json) : Option (Option AgentSchedule) :=
  if data.truthy = false then some none
  else match readObject data with
    | none => none
    | some data => match p.weekday (data.get "day_of_week"), p.clockTime data with
      | some day, some (hour, minute) =>
        let timezone := p.str (data["timezone"]?.getD (.str "UTC"))
        if (0 ≤ day ∧ day ≤ 6) ∧ (0 ≤ hour ∧ hour ≤ 23) ∧ 0 ≤ minute ∧ minute ≤ 59 then
          match p.zoneInfo timezone with
          | .found => some (some { dayOfWeek := day, hour, minute, timezone })
          | .notFound => some none
          | .raises => none
        else some none
      | _, _ => some none

structure AgentConfig where
  agentId : String
  name : String
  enabled : Json
  subscriptionId : Json
  mcpIntegrationIds : Json
  taskPrompt : Json
  toolAllowlist : Json
  autonomyLevel : Json
  skillsUrls : Json
  skillNodeIds : Json
  schedule : Option AgentSchedule
  modelProfileId : Json
  deriving DecidableEq

/-- `AgentPrompts.from_dict`, after the legacy format of a mere text. -/
def AgentPrompts.fromDict : Json → Option Json
  | .str text => some (.str text)
  | prompts => (readObject prompts).map fun data => data["task_prompt"]?.getD (.str "")

/-- `AgentConfig.from_node`. There is no configuration where it raises. -/
def AgentConfig.fromNode (p : ConfigReaders) (node : Node) : Option AgentConfig := do
  let metadata := node.metadata
  let taskPrompt ← AgentPrompts.fromDict (metadata["prompts"]?.getD (.obj []))
  let schedule ← AgentSchedule.fromDict p ((metadata.get "schedule").orElse (.obj []))
  return {
    agentId := node.id
    name := node.name
    enabled := metadata["enabled"]?.getD (.bool true)
    subscriptionId := metadata.get "subscription_id"
    mcpIntegrationIds := metadata["mcp_integration_ids"]?.getD (.arr [])
    taskPrompt := taskPrompt
    toolAllowlist := metadata.get "tool_allowlist"
    autonomyLevel := (metadata.get "autonomy_level").orElse (.str "act_after_approval")
    skillsUrls := metadata["skills_urls"]?.getD (.arr [])
    skillNodeIds := metadata["skill_node_ids"]?.getD (.arr [])
    schedule := schedule
    modelProfileId := metadata.get "model_profile_id" }

/-- A worker, told from every other by a serial number. -/
structure AgentWorker where
  serial : ℕ
  config : AgentConfig
  deriving DecidableEq

/-- The entries of the scheduler: the configuration to fire with, and the worker to fire at. -/
abbrev AgentScheduler := OrderedDict String (AgentConfig × ℕ)

/-- `register`: nothing is done without a schedule. -/
def AgentScheduler.register (agentId : String) (config : AgentConfig) (worker : AgentWorker) (scheduler : AgentScheduler) :
    AgentScheduler :=
  match config.schedule with
  | some _ => scheduler.set agentId (config, worker.serial)
  | none => scheduler

def AgentScheduler.unregister (agentId : String) (scheduler : AgentScheduler) : AgentScheduler := scheduler.erase agentId

structure AgentRegistry where
  workers : OrderedDict String AgentWorker := {}
  subscriptionAgentMap : OrderedDict Json String := {}
  scheduler : AgentScheduler := ({} : OrderedDict String (AgentConfig × ℕ))
  spawned : ℕ := 0

instance : Inhabited AgentRegistry := ⟨{}⟩

namespace AgentRegistry

/-- `self._subscription_agent_map[sub_id] = agent_id`, for a subscription that is given at all. There
is no result where the key cannot be hashed. -/
def mapSubscription (subscriptionId : Json) (agentId : String) (r : AgentRegistry) : Option AgentRegistry :=
  if subscriptionId.truthy = false then some r
  else if subscriptionId.hashable then
    some { r with subscriptionAgentMap := r.subscriptionAgentMap.set subscriptionId agentId }
  else none

/-- `_start_worker`. An unhashable subscription raises when the worker is already there. -/
def startWorker (config : AgentConfig) (r : AgentRegistry) : AgentRegistry :=
  match r.workers.get? config.agentId with
  | some _ => r
  | none =>
    let worker : AgentWorker := { serial := r.spawned, config := config }
    let started := { r with workers := r.workers.set config.agentId worker, spawned := r.spawned + 1 }
    match started.mapSubscription config.subscriptionId config.agentId with
    | some mapped => { mapped with scheduler := AgentScheduler.register config.agentId config worker mapped.scheduler }
    | none => started

/-- `_stop_worker`. An unhashable subscription raises after the worker is popped. -/
def stopWorker (agentId : String) (r : AgentRegistry) : AgentRegistry :=
  let r := { r with scheduler := AgentScheduler.unregister agentId r.scheduler }
  match r.workers.get? agentId with
  | some worker =>
    let subId := worker.config.subscriptionId
    { r with
      workers := r.workers.erase agentId
      subscriptionAgentMap :=
        if subId.truthy ∧ subId.hashable ∧ subId ∈ r.subscriptionAgentMap.keys then r.subscriptionAgentMap.erase subId
        else r.subscriptionAgentMap }
  | none => r

/-- The subscription that is found for an agent, the first in the order of the map. -/
def oldSubscription (agentId : String) (r : AgentRegistry) : Option Json :=
  (r.subscriptionAgentMap.entries.find? fun entry => entry.2 = agentId).map Prod.fst

/-- The update of a running agent: its worker is reloaded, then its subscription is mapped anew,
then its schedule is registered anew unless the mapping raises. -/
def reloadWorker (agentId : String) (config : AgentConfig) (existing : AgentWorker) (r : AgentRegistry) : AgentRegistry :=
  let worker := { existing with config := config }
  let reloaded := { r with workers := r.workers.set agentId worker }
  let unmapped := match r.oldSubscription agentId with
    | some old =>
      if old.truthy ∧ old ≠ config.subscriptionId then
        { reloaded with subscriptionAgentMap := reloaded.subscriptionAgentMap.erase old }
      else reloaded
    | none => reloaded
  match unmapped.mapSubscription config.subscriptionId agentId with
  | some mapped =>
    { mapped with
      scheduler := AgentScheduler.register agentId config worker (AgentScheduler.unregister agentId mapped.scheduler) }
  | none => unmapped

/-- `handle_agent_created`. Connecting the integrations reports its failures and does not raise. -/
def handleAgentCreated (p : ConfigReaders) (storage : OrderedDict String Node) (nodeId : String) (r : AgentRegistry) :
    AgentRegistry :=
  match storage.get? nodeId with
  | none => r
  | some node =>
    if node.typeStr ≠ "Agent" then r
    else match AgentConfig.fromNode p node with
      | some config => if config.enabled.truthy then r.startWorker config else r
      | none => r

/-- `handle_agent_updated`. -/
def handleAgentUpdated (p : ConfigReaders) (storage : OrderedDict String Node) (nodeId : String) (r : AgentRegistry) :
    AgentRegistry :=
  match storage.get? nodeId with
  | none => r.stopWorker nodeId
  | some node =>
    if node.typeStr ≠ "Agent" then r
    else match AgentConfig.fromNode p node with
      | none => r
      | some config =>
        match r.workers.get? nodeId with
        | some existing =>
          if config.enabled.truthy then r.reloadWorker nodeId config existing else r.stopWorker nodeId
        | none => if config.enabled.truthy then r.startWorker config else r

/-- `handle_agent_deleted`. -/
def handleAgentDeleted (nodeId : String) (r : AgentRegistry) : AgentRegistry := r.stopWorker nodeId

end AgentRegistry

/-- A change of an agent node. -/
inductive Change where
  | create (node : Node)
  | update (node : Node)
  | delete (nodeId : String)

structure System where
  nodes : OrderedDict String Node := {}
  registry : AgentRegistry := {}

instance : Inhabited System := ⟨{}⟩

/-- A change of the graph, followed by the call that goes with it. -/
def step (p : ConfigReaders) (s : System) : Change → Option (System × Unit)
  | .create node =>
    if node.id ∉ s.nodes.keys ∧ node.typeStr = "Agent" then
      let nodes := s.nodes.set node.id node
      some ({ nodes, registry := s.registry.handleAgentCreated p nodes node.id }, ())
    else none
  | .update node =>
    if node.id ∈ s.nodes.keys ∧ node.typeStr = "Agent" then
      let nodes := s.nodes.set node.id node
      some ({ nodes, registry := s.registry.handleAgentUpdated p nodes node.id }, ())
    else none
  | .delete nodeId =>
    if nodeId ∈ s.nodes.keys then
      some ({ nodes := s.nodes.erase nodeId, registry := s.registry.handleAgentDeleted nodeId }, ())
    else none

/-- The keys of the map are what a dict can have. -/
def AgentRegistry.Hashed (r : AgentRegistry) : Prop :=
  ∀ sub agent, r.subscriptionAgentMap.get? sub = some agent → sub.hashable = true

/-- The subscription can be a key of the map, or there is none. -/
def Mappable (config : AgentConfig) : Prop :=
  config.subscriptionId.truthy = true → config.subscriptionId.hashable = true

section Effects

variable {r : AgentRegistry} {config : AgentConfig} {agentId : String} {worker : AgentWorker}

theorem get?_register (scheduler : AgentScheduler) (id : String) :
    (AgentScheduler.register agentId config worker scheduler).get? id =
      if id = agentId then (config.schedule.map fun _ => (config, worker.serial)).or (scheduler.get? id)
      else scheduler.get? id := by
  rw [AgentScheduler.register]
  cases config.schedule with
  | none =>
    rw [Option.map_none, Option.none_or, ite_self]
  | some schedule =>
    rw [Option.map_some, Option.some_or]
    exact OrderedDict.get?_set agentId _ scheduler id

theorem get?_unregister (scheduler : AgentScheduler) (id : String) :
    (AgentScheduler.unregister agentId scheduler).get? id = if id = agentId then none else scheduler.get? id :=
  OrderedDict.get?_erase agentId scheduler id

theorem AgentConfig.agentId_of_fromNode {p : ConfigReaders} {node : Node} (read : AgentConfig.fromNode p node = some config) :
    config.agentId = node.id := by
  rw [AgentConfig.fromNode] at read
  obtain ⟨taskPrompt, -, read⟩ := Option.bind_eq_some_iff.mp read
  obtain ⟨schedule, -, read⟩ := Option.bind_eq_some_iff.mp read
  cases read
  rfl

namespace AgentRegistry

/-- What a mapping does to the map and that it does nothing else. -/
theorem mapSubscription_eq (mappable : Mappable config) (agentId : String) (r : AgentRegistry) :
    r.mapSubscription config.subscriptionId agentId = some { r with
      subscriptionAgentMap := if config.subscriptionId.truthy then
        r.subscriptionAgentMap.set config.subscriptionId agentId else r.subscriptionAgentMap } := by
  rw [mapSubscription]
  by_cases given : config.subscriptionId.truthy = true
  · rw [if_neg (by simp [given]), if_pos (mappable given), if_pos given]
  · rw [if_pos (Bool.eq_false_iff.mpr given), if_neg given]

theorem mapSubscription_eq_none (unmappable : ¬ Mappable config) (agentId : String) (r : AgentRegistry) :
    r.mapSubscription config.subscriptionId agentId = none := by
  rw [Mappable, Classical.not_imp] at unmappable
  rw [mapSubscription, if_neg (by simp [unmappable.1]), if_neg unmappable.2]

theorem startWorker_eq (absent : r.workers.get? config.agentId = none) (mappable : Mappable config) :
    r.startWorker config = {
      workers := r.workers.set config.agentId { serial := r.spawned, config := config }
      subscriptionAgentMap := if config.subscriptionId.truthy then
        r.subscriptionAgentMap.set config.subscriptionId config.agentId else r.subscriptionAgentMap
      scheduler := AgentScheduler.register config.agentId config { serial := r.spawned, config := config } r.scheduler
      spawned := r.spawned + 1 } := by
  rw [startWorker, absent]
  simp only [mapSubscription_eq mappable]

theorem startWorker_of_unmappable (absent : r.workers.get? config.agentId = none) (unmappable : ¬ Mappable config) :
    r.startWorker config = { r with
      workers := r.workers.set config.agentId { serial := r.spawned, config := config }
      spawned := r.spawned + 1 } := by
  rw [startWorker, absent]
  simp only [mapSubscription_eq_none unmappable]

theorem stopWorker_of_absent (absent : r.workers.get? agentId = none) :
    r.stopWorker agentId = { r with scheduler := AgentScheduler.unregister agentId r.scheduler } := by
  rw [stopWorker]
  simp only [absent]

theorem stopWorker_eq (running : r.workers.get? agentId = some worker) : r.stopWorker agentId = { r with
    workers := r.workers.erase agentId
    scheduler := AgentScheduler.unregister agentId r.scheduler
    subscriptionAgentMap :=
      if worker.config.subscriptionId.truthy ∧ worker.config.subscriptionId.hashable ∧
          worker.config.subscriptionId ∈ r.subscriptionAgentMap.keys then
        r.subscriptionAgentMap.erase worker.config.subscriptionId
      else r.subscriptionAgentMap } := by
  rw [stopWorker]
  simp only [running]

/-- The map once the first subscription of an agent is unmapped, unless the agent keeps it. -/
def unmapOld (agentId : String) (config : AgentConfig) (r : AgentRegistry) : OrderedDict Json String :=
  match r.oldSubscription agentId with
  | some old =>
    if old.truthy ∧ old ≠ config.subscriptionId then r.subscriptionAgentMap.erase old else r.subscriptionAgentMap
  | none => r.subscriptionAgentMap

theorem reloadWorker_eq (mappable : Mappable config) : r.reloadWorker agentId config worker = { r with
    workers := r.workers.set agentId { worker with config := config }
    subscriptionAgentMap := if config.subscriptionId.truthy then
      (r.unmapOld agentId config).set config.subscriptionId agentId else r.unmapOld agentId config
    scheduler := AgentScheduler.register agentId config { worker with config := config }
      (AgentScheduler.unregister agentId r.scheduler) } := by
  rw [reloadWorker, unmapOld]
  simp only [mapSubscription_eq mappable]
  cases r.oldSubscription agentId with
  | none => rfl
  | some old =>
    dsimp only
    split <;> rfl

theorem reloadWorker_of_unmappable (unmappable : ¬ Mappable config) : r.reloadWorker agentId config worker = { r with
    workers := r.workers.set agentId { worker with config := config }
    subscriptionAgentMap := r.unmapOld agentId config } := by
  rw [reloadWorker, unmapOld]
  simp only [mapSubscription_eq_none unmappable]
  cases r.oldSubscription agentId with
  | none => rfl
  | some old =>
    dsimp only
    split <;> rfl

theorem Hashed.mapSubscription (hashed : r.Hashed) {subscriptionId : Json} {mapped : AgentRegistry}
    (done : r.mapSubscription subscriptionId agentId = some mapped) : mapped.Hashed := by
  rw [AgentRegistry.mapSubscription] at done
  split at done
  · cases done
    exact hashed
  · split at done
    · rename_i hashable
      cases done
      intro sub agent found
      dsimp only at found
      rw [OrderedDict.get?_set] at found
      split at found
      · rename_i same
        rw [same]
        exact hashable
      · exact hashed _ _ found
    · cases done

theorem Hashed.startWorker (hashed : r.Hashed) : (r.startWorker config).Hashed := by
  rw [AgentRegistry.startWorker]
  split
  · exact hashed
  · dsimp only
    split
    · rename_i mapped done
      have kept : mapped.Hashed := by
        refine Hashed.mapSubscription ?_ done
        exact hashed
      exact kept
    · exact hashed

theorem Hashed.erase (hashed : r.Hashed) (dropped : Json) {sub : Json} {agent : String}
    (found : (r.subscriptionAgentMap.erase dropped).get? sub = some agent) : sub.hashable = true := by
  rw [OrderedDict.get?_erase] at found
  split at found
  · cases found
  · exact hashed _ _ found

theorem Hashed.stopWorker (hashed : r.Hashed) : (r.stopWorker agentId).Hashed := by
  rw [AgentRegistry.stopWorker]
  dsimp only
  split
  · intro sub agent found
    dsimp only at found
    split at found
    · exact hashed.erase _ found
    · exact hashed _ _ found
  · exact hashed

theorem Hashed.unmapOld (hashed : r.Hashed) {sub : Json} {agent : String}
    (found : (r.unmapOld agentId config).get? sub = some agent) : sub.hashable = true := by
  rw [AgentRegistry.unmapOld] at found
  split at found
  · split at found
    · exact hashed.erase _ found
    · exact hashed _ _ found
  · exact hashed _ _ found

theorem Hashed.reloadWorker (hashed : r.Hashed) : (r.reloadWorker agentId config worker).Hashed := by
  by_cases mappable : Mappable config
  · rw [reloadWorker_eq mappable]
    intro sub agent found
    dsimp only at found
    split at found
    · rename_i given
      rw [OrderedDict.get?_set] at found
      split at found
      · rename_i same
        rw [same]
        exact mappable given
      · exact hashed.unmapOld found
    · exact hashed.unmapOld found
  · rw [reloadWorker_of_unmappable mappable]
    exact fun _ _ found => hashed.unmapOld found

theorem Hashed.handle (hashed : r.Hashed) (p : ConfigReaders) (storage : OrderedDict String Node) (nodeId : String) :
    (r.handleAgentCreated p storage nodeId).Hashed ∧ (r.handleAgentUpdated p storage nodeId).Hashed := by
  rw [handleAgentCreated, handleAgentUpdated]
  cases storage.get? nodeId with
  | none => exact ⟨hashed, hashed.stopWorker⟩
  | some node =>
    dsimp only
    split
    · exact ⟨hashed, hashed⟩
    · cases AgentConfig.fromNode p node with
      | none => exact ⟨hashed, hashed⟩
      | some config =>
        dsimp only
        cases r.workers.get? nodeId with
        | none =>
          dsimp only
          split
          · exact ⟨hashed.startWorker, hashed.startWorker⟩
          · exact ⟨hashed, hashed⟩
        | some existing =>
          dsimp only
          split
          · exact ⟨hashed.startWorker, hashed.reloadWorker⟩
          · exact ⟨hashed, hashed.stopWorker⟩

end AgentRegistry

end Effects

end MetadataGraph.Agents.Workers
