import MetadataGraph.Agents.Workers

namespace MetadataGraph.Agents.Workers

open Runs MetadataGraph.Graph

/-- The configuration with which a worker should run for a node. -/
def activeConfig (p : ConfigReaders) (node : Node) : Option AgentConfig :=
  (AgentConfig.fromNode p node).filter fun config => config.enabled.truthy

/-- What the scheduler should hold for a worker. -/
def AgentWorker.entry (worker : AgentWorker) : Option (AgentConfig × ℕ) :=
  worker.config.schedule.map fun _ => (worker.config, worker.serial)

namespace System

/-- The three structures agree with the graph and with one another. -/
structure Consistent (p : ConfigReaders) (s : System) : Prop where
  workers : ∀ id, (s.registry.workers.get? id).map AgentWorker.config = (s.nodes.get? id).bind (activeConfig p)
  routed : ∀ {id worker}, s.registry.workers.get? id = some worker → worker.config.subscriptionId.truthy = true →
    ∃ agent, s.registry.subscriptionAgentMap.get? worker.config.subscriptionId = some agent
  mapped : ∀ {sub agent}, s.registry.subscriptionAgentMap.get? sub = some agent → sub.truthy = true ∧
    ∃ worker, s.registry.workers.get? agent = some worker ∧ worker.config.subscriptionId = sub
  scheduler : ∀ id, s.registry.scheduler.get? id = (s.registry.workers.get? id).bind AgentWorker.entry

end System

/-- No other running agent uses the subscription of this one. -/
def AgentRegistry.Exclusive (agentId : String) (r : AgentRegistry) : Prop :=
  ∀ {worker}, r.workers.get? agentId = some worker → worker.config.subscriptionId.truthy = true →
    ∀ {other w}, other ≠ agentId → r.workers.get? other = some w →
      w.config.subscriptionId ≠ worker.config.subscriptionId

/-- The subscription of an agent may change unless another agent relies on it being mapped. -/
def System.Releases (id : String) (config : AgentConfig) (worker : AgentWorker) (s : System) : Prop :=
  config.subscriptionId = worker.config.subscriptionId ∨ s.registry.Exclusive id ∨
    s.registry.subscriptionAgentMap.get? worker.config.subscriptionId ≠ some id

/-- The changes after which the registry is still consistent. -/
def Safe (p : ConfigReaders) (s : System) : Change → Prop
  | .create node => ∀ config, activeConfig p node = some config → Mappable config
  | .update node => match s.registry.workers.get? node.id with
    | none => ∀ config, activeConfig p node = some config → Mappable config
    | some worker => ∃ config, AgentConfig.fromNode p node = some config ∧
      if config.enabled.truthy then Mappable config ∧ s.Releases node.id config worker
      else s.registry.Exclusive node.id
  | .delete nodeId => s.registry.Exclusive nodeId

namespace System

variable {p : ConfigReaders} {s : System} {id : String} {worker : AgentWorker} {config : AgentConfig}
variable {nodes : OrderedDict String Node}

/-- An agent that subscriptions are mapped to uses the one that is found for it. -/
theorem Consistent.get?_unmapOld (consistent : s.Consistent p) (running : s.registry.workers.get? id = some worker)
    (sub : Json) : (s.registry.unmapOld id config).get? sub =
      if s.registry.subscriptionAgentMap.get? sub = some id ∧ sub ≠ config.subscriptionId then none
      else s.registry.subscriptionAgentMap.get? sub := by
  have uses : ∀ {sub}, s.registry.subscriptionAgentMap.get? sub = some id → sub.truthy = true ∧
      sub = worker.config.subscriptionId := by
    intro sub found
    obtain ⟨given, w, running', same⟩ := consistent.mapped found
    rw [running] at running'
    cases running'
    exact ⟨given, same.symm⟩
  rw [AgentRegistry.unmapOld, AgentRegistry.oldSubscription]
  cases first : s.registry.subscriptionAgentMap.entries.find? fun entry => entry.2 = id with
  | none =>
    have absent : s.registry.subscriptionAgentMap.get? sub ≠ some id := by
      intro found
      have other := List.find?_eq_none.mp first _ (OrderedDict.get?_eq_some.mp found)
      simp at other
    rw [if_neg fun both => absent both.1]
    rfl
  | some entry =>
    obtain ⟨old, agent⟩ := entry
    obtain rfl : agent = id := by simpa using List.find?_some first
    have found := OrderedDict.get?_eq_some.mpr (List.mem_of_find?_eq_some first)
    obtain ⟨given, isOld⟩ := uses found
    have onlyOld : s.registry.subscriptionAgentMap.get? sub = some agent ↔ sub = old := by
      constructor
      · intro found'
        rw [(uses found').2, isOld]
      · rintro rfl
        exact found
    simp only [Option.map_some, onlyOld]
    by_cases keeps : old = config.subscriptionId
    · rw [if_neg fun both => both.2 keeps, if_neg]
      rintro ⟨rfl, differ⟩
      exact differ keeps
    · rw [if_pos ⟨given, keeps⟩, OrderedDict.get?_erase]
      by_cases same : sub = old
      · rw [if_pos same, if_pos ⟨same, same ▸ keeps⟩]
      · rw [if_neg same, if_neg fun both => same both.1]

/-- What the graph says of every other agent is unchanged. -/
def Frame (id : String) (nodes : OrderedDict String Node) (s : System) : Prop :=
  ∀ {other}, other ≠ id → nodes.get? other = s.nodes.get? other

theorem Consistent.start (consistent : s.Consistent p) (absent : s.registry.workers.get? config.agentId = none)
    (frame : Frame config.agentId nodes s) (active : (nodes.get? config.agentId).bind (activeConfig p) = some config)
    (mappable : Mappable config) : Consistent p { nodes, registry := s.registry.startWorker config } := by
  rw [AgentRegistry.startWorker_eq absent mappable]
  constructor
  · intro id
    dsimp only
    rw [OrderedDict.get?_set]
    split
    · rename_i same
      rw [same, active]
      rfl
    · rename_i other
      rw [consistent.workers, frame other]
  · intro id worker running given
    dsimp only at running ⊢
    rw [OrderedDict.get?_set] at running
    split at running
    · cases running
      exact ⟨config.agentId, by rw [if_pos given, OrderedDict.get?_set, if_pos rfl]⟩
    · obtain ⟨agent, found⟩ := consistent.routed running given
      split
      · rw [OrderedDict.get?_set]
        split
        · exact ⟨_, rfl⟩
        · exact ⟨agent, found⟩
      · exact ⟨agent, found⟩
  · intro sub agent found
    dsimp only at found ⊢
    have old : s.registry.subscriptionAgentMap.get? sub = some agent → sub.truthy = true ∧ ∃ worker,
        (s.registry.workers.set config.agentId { serial := s.registry.spawned, config := config }).get? agent = some worker ∧
          worker.config.subscriptionId = sub := by
      intro found
      obtain ⟨given, worker, running, uses⟩ := consistent.mapped found
      refine ⟨given, worker, ?_, uses⟩
      rw [OrderedDict.get?_set, if_neg]
      · exact running
      · rintro rfl
        rw [absent] at running
        cases running
    split at found
    · rename_i given
      rw [OrderedDict.get?_set] at found
      split at found
      · rename_i same
        cases found
        exact ⟨same ▸ given, _, by rw [OrderedDict.get?_set, if_pos rfl], same.symm⟩
      · exact old found
    · exact old found
  · intro id
    dsimp only
    rw [get?_register, OrderedDict.get?_set, consistent.scheduler]
    split
    · rename_i same
      rw [same, absent, Option.bind_none, Option.or_none]
      rfl
    · rfl

theorem Consistent.start_mappable (hashed : s.registry.Hashed) (absent : s.registry.workers.get? config.agentId = none)
    (after : Consistent p { nodes, registry := s.registry.startWorker config }) : Mappable config := by
  by_contra unmappable
  rw [AgentRegistry.startWorker_of_unmappable absent unmappable] at after
  rw [Mappable, Classical.not_imp] at unmappable
  have running : (s.registry.workers.set config.agentId { serial := s.registry.spawned, config := config }).get?
      config.agentId = some { serial := s.registry.spawned, config := config } := by
    rw [OrderedDict.get?_set, if_pos rfl]
  obtain ⟨agent, found⟩ := after.routed running unmappable.1
  exact unmappable.2 (hashed _ _ found)

theorem Consistent.stop (consistent : s.Consistent p) (hashed : s.registry.Hashed) (frame : Frame id nodes s)
    (gone : (nodes.get? id).bind (activeConfig p) = none) (exclusive : s.registry.Exclusive id) :
    Consistent p { nodes, registry := s.registry.stopWorker id } := by
  cases running : s.registry.workers.get? id with
  | none =>
    rw [AgentRegistry.stopWorker_of_absent running]
    refine ⟨?_, consistent.routed, consistent.mapped, ?_⟩
    · intro other
      by_cases same : other = id
      · rw [same, gone]
        exact congrArg (Option.map AgentWorker.config) running
      · exact (consistent.workers other).trans (by rw [frame same])
    · intro other
      dsimp only
      rw [get?_unregister, consistent.scheduler]
      split
      · rename_i same
        rw [same, running]
        rfl
      · rfl
  | some worker =>
    rw [AgentRegistry.stopWorker_eq running]
    constructor
    · intro other
      dsimp only
      rw [OrderedDict.get?_erase]
      split
      · rename_i same
        rw [same, gone]
        rfl
      · rename_i differ
        rw [consistent.workers, frame differ]
    · intro other w still given
      dsimp only at still ⊢
      rw [OrderedDict.get?_erase] at still
      split at still
      · cases still
      · rename_i differ
        obtain ⟨agent, found⟩ := consistent.routed still given
        split
        · rename_i unmapped
          rw [OrderedDict.get?_erase, if_neg (exclusive running unmapped.1 differ still)]
          exact ⟨agent, found⟩
        · exact ⟨agent, found⟩
    · intro sub agent found
      dsimp only at found ⊢
      have old : s.registry.subscriptionAgentMap.get? sub = some agent ∧
          (sub = worker.config.subscriptionId → ¬ (sub.truthy = true ∧ sub.hashable = true ∧
            sub ∈ s.registry.subscriptionAgentMap.keys)) := by
        split at found
        · rw [OrderedDict.get?_erase] at found
          split at found
          · cases found
          · rename_i other
            exact ⟨found, fun same => absurd same other⟩
        · rename_i kept
          exact ⟨found, fun same => same ▸ kept⟩
      obtain ⟨given, w, still, uses⟩ := consistent.mapped old.1
      refine ⟨given, w, ?_, uses⟩
      rw [OrderedDict.get?_erase, if_neg]
      · exact still
      · rintro rfl
        rw [running] at still
        cases still
        exact old.2 uses.symm ⟨given, hashed _ _ old.1, OrderedDict.mem_keys.mpr ⟨_, old.1⟩⟩
    · intro other
      dsimp only
      rw [get?_unregister, OrderedDict.get?_erase, consistent.scheduler]
      split <;> rfl

theorem Consistent.stop_exclusive (consistent : s.Consistent p) (hashed : s.registry.Hashed)
    (after : Consistent p { nodes, registry := s.registry.stopWorker id }) : s.registry.Exclusive id := by
  intro worker running given other w differ still uses
  rw [AgentRegistry.stopWorker_eq running] at after
  obtain ⟨agent, found⟩ := consistent.routed running given
  have stays : (s.registry.workers.erase id).get? other = some w := by
    rw [OrderedDict.get?_erase, if_neg differ, still]
  obtain ⟨agent', found'⟩ := after.routed stays (uses ▸ given)
  dsimp only at found'
  rw [if_pos ⟨given, hashed _ _ found, OrderedDict.mem_keys.mpr ⟨agent, found⟩⟩, OrderedDict.get?_erase,
    if_pos uses] at found'
  cases found'

theorem Consistent.reload (consistent : s.Consistent p) (running : s.registry.workers.get? id = some worker)
    (frame : Frame id nodes s) (active : (nodes.get? id).bind (activeConfig p) = some config) (mappable : Mappable config)
    (releases : s.Releases id config worker) :
    Consistent p { nodes, registry := s.registry.reloadWorker id config worker } := by
  rw [AgentRegistry.reloadWorker_eq mappable]
  constructor
  · intro other
    dsimp only
    rw [OrderedDict.get?_set]
    split
    · rename_i same
      rw [same, active]
      rfl
    · rename_i differ
      rw [consistent.workers, frame differ]
  · intro other w still given
    dsimp only at still ⊢
    rw [OrderedDict.get?_set] at still
    split at still
    · cases still
      exact ⟨id, by rw [if_pos given, OrderedDict.get?_set, if_pos rfl]⟩
    · rename_i differ
      obtain ⟨agent, found⟩ := consistent.routed still given
      -- the mapping that another agent uses is dropped only if it led here
      have kept : w.config.subscriptionId ≠ config.subscriptionId →
          (s.registry.unmapOld id config).get? w.config.subscriptionId = some agent := by
        intro moved
        rw [consistent.get?_unmapOld running, if_neg, found]
        rintro ⟨here, -⟩
        obtain ⟨-, own, running', same⟩ := consistent.mapped here
        rw [running] at running'
        cases running'
        rcases releases with unchanged | exclusive | elsewhere
        · exact moved (same.symm.trans unchanged.symm)
        · exact exclusive running (same ▸ given) differ still same.symm
        · exact elsewhere (same ▸ here)
      by_cases same : w.config.subscriptionId = config.subscriptionId
      · rw [same] at given ⊢
        exact ⟨id, by rw [if_pos given, OrderedDict.get?_set, if_pos rfl]⟩
      · refine ⟨agent, ?_⟩
        split
        · rw [OrderedDict.get?_set, if_neg same, kept same]
        · exact kept same
  · intro sub agent found
    dsimp only at found ⊢
    have old : (s.registry.unmapOld id config).get? sub = some agent → sub.truthy = true ∧ ∃ w,
        (s.registry.workers.set id { worker with config := config }).get? agent = some w ∧
          w.config.subscriptionId = sub := by
      intro kept
      rw [consistent.get?_unmapOld running] at kept
      split at kept
      · cases kept
      · rename_i notDropped
        obtain ⟨given, w, still, uses⟩ := consistent.mapped kept
        refine ⟨given, ?_⟩
        by_cases same : agent = id
        · subst same
          refine ⟨{ worker with config := config }, by rw [OrderedDict.get?_set, if_pos rfl], ?_⟩
          by_contra differ
          exact notDropped ⟨kept, fun same => differ same.symm⟩
        · exact ⟨w, by rw [OrderedDict.get?_set, if_neg same, still], uses⟩
    split at found
    · rename_i given
      rw [OrderedDict.get?_set] at found
      split at found
      · rename_i same
        cases found
        exact ⟨same ▸ given, _, by rw [OrderedDict.get?_set, if_pos rfl], same.symm⟩
      · exact old found
    · exact old found
  · intro other
    dsimp only
    rw [get?_register, get?_unregister, OrderedDict.get?_set, consistent.scheduler]
    split
    · rw [Option.or_none]
      rfl
    · rfl

theorem Consistent.reload_safe (consistent : s.Consistent p) (hashed : s.registry.Hashed)
    (running : s.registry.workers.get? id = some worker)
    (after : Consistent p { nodes, registry := s.registry.reloadWorker id config worker }) :
    Mappable config ∧ s.Releases id config worker := by
  have reloaded : (s.registry.workers.set id { worker with config := config }).get? id =
      some { worker with config := config } := by
    rw [OrderedDict.get?_set, if_pos rfl]
  have mappable : Mappable config := by
    by_contra unmappable
    rw [AgentRegistry.reloadWorker_of_unmappable unmappable] at after
    rw [Mappable, Classical.not_imp] at unmappable
    obtain ⟨agent, found⟩ := after.routed reloaded unmappable.1
    dsimp only at found
    rw [consistent.get?_unmapOld running] at found
    split at found
    · cases found
    · exact unmappable.2 (hashed _ _ found)
  refine ⟨mappable, ?_⟩
  by_contra keeps
  rw [Releases, not_or, not_or, not_not] at keeps
  obtain ⟨moved, shared, here⟩ := keeps
  refine shared fun {own} running' given other w differ still uses => ?_
  rw [running] at running'
  cases running'
  rw [AgentRegistry.reloadWorker_eq mappable] at after
  have stays : (s.registry.workers.set id { worker with config := config }).get? other = some w := by
    rw [OrderedDict.get?_set, if_neg differ, still]
  obtain ⟨agent, found⟩ := after.routed stays (uses ▸ given)
  have dropped : (s.registry.unmapOld id config).get? worker.config.subscriptionId = none := by
    rw [consistent.get?_unmapOld running, if_pos ⟨here, Ne.symm moved⟩]
  dsimp only at found
  rw [uses] at found
  split at found
  · rw [OrderedDict.get?_set, if_neg (Ne.symm moved), dropped] at found
    cases found
  · rw [dropped] at found
    cases found

/-- A node that is not to run, and does not, concerns none of the three structures. -/
theorem Consistent.idle (consistent : s.Consistent p) (frame : Frame id nodes s)
    (absent : s.registry.workers.get? id = none) (gone : (nodes.get? id).bind (activeConfig p) = none) :
    Consistent p { nodes, registry := s.registry } := by
  refine ⟨?_, consistent.routed, consistent.mapped, consistent.scheduler⟩
  intro other
  by_cases same : other = id
  · rw [same, gone]
    exact congrArg (Option.map AgentWorker.config) absent
  · exact (consistent.workers other).trans (by rw [frame same])

variable {node : Node}

theorem handleAgentCreated_eq (found : nodes.get? id = some node) (agent : node.typeStr = "Agent") (r : AgentRegistry) :
    r.handleAgentCreated p nodes id = match activeConfig p node with
      | some config => r.startWorker config
      | none => r := by
  rw [AgentRegistry.handleAgentCreated, activeConfig, found]
  dsimp only
  rw [if_neg (not_not.mpr agent)]
  cases AgentConfig.fromNode p node with
  | none => rfl
  | some config =>
    rw [Option.filter_some]
    dsimp only
    split <;> rfl

theorem handleAgentUpdated_eq (found : nodes.get? id = some node) (agent : node.typeStr = "Agent") (r : AgentRegistry) :
    r.handleAgentUpdated p nodes id = match r.workers.get? id with
      | none => match activeConfig p node with
        | some config => r.startWorker config
        | none => r
      | some existing => match AgentConfig.fromNode p node with
        | some config => if config.enabled.truthy then r.reloadWorker id config existing else r.stopWorker id
        | none => r := by
  rw [AgentRegistry.handleAgentUpdated, activeConfig, found]
  dsimp only
  rw [if_neg (not_not.mpr agent)]
  cases AgentConfig.fromNode p node with
  | none =>
    cases r.workers.get? id with
    | none => rfl
    | some existing => rfl
  | some config =>
    cases r.workers.get? id with
    | some existing => rfl
    | none =>
      rw [Option.filter_some]
      dsimp only
      split <;> rfl

theorem frame_set (node : Node) (s : System) : Frame node.id (s.nodes.set node.id node) s := by
  intro other differ
  rw [OrderedDict.get?_set, if_neg differ]

theorem activeConfig_agentId (active : activeConfig p node = some config) : config.agentId = node.id :=
  AgentConfig.agentId_of_fromNode (Option.filter_eq_some_iff.mp active).1

/-- A node for which no worker runs yet is taken up consistently unless its subscription is unmappable. -/
theorem Consistent.takeUp_iff (consistent : s.Consistent p) (hashed : s.registry.Hashed)
    (absent : s.registry.workers.get? node.id = none) :
    Consistent p { nodes := s.nodes.set node.id node, registry := match activeConfig p node with
      | some config => s.registry.startWorker config
      | none => s.registry } ↔ ∀ config, activeConfig p node = some config → Mappable config := by
  have found : (s.nodes.set node.id node).get? node.id = some node := by rw [OrderedDict.get?_set, if_pos rfl]
  cases active : activeConfig p node with
  | none =>
    refine iff_of_true (consistent.idle (frame_set node s) absent ?_) fun _ no => absurd no (by simp)
    rw [found, Option.bind_some, active]
  | some config =>
    have named := activeConfig_agentId active
    rw [← named] at absent
    constructor
    · intro after _ same
      cases same
      exact after.start_mappable hashed absent
    · intro mappable
      refine consistent.start absent ?_ ?_ (mappable config rfl)
      · rw [named]
        exact frame_set node s
      · rw [named, found, Option.bind_some, active]

/-- A change leaves the registry consistent if and only if it is safe. -/
theorem consistent_step_iff (consistent : s.Consistent p) (hashed : s.registry.Hashed) {change : Change} {t : System} {u : Unit}
    (taken : step p s change = some (t, u)) : t.Consistent p ↔ Safe p s change := by
  cases change with
  | create node =>
    rw [step] at taken
    split at taken
    · rename_i new
      cases taken
      have found : (s.nodes.set node.id node).get? node.id = some node := by rw [OrderedDict.get?_set, if_pos rfl]
      have absent : s.registry.workers.get? node.id = none := by
        rw [← Option.map_eq_none_iff (f := AgentWorker.config), consistent.workers, OrderedDict.get?_eq_none.mpr new.1]
        rfl
      rw [handleAgentCreated_eq found new.2]
      exact consistent.takeUp_iff hashed absent
    · cases taken
  | update node =>
    rw [step] at taken
    split at taken
    · rename_i there
      cases taken
      have found : (s.nodes.set node.id node).get? node.id = some node := by rw [OrderedDict.get?_set, if_pos rfl]
      rw [handleAgentUpdated_eq found there.2, Safe]
      cases running : s.registry.workers.get? node.id with
      | none => exact consistent.takeUp_iff hashed running
      | some worker =>
        dsimp only
        cases read : AgentConfig.fromNode p node with
        | none =>
          -- the node no longer has a configuration, and its worker runs on
          refine iff_of_false (fun after => ?_) (fun safe => ?_)
          · have own := after.workers node.id
            rw [found, Option.bind_some, activeConfig, read] at own
            dsimp only at own
            rw [running] at own
            cases own
          · obtain ⟨config, no, -⟩ := safe
            cases no
        | some config =>
          have only : (∃ config', some config = some config' ∧ if config'.enabled.truthy = true then
              Mappable config' ∧ s.Releases node.id config' worker else s.registry.Exclusive node.id) ↔
              if config.enabled.truthy = true then Mappable config ∧ s.Releases node.id config worker
              else s.registry.Exclusive node.id := by
            simp
          rw [only]
          dsimp only
          by_cases enabled : config.enabled.truthy = true
          · rw [if_pos enabled, if_pos enabled]
            have active : activeConfig p node = some config := by
              rw [activeConfig, read, Option.filter_some, if_pos enabled]
            exact ⟨fun after => consistent.reload_safe hashed running after, fun safe =>
              consistent.reload running (frame_set node s) (by rw [found, Option.bind_some, active]) safe.1 safe.2⟩
          · rw [if_neg enabled, if_neg enabled]
            have inactive : activeConfig p node = none := by
              rw [activeConfig, read, Option.filter_some, if_neg enabled]
            exact ⟨fun after => consistent.stop_exclusive hashed after, fun exclusive =>
              consistent.stop hashed (frame_set node s) (by rw [found, Option.bind_some, inactive]) exclusive⟩
    · cases taken
  | delete nodeId =>
    rw [step] at taken
    split at taken
    · cases taken
      refine ⟨fun after => consistent.stop_exclusive hashed after, fun exclusive =>
        consistent.stop hashed ?_ ?_ exclusive⟩
      · intro other differ
        rw [OrderedDict.get?_erase, if_neg differ]
      · rw [OrderedDict.get?_erase, if_pos rfl]
        rfl
    · cases taken

theorem hashed_step (hashed : s.registry.Hashed) {change : Change} {t : System} {u : Unit}
    (taken : step p s change = some (t, u)) : t.registry.Hashed := by
  cases change with
  | create node =>
    rw [step] at taken
    split at taken
    · cases taken
      exact (hashed.handle p _ _).1
    · cases taken
  | update node =>
    rw [step] at taken
    split at taken
    · cases taken
      exact (hashed.handle p _ _).2
    · cases taken
  | delete nodeId =>
    rw [step] at taken
    split at taken
    · cases taken
      exact hashed.stopWorker
    · cases taken

theorem Consistent.empty : Consistent p {} :=
  ⟨fun _ => rfl, fun no => (by cases no), fun no => (by cases no), fun _ => rfl⟩

private def sampleConfigReaders : ConfigReaders where
  lower text := .ofList (text.toList.map Char.toLower)
  int
    | .num q => some q.num
    | _ => none
  str
    | .str s => s
    | _ => ""
  zoneInfo name := if name = "UTC" then .found else .notFound

private def agentNode (id subscription : String) : Node where
  id := id
  typeName := "Agent"
  name := "agent"
  metadata := .of [("subscription_id", .str subscription),
    ("schedule", .obj [("day_of_week", .str "monday"), ("hour", .num 9)])]
  createdAt := epoch
  updatedAt := epoch

end System

end MetadataGraph.Agents.Workers
