import MetadataGraph.Agents.Workers

namespace MetadataGraph.Agents.Scheduler

open Runs MetadataGraph.Agents.Workers

/-- The fields of `datetime.now(tz)` that the scheduler reads. -/
structure LocalTime where
  year : ℤ
  month : ℤ
  day : ℤ
  hour : ℤ
  minute : ℤ
  weekday : ℤ
  deriving DecidableEq

structure MinuteKey where
  year : ℤ
  month : ℤ
  day : ℤ
  hour : ℤ
  minute : ℤ
  deriving DecidableEq

def LocalTime.minuteKey (t : LocalTime) : MinuteKey := ⟨t.year, t.month, t.day, t.hour, t.minute⟩

/-- A calendar minute in the time zone of a schedule. -/
structure Minute where
  timezone : String
  key : MinuteKey
  deriving DecidableEq

/-- How a moment reads in the time zones that are known by name, and in UTC. -/
structure Zones (Moment : Type) where
  zoneInfo : String → Option (Moment → LocalTime)
  utc : Moment → LocalTime

variable {Moment : Type}

/-- `datetime.now(tz)`, with UTC for a time zone that is not known. -/
def Zones.now (zones : Zones Moment) (timezone : String) (moment : Moment) : LocalTime :=
  ((zones.zoneInfo timezone).getD zones.utc) moment

/-- The minute of the schedule that a moment falls into, if the schedule matches it. -/
def matchingMinute (zones : Zones Moment) (config : Workers.AgentConfig) (moment : Moment) : Option Minute :=
  config.schedule.bind fun schedule =>
    let now := zones.now schedule.timezone moment
    if now.weekday = schedule.dayOfWeek ∧ now.hour = schedule.hour ∧ now.minute = schedule.minute then
      some ⟨schedule.timezone, now.minuteKey⟩
    else none

/-- The payload of `_build_payload`, and the worker that it is enqueued to. -/
structure ScheduledTrigger (Moment : Type) where
  worker : ℕ
  occurredAt : Moment
  schedule : Option AgentSchedule

/-- The scheduler, with the agents that each check under way has still to visit. -/
structure State where
  entries : AgentScheduler := ({} : OrderedDict String (Workers.AgentConfig × ℕ))
  lastFired : OrderedDict String MinuteKey := {}
  checks : OrderedDict ℕ (List (String × Workers.AgentConfig × ℕ)) := {}
  begun : ℕ := 0

/-- Why an agent is taken out: its worker stops, or it is about to be registered anew. -/
inductive Cause where
  | stopped
  | reloaded
  deriving DecidableEq

inductive Label (Moment : Type) where
  | register (agentId : String) (config : Workers.AgentConfig) (worker : AgentWorker)
  | unregister (agentId : String) (cause : Cause)
  | check
  | visit (check : ℕ) (now : Moment)

inductive Output (Moment : Type) where
  | silent
  | began (check : ℕ) (snapshot : List (String × Workers.AgentConfig × ℕ))
  | visited (check : ℕ) (agentId : String) (minute : Option Minute) (enqueued : Option (ScheduledTrigger Moment))

/-- One section under the lock: a registration, the snapshot that `_check_and_fire` starts with, or
what it does about the next agent of its snapshot. -/
def step (zones : Zones Moment) (s : State) : Label Moment → Option (State × Output Moment)
  | .register agentId config worker =>
    some ({ s with entries := AgentScheduler.register agentId config worker s.entries }, .silent)
  | .unregister agentId _ =>
    some ({ s with entries := AgentScheduler.unregister agentId s.entries, lastFired := s.lastFired.erase agentId }, .silent)
  | .check =>
    some ({ s with checks := s.checks.set s.begun s.entries.entries, begun := s.begun + 1 },
      .began s.begun s.entries.entries)
  | .visit check now => match s.checks.get? check with
    | some ((agentId, config, worker) :: rest) =>
      let left := { s with checks := s.checks.set check rest }
      match matchingMinute zones config now with
      | none => some (left, .visited check agentId none none)
      | some minute =>
        if s.lastFired.get? agentId = some minute.key then some (left, .visited check agentId (some minute) none)
        else some ({ left with lastFired := s.lastFired.set agentId minute.key },
          .visited check agentId (some minute) (some ⟨worker, now, config.schedule⟩))
    | _ => none

/-! ### What happens to one agent -/

/-- An agent is taken out, or a visit reads one of its minutes, and enqueues it or not. -/
inductive Touch where
  | unregistered (cause : Cause)
  | read (minute : Minute) (enqueued : Bool)
  deriving DecidableEq

def touch? (agentId : String) : Label Moment × Output Moment → Option Touch
  | (.unregister id cause, _) => if id = agentId then some (.unregistered cause) else none
  | (_, .visited _ id (some minute) enqueued) => if id = agentId then some (.read minute enqueued.isSome) else none
  | _ => none

def touches (agentId : String) (history : List (Label Moment × Output Moment)) : List Touch :=
  history.filterMap (touch? agentId)

/-- While the agent stays enabled, a minute has it enqueued at most once. -/
def AtMostOnce (touches : List Touch) : Prop :=
  ∀ a minute b c, touches = a ++ .read minute true :: (b ++ .read minute true :: c) → .unregistered .stopped ∈ b

/-- A minute that is read has the agent enqueued, then or before, since it was last stopped. -/
def AtLeastOnce (touches : List Touch) : Prop :=
  ∀ a minute enqueued c, touches = a ++ .read minute enqueued :: c →
    enqueued = true ∨ ∃ before b, a = before ++ .read minute true :: b ∧ .unregistered .stopped ∉ b

/-- The last touch is a reading of a minute with this key. -/
def Guards (touches : List Touch) (key : MinuteKey) : Prop :=
  ∃ minute enqueued, touches.getLast? = some (.read minute enqueued) ∧ minute.key = key

/-- The minute has been read since the agent was last stopped. -/
def ReadBefore (touches : List Touch) (minute : Minute) : Prop :=
  ∃ before enqueued b, touches = before ++ .read minute enqueued :: b ∧ .unregistered .stopped ∉ b

/-- Whenever a minute is read: nothing has happened to the agent since a reading of that minute, if
it was read before while the agent stayed enabled, and the last reading was of another minute otherwise. -/
def Steady (touches : List Touch) : Prop :=
  ∀ a minute enqueued c, touches = a ++ .read minute enqueued :: c → (Guards a minute.key ↔ ReadBefore a minute)

/-- Exactly the readings that the guard does not hold back enqueue the agent. -/
def Guarded (touches : List Touch) : Prop :=
  ∀ a minute enqueued c, touches = a ++ .read minute enqueued :: c → (enqueued = true ↔ ¬ Guards a minute.key)

/-- The first reading of a minute since the agent was stopped. -/
theorem ReadBefore.first {touches : List Touch} {minute : Minute} (read : ReadBefore touches minute) :
    ∃ before enqueued b, touches = before ++ .read minute enqueued :: b ∧ .unregistered .stopped ∉ b ∧
      ¬ ReadBefore before minute := by
  obtain ⟨before, enqueued, b, split, enabled⟩ := read
  induction length : before.length using Nat.strong_induction_on generalizing before enqueued b with
  | _ n ih =>
    by_cases earlier : ReadBefore before minute
    · obtain ⟨first, enqueued', b', split', enabled'⟩ := earlier
      have shorter : first.length < n := by
        rw [← length, split', List.length_append, List.length_cons]
        omega
      refine ih first.length shorter first enqueued' (b' ++ .read minute enqueued :: b) ?_ ?_ rfl
      · rw [split, split', List.append_assoc, List.cons_append]
      · rw [List.mem_append, List.mem_cons]
        rintro (inFirst | no | inRest)
        · exact enabled' inFirst
        · cases no
        · exact enabled inRest
    · exact ⟨before, enqueued, b, split, enabled, earlier⟩

theorem Guarded.steady {touches : List Touch} (guarded : Guarded touches) (once : AtMostOnce touches)
    (fired : AtLeastOnce touches) : Steady touches := by
  intro a minute enqueued c split
  have guard := guarded a minute enqueued c split
  constructor
  · intro guards
    have silent : enqueued ≠ true := fun yes => guard.mp yes guards
    obtain no | ⟨before, b, same, enabled⟩ := fired a minute enqueued c split
    · exact absurd no silent
    · exact ⟨before, true, b, same, enabled⟩
  · rintro ⟨before, enqueued', b, same, enabled⟩
    by_contra free
    have loud : enqueued = true := guard.mpr free
    subst loud same
    rw [List.append_assoc, List.cons_append] at split
    obtain yes | ⟨before', b', same', enabled'⟩ := fired before minute enqueued' _ split
    · subst yes
      exact enabled (once before minute b c split)
    · subst same'
      rw [List.append_assoc, List.cons_append] at split
      have stopped := once before' minute (b' ++ .read minute enqueued' :: b) c
        (by rw [split, List.append_assoc, List.cons_append])
      rw [List.mem_append, List.mem_cons] at stopped
      obtain inFirst | no | inRest := stopped
      · exact enabled' inFirst
      · cases no
      · exact enabled inRest

theorem Guarded.atMostOnce {touches : List Touch} (guarded : Guarded touches) (steady : Steady touches) :
    AtMostOnce touches := by
  intro a minute b c split
  by_contra enabled
  have whole : touches = (a ++ .read minute true :: b) ++ .read minute true :: c := by
    rw [split, List.append_assoc, List.cons_append]
  have guards := (steady _ minute true c whole).mpr ⟨a, true, b, rfl, enabled⟩
  exact (guarded _ minute true c whole).mp rfl guards

theorem Guarded.atLeastOnce {touches : List Touch} (guarded : Guarded touches) (steady : Steady touches) :
    AtLeastOnce touches := by
  intro a minute enqueued c split
  by_cases loud : enqueued = true
  · exact .inl loud
  · have guards : Guards a minute.key := by
      by_contra free
      exact loud ((guarded a minute enqueued c split).mpr free)
    obtain ⟨before, enqueued', b, same, enabled, first⟩ := ((steady a minute enqueued c split).mp guards).first
    subst same
    rw [List.append_assoc, List.cons_append] at split
    have free : ¬ Guards before minute.key := fun held => first ((steady before minute enqueued' _ split).mp held)
    have yes := (guarded before minute enqueued' _ split).mpr free
    subst yes
    exact .inr ⟨before, b, rfl, enabled⟩

/-! ### Runs -/

theorem not_guards_unregistered (touches : List Touch) (cause : Cause) (key : MinuteKey) :
    ¬ Guards (touches ++ [.unregistered cause]) key := by
  rintro ⟨minute, enqueued, last, -⟩
  rw [List.getLast?_concat] at last
  cases last

theorem guards_read (touches : List Touch) (minute : Minute) (enqueued : Bool) (key : MinuteKey) :
    Guards (touches ++ [.read minute enqueued]) key ↔ minute.key = key := by
  constructor
  · rintro ⟨minute', enqueued', last, same⟩
    rw [List.getLast?_concat] at last
    cases last
    exact same
  · intro same
    exact ⟨minute, enqueued, List.getLast?_concat, same⟩

theorem Guarded.unregistered {touches : List Touch} (guarded : Guarded touches) (cause : Cause) :
    Guarded (touches ++ [.unregistered cause]) := by
  intro a minute enqueued c split
  obtain ⟨-, no, -⟩ | ⟨rest, -, split⟩ := concat_eq_append_cons split
  · cases no
  · exact guarded a minute enqueued rest split

theorem Guarded.read {touches : List Touch} (guarded : Guarded touches) {minute : Minute} {enqueued : Bool}
    (free : enqueued = true ↔ ¬ Guards touches minute.key) : Guarded (touches ++ [.read minute enqueued]) := by
  intro a minute' enqueued' c split
  obtain ⟨same, read, -⟩ | ⟨rest, -, split⟩ := concat_eq_append_cons split
  · cases read
    rw [same]
    exact free
  · exact guarded a minute' enqueued' rest split

variable {zones : Zones Moment} {history : List (Label Moment × Output Moment)} {s t : State} {label : Label Moment}
  {output : Output Moment}

theorem touches_concat (agentId : String) (history : List (Label Moment × Output Moment))
    (last : Label Moment × Output Moment) :
    touches agentId (history ++ [last]) = touches agentId history ++ (touch? agentId last).toList := by
  rw [touches, List.filterMap_append]
  cases found : touch? agentId last with
  | none => rw [List.filterMap_cons_none found]; rfl
  | some touch => rw [List.filterMap_cons_some found]; rfl

/-- What was fired last is what the touches of the agent tell, and they are guarded. -/
def Tracked (history : List (Label Moment × Output Moment)) (s : State) : Prop :=
  ∀ agentId, (∀ key, s.lastFired.get? agentId = some key ↔ Guards (touches agentId history) key) ∧
    Guarded (touches agentId history)

theorem Tracked.quiet (tracked : Tracked history s) (same : t.lastFired = s.lastFired)
    (quiet : ∀ agentId, touch? agentId (label, output) = none) : Tracked (history ++ [(label, output)]) t := by
  intro agentId
  rw [touches_concat, quiet, Option.toList_none, List.append_nil, same]
  exact tracked agentId

theorem Tracked.unregister (tracked : Tracked history s) (agentId : String) (cause : Cause)
    (fired : t.lastFired = s.lastFired.erase agentId) :
    Tracked (history ++ [((.unregister agentId cause, .silent) : Label Moment × Output Moment)]) t := by
  intro id
  rw [touches_concat, touch?, fired]
  by_cases same : agentId = id
  · rw [if_pos same, Option.toList_some]
    refine ⟨fun key => ?_, (tracked id).2.unregistered cause⟩
    rw [OrderedDict.get?_erase, if_pos same.symm]
    exact iff_of_false (fun no => (by cases no)) (not_guards_unregistered _ cause key)
  · rw [if_neg same, Option.toList_none, List.append_nil]
    refine ⟨fun key => ?_, (tracked id).2⟩
    rw [OrderedDict.get?_erase, if_neg (Ne.symm same)]
    exact (tracked id).1 key

theorem Tracked.read (tracked : Tracked history s) {check : ℕ} {now : Moment} {agentId : String} {minute : Minute}
    {enqueued : Option (ScheduledTrigger Moment)}
    (free : enqueued.isSome = true ↔ s.lastFired.get? agentId ≠ some minute.key)
    (fired : ∀ id, t.lastFired.get? id = if id = agentId then some minute.key else s.lastFired.get? id) :
    Tracked (history ++ [(.visit check now, .visited check agentId (some minute) enqueued)]) t := by
  intro id
  have touched : touch? id ((.visit check now, .visited check agentId (some minute) enqueued) : Label Moment × Output Moment) =
      if agentId = id then some (.read minute enqueued.isSome) else none := rfl
  rw [touches_concat, touched, fired]
  by_cases same : agentId = id
  · subst same
    rw [if_pos rfl, if_pos rfl, Option.toList_some]
    refine ⟨fun key => ?_, (tracked agentId).2.read ?_⟩
    · rw [guards_read, Option.some.injEq]
    · rw [free, Ne, (tracked agentId).1]
  · rw [if_neg same, if_neg (Ne.symm same), Option.toList_none, List.append_nil]
    exact tracked id

/-- Every agent of a check is still to be visited, or it has been. -/
def Covered (zones : Zones Moment) (history : List (Label Moment × Output Moment)) (s : State) : Prop :=
  ∀ check snapshot, (.check, .began check snapshot) ∈ history → check < s.begun ∧
    ∃ visited rest, snapshot = visited ++ rest ∧ s.checks.get? check = some rest ∧ ∀ entry ∈ visited,
      ∃ now enqueued, (.visit check now, .visited check entry.1 (matchingMinute zones entry.2.1 now) enqueued) ∈ history

theorem Covered.quiet (covered : Covered zones history s) (checks : t.checks = s.checks) (begun : t.begun = s.begun)
    (quiet : ∀ check snapshot, (label, output) ≠ (.check, .began check snapshot)) :
    Covered zones (history ++ [(label, output)]) t := by
  intro check snapshot member
  rw [List.mem_append, List.mem_singleton] at member
  obtain earlier | now := member
  · obtain ⟨below, visited, rest, split, left, seen⟩ := covered check snapshot earlier
    rw [checks, begun]
    refine ⟨below, visited, rest, split, left, fun entry member => ?_⟩
    obtain ⟨now, enqueued, given⟩ := seen entry member
    exact ⟨now, enqueued, List.mem_append_left _ given⟩
  · exact absurd now.symm (quiet check snapshot)

theorem Covered.check (covered : Covered zones history s) (checks : t.checks = s.checks.set s.begun s.entries.entries)
    (begun : t.begun = s.begun + 1) :
    Covered zones (history ++ [(.check, .began s.begun s.entries.entries)]) t := by
  intro check snapshot member
  rw [List.mem_append, List.mem_singleton] at member
  rw [checks, begun, OrderedDict.get?_set]
  obtain earlier | now := member
  · obtain ⟨below, visited, rest, split, left, seen⟩ := covered check snapshot earlier
    rw [if_neg (Nat.ne_of_lt below)]
    refine ⟨Nat.lt_succ_of_lt below, visited, rest, split, left, fun entry member => ?_⟩
    obtain ⟨now, enqueued, given⟩ := seen entry member
    exact ⟨now, enqueued, List.mem_append_left _ given⟩
  · cases now
    rw [if_pos rfl]
    exact ⟨Nat.lt_succ_self _, [], _, rfl, rfl, fun entry no => absurd no List.not_mem_nil⟩

theorem Covered.visit (covered : Covered zones history s) {check : ℕ} {now : Moment} {agentId : String}
    {config : Workers.AgentConfig} {worker : ℕ} {rest : List (String × Workers.AgentConfig × ℕ)}
    {enqueued : Option (ScheduledTrigger Moment)}
    (here : s.checks.get? check = some ((agentId, config, worker) :: rest))
    (checks : t.checks = s.checks.set check rest) (begun : t.begun = s.begun) :
    Covered zones (history ++ [(.visit check now, .visited check agentId (matchingMinute zones config now) enqueued)]) t := by
  intro check' snapshot member
  rw [List.mem_append, List.mem_singleton] at member
  obtain earlier | no := member
  · obtain ⟨below, visited, rest', split, left, seen⟩ := covered check' snapshot earlier
    have kept : ∀ entry ∈ visited, ∃ now' enqueued', (.visit check' now', .visited check' entry.1
        (matchingMinute zones entry.2.1 now') enqueued') ∈
          history ++ [(.visit check now, .visited check agentId (matchingMinute zones config now) enqueued)] := by
      intro entry member
      obtain ⟨now', enqueued', given⟩ := seen entry member
      exact ⟨now', enqueued', List.mem_append_left _ given⟩
    rw [checks, begun, OrderedDict.get?_set]
    by_cases same : check' = check
    · subst same
      rw [here, Option.some.injEq] at left
      subst left
      rw [if_pos rfl]
      refine ⟨below, visited ++ [(agentId, config, worker)], rest, ?_, rfl, fun entry member => ?_⟩
      · rw [split, List.append_assoc, List.singleton_append]
      · rw [List.mem_append, List.mem_singleton] at member
        obtain before | rfl := member
        · exact kept entry before
        · exact ⟨now, enqueued, List.mem_append_right _ List.mem_cons_self⟩
    · rw [if_neg same]
      exact ⟨below, visited, rest', split, left, kept⟩
  · cases no

theorem step_keeps (taken : step zones s label = some (t, output)) (tracked : Tracked history s)
    (covered : Covered zones history s) :
    Tracked (history ++ [(label, output)]) t ∧ Covered zones (history ++ [(label, output)]) t := by
  cases label with
  | register agentId config worker =>
    cases taken
    exact ⟨tracked.quiet rfl fun _ => rfl, covered.quiet rfl rfl fun _ _ no => (by cases no)⟩
  | unregister agentId cause =>
    cases taken
    exact ⟨tracked.unregister agentId cause rfl, covered.quiet rfl rfl fun _ _ no => (by cases no)⟩
  | check =>
    cases taken
    exact ⟨tracked.quiet rfl fun _ => rfl, covered.check rfl rfl⟩
  | visit check now =>
    rw [step] at taken
    split at taken
    · rename_i agentId config worker rest here
      dsimp only at taken
      split at taken
      · rename_i none
        cases taken
        refine ⟨tracked.quiet rfl fun _ => rfl, ?_⟩
        rw [← none]
        exact covered.visit here rfl rfl
      · rename_i minute matching
        split at taken
        · rename_i held
          cases taken
          refine ⟨tracked.read (iff_of_false Bool.false_ne_true fun free => free held) fun id => ?_, ?_⟩
          · split
            · rename_i same
              rw [same]
              exact held
            · rfl
          · rw [← matching]
            exact covered.visit here rfl rfl
        · rename_i free
          cases taken
          refine ⟨tracked.read (iff_of_true rfl free) fun id => OrderedDict.get?_set agentId _ s.lastFired id, ?_⟩
          rw [← matching]
          exact covered.visit here rfl rfl
    · cases taken

/-- In a run, an agent that stays enabled is enqueued at most once per minute and at least once for
each minute that a check reads, and a check reads the clock for each agent that was registered. -/
structure FiresOncePerMinute (zones : Zones Moment) (history : List (Label Moment × Output Moment)) (s : State)
    (agentId : String) : Prop where
  atMostOnce : AtMostOnce (touches agentId history)
  atLeastOnce : AtLeastOnce (touches agentId history)
  visited : ∀ check snapshot config worker, (.check, .began check snapshot) ∈ history →
    (agentId, config, worker) ∈ snapshot → s.checks.get? check = some [] →
      ∃ now enqueued, (.visit check now, .visited check agentId (matchingMinute zones config now) enqueued) ∈ history

theorem run_kept (run : Run (step zones) (fun _ _ _ => True) {} history s) :
    Tracked history s ∧ Covered zones history s := by
  refine run.invariant (fun history s => Tracked history s ∧ Covered zones history s) ?_ ?_
  · refine ⟨fun agentId => ⟨fun key => iff_of_false (fun no => (by cases no)) ?_, ?_⟩, ?_⟩
    · rintro ⟨minute, enqueued, no, -⟩
      cases no
    · intro a minute enqueued c no
      exact absurd no.symm (List.append_ne_nil_of_right_ne_nil a (List.cons_ne_nil _ _))
    · intro check snapshot no
      exact absurd no List.not_mem_nil
  · intro history s label t output kept _ taken
    exact step_keeps taken kept.1 kept.2

/-- An agent fires once per minute exactly as long as nothing comes between two readings of it. -/
theorem firesOncePerMinute_iff (run : Run (step zones) (fun _ _ _ => True) {} history s) (agentId : String) :
    FiresOncePerMinute zones history s agentId ↔ Steady (touches agentId history) := by
  obtain ⟨tracked, covered⟩ := run_kept run
  have guarded := (tracked agentId).2
  constructor
  · intro fires
    exact guarded.steady fires.atMostOnce fires.atLeastOnce
  · intro steady
    refine ⟨guarded.atMostOnce steady, guarded.atLeastOnce steady, ?_⟩
    intro check snapshot config worker began member finished
    obtain ⟨-, visited, rest, split, left, seen⟩ := covered check snapshot began
    rw [finished, Option.some.injEq] at left
    rw [split, ← left, List.append_nil] at member
    exact seen _ member

private def sampleZones : Zones ℕ where
  zoneInfo _ := none
  utc seconds := ⟨2024, 1, 1, 14, seconds / 60, 0⟩

private def sampleAgent : Workers.AgentConfig where
  agentId := "agent"
  name := "Agent"
  enabled := .bool true
  subscriptionId := .null
  mcpIntegrationIds := .arr []
  taskPrompt := .str ""
  toolAllowlist := .null
  autonomyLevel := .str "autonomous"
  skillsUrls := .arr []
  skillNodeIds := .arr []
  schedule := some ⟨0, 14, 0, "UTC"⟩
  modelProfileId := .null

private def sampleMinute : Minute := ⟨"UTC", 2024, 1, 1, 14, 0⟩

/-- Two checks in the minute of the schedule, before anything else happens or after a reload. -/
private def checkTwice (between : List (Label ℕ)) : List (Label ℕ) :=
  .register "agent" sampleAgent ⟨0, sampleAgent⟩ :: .check :: .visit 0 10 :: (between ++ [.check, .visit 1 40])

private theorem checkTwice_run (between : List (Label ℕ)) (read : List Touch)
    (leads : (trace (step sampleZones) (fun _ _ => true) [] {} (checkTwice between)).map
      (fun ended => touches "agent" ended.1) = some read) :
    ∃ history s, Run (step sampleZones) (fun _ _ _ => True) {} history s ∧ touches "agent" history = read := by
  obtain ⟨ended, traced, rfl⟩ := Option.map_eq_some_iff.mp leads
  exact ⟨ended.1, ended.2, Run.of_trace traced, rfl⟩

private theorem steady_pair : Steady [.read sampleMinute true, .read sampleMinute false] := by
  intro a minute enqueued c split
  obtain _ | ⟨first, a⟩ := a
  · cases split
    refine iff_of_false ?_ ?_
    · rintro ⟨minute, enqueued, no, -⟩
      cases no
    · rintro ⟨before, enqueued, b, no, -⟩
      exact absurd no.symm (List.append_ne_nil_of_right_ne_nil before (List.cons_ne_nil _ _))
  · obtain ⟨rfl, split⟩ := List.cons.inj split
    obtain _ | ⟨second, a⟩ := a
    · cases split
      exact iff_of_true ⟨_, _, rfl, rfl⟩ ⟨[], true, [], rfl, List.not_mem_nil⟩
    · have length := congrArg List.length split
      simp at length

theorem firesOncePerMinute_iff_quiet : ∃ history s, Run (step sampleZones) (fun _ _ _ => True) {} history s ∧
    FiresOncePerMinute sampleZones history s "agent" := by
  obtain ⟨history, s, run, read⟩ := checkTwice_run []
    [.read sampleMinute true, .read sampleMinute false] (by decide +kernel)
  refine ⟨history, s, run, (firesOncePerMinute_iff run "agent").mpr ?_⟩
  rw [read]
  exact steady_pair

/-- An agent that is reloaded within its minute is enqueued once more, though it stays enabled. -/
theorem reload_fires_again : ∃ history s, Run (step sampleZones) (fun _ _ _ => True) {} history s ∧
    ¬ FiresOncePerMinute sampleZones history s "agent" := by
  obtain ⟨history, s, run, read⟩ := checkTwice_run
    [.unregister "agent" .reloaded, .register "agent" sampleAgent ⟨0, sampleAgent⟩]
    [.read sampleMinute true, .unregistered .reloaded, .read sampleMinute true] (by decide +kernel)
  refine ⟨history, s, run, fun fires => ?_⟩
  have stopped := fires.atMostOnce [] sampleMinute [.unregistered .reloaded] [] (by rw [read]; rfl)
  exact absurd stopped (by decide)

end MetadataGraph.Agents.Scheduler
