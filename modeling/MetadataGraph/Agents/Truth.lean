import MetadataGraph.Agents.Approval

namespace MetadataGraph.Agents

open MetadataGraph.Graph Runs

variable {Other : Type}

/-- The tool belongs to the graph integration. -/
def OfGraph (manager : Manager Other) (tool : String) : Prop :=
  ∃ loaded, manager.registry.loader.getTool tool = some loaded ∧ loaded.integrationId = "GRAPH"

/-- The graph service does not refuse silently an action that is about to be applied. -/
def Spares (manager : Manager Other) (moment : Moment) (p : Proposal) (σ : Storage) : Prop :=
  manager.executorFactory = true → manager.registry.ready = .ok () →
    ∀ loaded, manager.registry.loader.getTool p.tool = some loaded → loaded.integrationId = "GRAPH" →
      ∀ cfg, manager.registry.graphService = some cfg →
        ¬ RefusesSilently cfg moment loaded.originalName (completed p.agentId loaded.originalName p.inputArgs) σ

/-- No step of a caller applies an action that the graph service refuses silently. -/
def Governance.Spares (manager : Manager Other) (s : Governance Other) : Event Other → Prop
  | .advance i _ moment => ∀ p, s.callers[i]? = some (.applying p) → Agents.Spares manager moment p s.world.1
  | _ => True

/-- A final status and what ran agree: applied exactly if the action took effect. -/
def Agrees (status : ProposalStatus) (ran : List Executed) : Prop :=
  (status = .applied ∧ ∃ e ∈ ran, e.effective = true) ∨ (status = .applyFailed ∧ ∀ e ∈ ran, e.effective = false)

/-- A proposal as it is after its action was applied. -/
structure Applied (p q : Proposal) : Prop where
  same : ∃ status applyResult applyError updatedAt, q = { p with status, applyResult, applyError, updatedAt }
  final : q.status = .applied ∨ q.status = .applyFailed

/-- The runs of the action of a proposal. -/
def runsOf (id : String) (executed : List Executed) : List Executed := executed.filter (·.proposalId = id)

variable {manager : Manager Other} {moment : Moment} {p q : Proposal} {world : Storage × Other}

theorem Applied.id (applied : Applied p q) : q.id = p.id := by
  obtain ⟨_, _, _, _, rfl⟩ := applied.same
  rfl

theorem apply_applied (manager : Manager Other) (moment : Moment) (p : Proposal) (world : Storage × Other) (now : ℚ) :
    Applied p { (manager.apply moment p world).2.1 with updatedAt := now } := by
  unfold Manager.apply
  dsimp only
  split
  · split
    · exact ⟨⟨_, _, _, _, rfl⟩, .inr rfl⟩
    · split
      · split
        · exact ⟨⟨_, _, _, _, rfl⟩, .inr rfl⟩
        · exact ⟨⟨_, _, _, _, rfl⟩, .inl rfl⟩
      · exact ⟨⟨_, _, _, _, rfl⟩, .inr rfl⟩
  · exact ⟨⟨_, _, _, _, rfl⟩, .inr rfl⟩

theorem runsWith_cases (p : Proposal) (execution : Execution) :
    runsWith p execution = [] ∨ ∃ effective, runsWith p execution = [⟨p.id, p.tool, p.inputArgs, effective⟩] := by
  rw [runsWith]
  cases execution.ran with
  | none => exact .inl rfl
  | some tool => exact .inr ⟨_, rfl⟩

/-- At most one run, and it is of the captured action. -/
theorem apply_runs (manager : Manager Other) (moment : Moment) (p : Proposal) (world : Storage × Other) :
    (manager.apply moment p world).2.2 = [] ∨
      ∃ effective, (manager.apply moment p world).2.2 = [⟨p.id, p.tool, p.inputArgs, effective⟩] := by
  unfold Manager.apply
  dsimp only
  split
  · split
    · exact .inl rfl
    · have runs := runsWith_cases p
      split
      · split <;> exact runs _
      · exact runs _
  · exact .inl rfl

/-- The status of an applied action of the graph integration agrees with what happened. -/
theorem apply_agrees (graph : OfGraph manager p.tool) (mutating : isMutatingTool manager.registry.loader p.tool = true)
    (spares : Spares manager moment p world.1) :
    Agrees (manager.apply moment p world).2.1.status (manager.apply moment p world).2.2 := by
  obtain ⟨loaded, found, integration⟩ := graph
  have method : loaded.originalName ∈ mutatingOriginalTools := by
    rw [isMutatingTool, found] at mutating
    exact of_decide_eq_true mutating
  obtain ⟨result, answered, told⟩ := executeGraphTool_told_iff manager.registry.graphService moment p.agentId method
    p.inputArgs world.1
  have executed : (manager.registry.loader.executeTool (manager.registry.executors moment p.agentId) p.tool p.inputArgs
      world).2 = { ran := some loaded, result := .ok result } := by
    rw [MCPLoader.executeTool, found]
    dsimp only
    rw [if_pos integration]
    exact congrArg (Execution.mk (some loaded)) answered
  unfold Manager.apply
  dsimp only
  split
  · rename_i factory
    split
    · exact .inr ⟨rfl, fun _ none => (by cases none)⟩
    · rename_i ready
      rw [executed]
      dsimp only
      have tells := told.mpr (spares factory ready loaded found integration)
      split
      · rename_i complains
        refine .inr ⟨rfl, fun e member => ?_⟩
        rw [List.mem_singleton.mp member]
        exact tells.trans (by rw [complains]; rfl)
      · rename_i quiet
        refine .inl ⟨rfl, _, List.mem_singleton_self _, ?_⟩
        exact tells.trans (by rw [eq_false_of_ne_true quiet]; rfl)
  · exact .inr ⟨rfl, fun _ none => (by cases none)⟩

/-- The caller has decided the proposal as approved, and has to apply it or to save what came of it. -/
def Caller.WorksOn (id : String) (caller : Caller) : Prop :=
  ∃ p : Proposal, p.id = id ∧ (caller = .applying p ∨ caller = .saving p)

/-- The caller has something to say of the action of the proposal. -/
def Caller.Concerns (id : String) (caller : Caller) : Prop :=
  caller.WorksOn id ∨ ∃ p : Proposal, p.id = id ∧ p.autonomyLevel.appliesOnApproval = true ∧ caller = .approved p

/-- What holds of the proposal under an id, the callers that decided it and the runs of its action.
What is said of the graph integration holds under a condition. -/
structure Book (manager : Manager Other) (fair : Prop) (id : String) (s : Governance Other) : Prop where
  mutating : ∀ p, s.proposals.get? id = some p → isMutatingTool manager.registry.loader p.tool = true
  applying : ∀ (i : Nat) p, s.callers[i]? = some (.applying p) → p.id = id →
    s.proposals.get? id = some p ∧ p.status = .approved ∧ p.autonomyLevel.appliesOnApproval = true ∧
      runsOf id s.executed = []
  saving : ∀ (i : Nat) q, s.callers[i]? = some (.saving q) → q.id = id → ∃ p, s.proposals.get? id = some p ∧
    p.status = .approved ∧ p.autonomyLevel.appliesOnApproval = true ∧ Applied p q ∧
      (fair → OfGraph manager p.tool → Agrees q.status (runsOf id s.executed))
  alone : ∀ (i j : Nat) c d, s.callers[i]? = some c → s.callers[j]? = some d → c.WorksOn id → d.WorksOn id → i = j
  once : (runsOf id s.executed).length ≤ 1
  entitled : ∀ e ∈ runsOf id s.executed, ∃ p, s.proposals.get? id = some p ∧
    p.status ∈ [ProposalStatus.approved, .applied, .applyFailed] ∧ p.autonomyLevel.appliesOnApproval = true ∧
      e.tool = p.tool ∧ e.inputArgs = p.inputArgs
  told : ∀ (i : Nat) q, s.callers[i]? = some (.approved q) → q.id = id → q.autonomyLevel.appliesOnApproval = true →
    ∃ p, s.proposals.get? id = some p ∧ (p.status = .applied ∨ p.status = .applyFailed) ∧
      (fair → OfGraph manager p.tool → Agrees p.status (runsOf id s.executed))

/-- Nobody has to do with the action of the proposal. -/
structure Idle (id : String) (s : Governance Other) : Prop where
  unconcerned : ∀ (i : Nat) c, s.callers[i]? = some c → ¬ c.Concerns id
  unrun : runsOf id s.executed = []

variable {fair : Prop} {id : String} {s t : Governance Other}

theorem Idle.book (idle : Idle id s)
    (mutating : ∀ p, s.proposals.get? id = some p → isMutatingTool manager.registry.loader p.tool = true) :
    Book manager fair id s where
  mutating := mutating
  applying i p here named := absurd (.inl ⟨p, named, .inl rfl⟩) (idle.unconcerned i _ here)
  saving i q here named := absurd (.inl ⟨q, named, .inr rfl⟩) (idle.unconcerned i _ here)
  alone i j c d here _ works _ := absurd (.inl works) (idle.unconcerned i c here)
  once := by rw [idle.unrun]; exact Nat.zero_le 1
  entitled e member := by rw [idle.unrun] at member; cases member
  told i q here named applies := absurd (.inr ⟨q, named, applies, rfl⟩) (idle.unconcerned i _ here)

/-- A proposal that is not there or not decided has no caller at its action. -/
theorem Book.idle (book : Book manager fair id s) (undecided : ∀ p, s.proposals.get? id = some p → p.status = .pending) :
    Idle id s := by
  refine ⟨fun i c here concerns => ?_, ?_⟩
  · rcases concerns with ⟨p, named, rfl | rfl⟩ | ⟨p, named, applies, rfl⟩
    · obtain ⟨stored, approved, _⟩ := book.applying i p here named
      rw [undecided p stored] at approved
      cases approved
    · obtain ⟨q, stored, approved, _⟩ := book.saving i p here named
      rw [undecided q stored] at approved
      cases approved
    · obtain ⟨q, stored, final, _⟩ := book.told i p here named applies
      rw [undecided q stored] at final
      rcases final with no | no <;> cases no
  · cases runs : runsOf id s.executed with
    | nil => rfl
    | cons e rest =>
      obtain ⟨p, stored, status, _⟩ := book.entitled e (by rw [runs]; exact List.mem_cons_self)
      rw [undecided p stored] at status
      exact absurd status (by decide)

/-- What has nothing to do with a proposal leaves its book as it is. -/
theorem Book.frame (book : Book manager fair id s) (stored : t.proposals.get? id = s.proposals.get? id)
    (runs : runsOf id t.executed = runsOf id s.executed)
    (callers : ∀ (i : Nat) c, t.callers[i]? = some c → c.Concerns id → s.callers[i]? = some c) : Book manager fair id t where
  mutating p found := book.mutating p (stored ▸ found)
  applying i p here named := by
    rw [stored, runs]
    exact book.applying i p (callers i _ here (.inl ⟨p, named, .inl rfl⟩)) named
  saving i q here named := by
    rw [stored, runs]
    exact book.saving i q (callers i _ here (.inl ⟨q, named, .inr rfl⟩)) named
  alone i j c d atC atD worksC worksD :=
    book.alone i j c d (callers i c atC (.inl worksC)) (callers j d atD (.inl worksD)) worksC worksD
  once := by rw [runs]; exact book.once
  entitled := by rw [stored, runs]; exact book.entitled
  told i q here named applies := by
    rw [stored, runs]
    exact book.told i q (callers i _ here (.inr ⟨q, named, applies, rfl⟩)) named applies

theorem Idle.frame (idle : Idle id s) (runs : runsOf id t.executed = runsOf id s.executed)
    (callers : ∀ (i : Nat) c, t.callers[i]? = some c → c.Concerns id → s.callers[i]? = some c) : Idle id t :=
  ⟨fun i c here concerns => idle.unconcerned i c (callers i c here concerns) concerns, runs.trans idle.unrun⟩

/-- A caller that goes on to where it concerns no proposal. -/
theorem setCaller_unconcerned {i : Nat} {caller : Caller} (leaves : ¬ caller.Concerns id) {j : Nat} {c : Caller}
    (here : (s.setCaller i caller).callers[j]? = some c) (concerns : c.Concerns id) : s.callers[j]? = some c := by
  rw [Governance.setCaller, List.getElem?_set] at here
  split at here
  · split at here
    · cases here
      exact absurd concerns leaves
    · cases here
  · exact here

/-- The caller has nothing to do with the action of any proposal. -/
def Caller.bystander : Caller → Bool
  | .applying _ | .saving _ => false
  | .approved p => !p.autonomyLevel.appliesOnApproval
  | _ => true

theorem not_concerns {caller : Caller} (bystander : caller.bystander = true) (id : String) : ¬ caller.Concerns id := by
  rintro (⟨p, _, rfl | rfl⟩ | ⟨p, _, applies, rfl⟩)
  · cases bystander
  · cases bystander
  · rw [Caller.bystander, applies] at bystander
    cases bystander

theorem getElem?_setCaller {i : Nat} {caller : Caller} {j : Nat} {c : Caller}
    (here : (s.setCaller i caller).callers[j]? = some c) : (j = i ∧ c = caller) ∨ (j ≠ i ∧ s.callers[j]? = some c) := by
  rw [Governance.setCaller, List.getElem?_set] at here
  split at here
  · rename_i same
    split at here
    · cases here
      exact .inl ⟨same.symm, rfl⟩
    · cases here
  · rename_i other
    exact .inr ⟨Ne.symm other, here⟩

/-- A caller that only looks. -/
theorem Book.move (book : Book manager fair id s) {i : Nat} {caller : Caller} (leaves : ¬ caller.Concerns id) :
    Book manager fair id (s.setCaller i caller) :=
  book.frame rfl rfl fun _ _ here concerns => setCaller_unconcerned leaves here concerns

/-- What a step comes to. -/
inductive Change (manager : Manager Other) (s : Governance Other) (event : Event Other) : Governance Other → Prop where
  | looked (i : Nat) (caller : Caller) : (∀ id, ¬ caller.Concerns id) → Change manager s event (s.setCaller i caller)
  | began (caller : Caller) : (∀ id, ¬ caller.Concerns id) →
      Change manager s event { s with callers := s.callers ++ [caller] }
  | recorded (p : Proposal) : Governance.Recorded manager p s →
      Change manager s event { s with proposals := (s.proposals.create p).1 }
  | changed (world : Storage × Other) : Change manager s event { s with world }
  | decided (i : Nat) (key : String) (toStatus : ProposalStatus) (decidedBy : Option String) (now : ℚ) (p : Proposal)
      (caller : Caller) : s.proposals.get? key = some p → p.status = .pending → toStatus ≠ .pending →
      ((∀ id, ¬ caller.Concerns id) ∨ (toStatus = .approved ∧ p.autonomyLevel.appliesOnApproval = true ∧
        caller = .applying (Store.decided toStatus decidedBy now p))) →
      Change manager s event
        (({ s with proposals := (s.proposals.decide key toStatus decidedBy now).1 } : Governance Other).setCaller i caller)
  | applied (i : Nat) (p : Proposal) (moment : Moment) (now : ℚ) : s.callers[i]? = some (.applying p) →
      event = .advance i now moment →
      Change manager s event (Governance.setCaller i (.saving { (manager.apply moment p s.world).2.1 with updatedAt := now })
        { s with
          world := (manager.apply moment p s.world).1, executed := s.executed ++ (manager.apply moment p s.world).2.2 })
  | saved (i : Nat) (q : Proposal) : s.callers[i]? = some (.saving q) →
      Change manager s event
        (({ s with proposals := (s.proposals.save q).1 } : Governance Other).setCaller i (.approved q))

/-- A decision by a caller: it decides the proposal if it is pending, and else looks what became of it. -/
theorem Change.of_decide (manager : Manager Other) (s : Governance Other) (event : Event Other) (i : Nat) (key : String)
    {toStatus : ProposalStatus} (decisive : toStatus ≠ .pending) (decidedBy : Option String) (now : ℚ)
    (next : Proposal → Caller)
    (goes : ∀ p : Proposal, (∀ id, ¬ (next (Store.decided toStatus decidedBy now p)).Concerns id) ∨
      (toStatus = .approved ∧ p.autonomyLevel.appliesOnApproval = true ∧
        next (Store.decided toStatus decidedBy now p) = .applying (Store.decided toStatus decidedBy now p)))
    (looks : ∀ id, ¬ (Caller.reading key).Concerns id) :
    Change manager s event (match (s.proposals.decide key toStatus decidedBy now).2 with
      | none => ({ s with proposals := (s.proposals.decide key toStatus decidedBy now).1 } :
          Governance Other).setCaller i (.reading key)
      | some p => ({ s with proposals := (s.proposals.decide key toStatus decidedBy now).1 } :
          Governance Other).setCaller i (next p)) := by
  by_cases pending : ∃ p, s.proposals.get? key = some p ∧ p.status = .pending
  · obtain ⟨p, found, pending⟩ := pending
    rw [(Store.get?_decide_pending toStatus decidedBy now found pending).1]
    exact .decided i key toStatus decidedBy now p _ found pending decisive (goes p)
  · have settled := Store.decide_other toStatus decidedBy now fun p found status => pending ⟨p, found, status⟩
    rw [settled]
    exact .looked i _ looks

theorem step_change {event : Event Other} (book : ∀ id, Book manager fair id s)
    (stepped : s.step manager event = some (t, ())) : Change manager s event t := by
  cases event with
  | propose p =>
    rw [Governance.step] at stepped
    split at stepped
    · rename_i recorded
      cases stepped
      exact .recorded p recorded
    · cases stepped
  | approve id decidedBy =>
    cases stepped
    exact .began _ (not_concerns rfl)
  | reject id decidedBy =>
    cases stepped
    exact .began _ (not_concerns rfl)
  | change world =>
    cases stepped
    exact .changed world
  | fail i =>
    rw [Governance.step] at stepped
    split at stepped
    · cases stepped
    · split at stepped
      · cases stepped
        exact .looked i _ (not_concerns rfl)
      · cases stepped
  | advance i now moment =>
    rw [Governance.step] at stepped
    split at stepped
    · cases stepped
    · rename_i caller here
      obtain ⟨t', advanced, same⟩ := Option.map_eq_some_iff.mp stepped
      cases same
      cases caller with
      | approving id decidedBy =>
        rw [Governance.advance] at advanced
        split at advanced <;> cases advanced <;> exact .looked i _ (not_concerns rfl)
      | claiming id decidedBy =>
        have change := Change.of_decide manager s (.advance i now moment) i id (show ProposalStatus.approved ≠ .pending by decide) decidedBy now
          (fun claimed => if claimed.autonomyLevel.appliesOnApproval then .applying claimed else .approved claimed)
          (fun p => by
            by_cases applies : p.autonomyLevel.appliesOnApproval = true
            · exact .inr ⟨rfl, applies, if_pos applies⟩
            · refine .inl (not_concerns ?_)
              rw [show (Store.decided .approved decidedBy now p).autonomyLevel = p.autonomyLevel from rfl, if_neg applies]
              exact Bool.not_eq_true' _ ▸ eq_false_of_ne_true applies)
          (not_concerns rfl)
        rw [Governance.advance] at advanced
        split at advanced
        · rename_i none
          rw [none] at change
          cases advanced
          exact change
        · rename_i claimed decided
          rw [decided] at change
          cases advanced
          exact change
      | applying p =>
        cases advanced
        exact .applied i p moment now here rfl
      | saving q =>
        obtain ⟨p, stored, _, _, applied, _⟩ := (book q.id).saving i q here rfl
        have saved : (s.proposals.save q).2 = some q := by
          obtain ⟨_, _, _, _, rfl⟩ := applied.same
          exact (Store.get?_save stored rfl rfl).1
        rw [Governance.advance] at advanced
        rw [saved] at advanced
        cases advanced
        exact .saved i q here
      | approved p => cases advanced
      | rejecting id decidedBy =>
        rw [Governance.advance] at advanced
        split at advanced <;> cases advanced <;> exact .looked i _ (not_concerns rfl)
      | refusing id decidedBy =>
        have change := Change.of_decide manager s (.advance i now moment) i id (show ProposalStatus.rejected ≠ .pending by decide) decidedBy now
          (fun claimed => .answered (some claimed)) (fun p => .inl (not_concerns rfl))
          (not_concerns rfl)
        rw [Governance.advance] at advanced
        split at advanced
        · rename_i none
          rw [none] at change
          cases advanced
          exact change
        · rename_i claimed decided
          rw [decided] at change
          cases advanced
          exact change
      | reading id =>
        cases advanced
        exact .looked i _ (not_concerns rfl)
      | answered answer => cases advanced
      | raised => cases advanced

/-- The caller that decides an approval is the first to have to do with the action. -/
theorem Book.claimed (book : Book manager fair p.id s) (found : s.proposals.get? p.id = some p)
    (pending : p.status = .pending) (applies : p.autonomyLevel.appliesOnApproval = true) {i : Nat}
    {claimed : Proposal} (approved : claimed.status = .approved)
    (level : claimed.autonomyLevel = p.autonomyLevel) (tool : claimed.tool = p.tool) {proposals : Store}
    (stored : proposals.get? p.id = some claimed) :
    Book manager fair p.id (({ s with proposals } : Governance Other).setCaller i (.applying claimed)) := by
  have idle := book.idle fun q same => by
    rw [found] at same
    cases same
    exact pending
  have only : ∀ (j : Nat) c, (({ s with proposals } : Governance Other).setCaller i (.applying claimed)).callers[j]? = some c →
      c.Concerns p.id → j = i ∧ c = .applying claimed := by
    intro j c here concerns
    rcases getElem?_setCaller here with new | ⟨_, old⟩
    · exact new
    · exact absurd concerns (idle.unconcerned j c old)
  constructor
  · intro q same
    obtain rfl : claimed = q := Option.some.inj (stored.symm.trans same)
    rw [tool]
    exact book.mutating p found
  · intro j q here named
    obtain ⟨_, same⟩ := only j _ here (.inl ⟨q, named, .inl rfl⟩)
    cases same
    exact ⟨stored, approved, level ▸ applies, idle.unrun⟩
  · intro j q here named
    obtain ⟨_, no⟩ := only j _ here (.inl ⟨q, named, .inr rfl⟩)
    cases no
  · intro j k c d hereC hereD worksC worksD
    exact (only j c hereC (.inl worksC)).1.trans (only k d hereD (.inl worksD)).1.symm
  · exact (congrArg List.length idle.unrun).trans_le (Nat.zero_le 1)
  · intro e member
    have none : e ∈ ([] : List Executed) := by
      rw [← idle.unrun]
      exact member
    cases none
  · intro j q here named levelled
    obtain ⟨_, no⟩ := only j _ here (.inr ⟨q, named, levelled, rfl⟩)
    cases no

theorem runsOf_append (id : String) (old new : List Executed) : runsOf id (old ++ new) = runsOf id old ++ runsOf id new :=
  List.filter_append old new

/-- The runs of an application are those of its own proposal. -/
theorem runsOf_apply (manager : Manager Other) (moment : Moment) (p : Proposal) (world : Storage × Other) (id : String) :
    runsOf id (manager.apply moment p world).2.2 = if id = p.id then (manager.apply moment p world).2.2 else [] := by
  rcases apply_runs manager moment p world with none | ⟨effective, one⟩
  · rw [none]
    split <;> rfl
  · rw [one, runsOf, List.filter_cons]
    split
    · rename_i same
      rw [if_pos (of_decide_eq_true same).symm]
      rfl
    · rename_i other
      rw [if_neg fun same => other (decide_eq_true same.symm)]
      rfl

theorem Book.applied (book : Book manager fair p.id s) {i : Nat} (here : s.callers[i]? = some (.applying p))
    (spares : fair → Spares manager moment p s.world.1) (now : ℚ) :
    Book manager fair p.id (Governance.setCaller i (.saving { (manager.apply moment p s.world).2.1 with updatedAt := now })
      { s with
        world := (manager.apply moment p s.world).1, executed := s.executed ++ (manager.apply moment p s.world).2.2 }) := by
  obtain ⟨stored, approved, applies, unrun⟩ := book.applying i p here rfl
  have after := apply_applied manager moment p s.world now
  have runs : runsOf p.id (s.executed ++ (manager.apply moment p s.world).2.2) = (manager.apply moment p s.world).2.2 := by
    rw [runsOf_append, unrun, runsOf_apply, if_pos rfl, List.nil_append]
  have agrees : fair → OfGraph manager p.tool →
      Agrees (manager.apply moment p s.world).2.1.status (manager.apply moment p s.world).2.2 :=
    fun isFair graph => apply_agrees graph (book.mutating p stored) (spares isFair)
  have ran := apply_runs manager moment p s.world
  generalize manager.apply moment p s.world = done at after runs agrees ran
  have alone : ∀ (j : Nat) c, s.callers[j]? = some c → c.WorksOn p.id → j = i := fun j c old works =>
    book.alone j i c _ old here works ⟨p, rfl, .inl rfl⟩
  constructor
  · exact book.mutating
  · intro j q new named
    rcases getElem?_setCaller new with ⟨_, no⟩ | ⟨other, old⟩
    · cases no
    · exact absurd (alone j _ old ⟨q, named, .inl rfl⟩) other
  · intro j q new named
    rcases getElem?_setCaller new with ⟨_, same⟩ | ⟨other, old⟩
    · cases same
      refine ⟨p, stored, approved, applies, after, fun isFair graph => ?_⟩
      have kept := agrees isFair graph
      rw [← runs] at kept
      exact kept
    · exact absurd (alone j _ old ⟨q, named, .inr rfl⟩) other
  · intro j k c d newC newD worksC worksD
    have place : ∀ (j : Nat) c, (Governance.setCaller i (.saving { done.2.1 with updatedAt := now })
        { s with world := done.1, executed := s.executed ++ done.2.2 }).callers[j]? = some c → c.WorksOn p.id → j = i := by
      intro j c new works
      rcases getElem?_setCaller new with ⟨same, _⟩ | ⟨_, old⟩
      · exact same
      · exact alone j c old works
    exact (place j c newC worksC).trans (place k d newD worksD).symm
  · refine (congrArg List.length runs).trans_le ?_
    rcases ran with none | ⟨_, one⟩
    · rw [none]
      exact Nat.zero_le 1
    · rw [one]
      exact Nat.le_refl 1
  · intro e member
    replace member : e ∈ done.2.2 := by
      rw [← runs]
      exact member
    rcases ran with none | ⟨_, one⟩
    · rw [none] at member
      cases member
    · rw [one] at member
      cases List.mem_singleton.mp member
      exact ⟨p, stored, by rw [approved]; decide, applies, rfl, rfl⟩
  · intro j q new named levelled
    rcases getElem?_setCaller new with ⟨_, no⟩ | ⟨_, old⟩
    · cases no
    · obtain ⟨q', stored', final, _⟩ := book.told j q old named levelled
      rw [stored] at stored'
      cases stored'
      rw [approved] at final
      rcases final with no | no <;> cases no

theorem Book.saved {q : Proposal} (book : Book manager fair q.id s) {i : Nat} (here : s.callers[i]? = some (.saving q)) :
    Book manager fair q.id (({ s with proposals := (s.proposals.save q).1 } : Governance Other).setCaller i (.approved q)) := by
  obtain ⟨p, stored, approved, applies, after, agrees⟩ := book.saving i q here rfl
  have alone : ∀ (j : Nat) c, s.callers[j]? = some c → c.WorksOn q.id → j = i := fun j c old works =>
    book.alone j i c _ old here works ⟨q, rfl, .inr rfl⟩
  have written : (s.proposals.save q).1.get? q.id = some q := by
    obtain ⟨_, _, _, _, rfl⟩ := after.same
    exact ((Store.get?_save stored rfl rfl).2 _).trans (if_pos rfl)
  have idle : ∀ (j : Nat) c,
      (({ s with proposals := (s.proposals.save q).1 } : Governance Other).setCaller i (.approved q)).callers[j]? = some c →
        ¬ c.WorksOn q.id := by
    intro j c new works
    rcases getElem?_setCaller new with ⟨_, rfl⟩ | ⟨other, old⟩
    · rcases works with ⟨_, _, no | no⟩ <;> cases no
    · exact other (alone j c old works)
  have final := after.final
  obtain ⟨status, applyResult, applyError, updatedAt, same⟩ := after.same
  have level : q.autonomyLevel = p.autonomyLevel := by rw [same]
  have tool : q.tool = p.tool := by rw [same]
  have args : q.inputArgs = p.inputArgs := by rw [same]
  constructor
  · intro r found
    obtain rfl : q = r := Option.some.inj (written.symm.trans found)
    rw [tool]
    exact book.mutating p stored
  · intro j r new named
    exact absurd ⟨r, named, .inl rfl⟩ (idle j _ new)
  · intro j r new named
    exact absurd ⟨r, named, .inr rfl⟩ (idle j _ new)
  · intro j k c d newC _ worksC _
    exact absurd worksC (idle j c newC)
  · exact book.once
  · intro e member
    obtain ⟨p', stored', _, _, sameTool, sameArgs⟩ := book.entitled e member
    rw [stored] at stored'
    cases stored'
    refine ⟨q, written, ?_, level ▸ applies, sameTool.trans tool.symm, sameArgs.trans args.symm⟩
    rcases final with applied | failed
    · rw [applied]
      decide
    · rw [failed]
      decide
  · intro j r _ _ _
    refine ⟨q, written, final, fun isFair graph => ?_⟩
    rw [tool] at graph
    exact agrees isFair graph

theorem concerns_saving {q : Proposal} (concerns : (Caller.saving q).Concerns id) : q.id = id := by
  rcases concerns with ⟨p, named, no | same⟩ | ⟨p, _, _, no⟩
  · cases no
  · cases same
    exact named
  · cases no

theorem concerns_applying {q : Proposal} (concerns : (Caller.applying q).Concerns id) : q.id = id := by
  rcases concerns with ⟨p, named, same | no⟩ | ⟨p, _, _, no⟩
  · cases same
    exact named
  · cases no
  · cases no

theorem concerns_approved {q : Proposal} (concerns : (Caller.approved q).Concerns id) : q.id = id := by
  rcases concerns with ⟨p, _, no | no⟩ | ⟨p, named, _, same⟩
  · cases no
  · cases no
  · cases same
    exact named

/-- Every step keeps the books of all proposals. -/
theorem Book.change {event : Event Other} (book : ∀ id, Book manager fair id s)
    (spares : fair → s.Spares manager event) (change : Change manager s event t) (id : String) :
    Book manager fair id t := by
  cases change with
  | looked i caller leaves => exact (book id).move (leaves id)
  | began caller leaves =>
    refine (book id).frame rfl rfl fun j c here concerns => ?_
    rw [List.getElem?_append] at here
    split at here
    · exact here
    · obtain rfl : c = caller := by simpa using List.mem_of_getElem? here
      exact absurd concerns (leaves id)
  | changed world => exact (book id).frame rfl rfl fun _ _ here _ => here
  | recorded p recorded =>
    obtain ⟨_, mutating, _, fresh⟩ := recorded
    obtain ⟨_, after⟩ := Store.get?_create fresh
    by_cases same : id = p.id
    · subst same
      have idle := (book p.id).idle fun q found => by
        rw [fresh] at found
        cases found
      refine Idle.book (idle.frame rfl fun _ _ here _ => here) fun q found => ?_
      have written := (after p.id).symm.trans found
      rw [if_pos rfl] at written
      cases written
      exact mutating
    · exact (book id).frame ((after id).trans (if_neg same)) rfl fun _ _ here _ => here
  | decided i key toStatus decidedBy now p caller found pending decisive goes =>
    obtain ⟨_, after⟩ := Store.get?_decide_pending toStatus decidedBy now found pending
    have named := Store.id_of_get? found
    by_cases same : id = key
    · subst same
      have written := (after id).trans (if_pos rfl)
      rcases goes with leaves | ⟨rfl, applies, rfl⟩
      · have idle := (book id).idle fun q stored => by
          rw [found] at stored
          cases stored
          exact pending
        refine Idle.book (idle.frame rfl fun j c here concerns => setCaller_unconcerned (leaves id) here concerns) ?_
        intro q stored
        obtain rfl : Store.decided toStatus decidedBy now p = q := Option.some.inj (written.symm.trans stored)
        exact (book id).mutating p found
      · subst named
        have approved : (Store.decided .approved decidedBy now p).status = .approved := rfl
        exact (book p.id).claimed found pending applies approved rfl rfl written
    · refine (book id).frame ((after id).trans (if_neg same)) rfl fun j c here concerns => ?_
      refine setCaller_unconcerned (fun concerned => ?_) here concerns
      rcases goes with leaves | ⟨_, _, rfl⟩
      · exact leaves id concerned
      · exact same ((concerns_applying concerned).symm.trans named)
  | applied i p moment now here event =>
    subst event
    by_cases same : id = p.id
    · subst same
      exact (book p.id).applied here (fun isFair => spares isFair p here) now
    · have named := (apply_applied manager moment p s.world now).id
      refine (book id).frame rfl ?_ fun j c new concerns => ?_
      · exact (runsOf_append id _ _).trans (by rw [runsOf_apply, if_neg same, List.append_nil])
      · exact setCaller_unconcerned (fun concerned => same ((concerns_saving concerned).symm.trans named)) new concerns
  | saved i q here =>
    by_cases same : id = q.id
    · subst same
      exact (book q.id).saved here
    · obtain ⟨p, stored, _, _, applied, _⟩ := (book q.id).saving i q here rfl
      have after : ∀ k, (s.proposals.save q).1.get? k = if k = q.id then some q else s.proposals.get? k := by
        obtain ⟨_, _, _, _, rfl⟩ := applied.same
        exact (Store.get?_save stored rfl rfl).2
      refine (book id).frame ((after id).trans (if_neg same)) rfl fun j c new concerns => ?_
      exact setCaller_unconcerned (fun concerned => same (concerns_approved concerned).symm) new concerns

/-- A decided proposal stays decided, and is rejected only if it was. -/
def Sticks (s t : Governance Other) : Prop :=
  ∀ id p, s.proposals.get? id = some p → p.status ≠ .pending →
    ∃ q, t.proposals.get? id = some q ∧ q.status ≠ .pending ∧ (q.status = .rejected ↔ p.status = .rejected)

theorem Change.sticks {event : Event Other} (book : ∀ id, Book manager fair id s) (change : Change manager s event t) :
    Sticks s t := by
  intro id p found decided
  have same : t.proposals.get? id = s.proposals.get? id →
      ∃ q, t.proposals.get? id = some q ∧ q.status ≠ .pending ∧ (q.status = .rejected ↔ p.status = .rejected) :=
    fun kept => ⟨p, kept.trans found, decided, Iff.rfl⟩
  cases change with
  | looked i caller _ => exact same rfl
  | began caller _ => exact same rfl
  | changed world => exact same rfl
  | applied i q moment now here _ => exact same rfl
  | recorded q recorded =>
    obtain ⟨_, after⟩ := Store.get?_create recorded.2.2.2
    refine same ((after id).trans (if_neg fun here => ?_))
    rw [here, recorded.2.2.2] at found
    cases found
  | decided i key toStatus decidedBy now q caller atKey pending decisive goes =>
    obtain ⟨_, after⟩ := Store.get?_decide_pending toStatus decidedBy now atKey pending
    refine same ((after id).trans (if_neg fun here => ?_))
    rw [here, atKey] at found
    cases found
    exact decided pending
  | saved i q here =>
    obtain ⟨p', stored, approved, _, applied, _⟩ := (book q.id).saving i q here rfl
    have after : ∀ k, (s.proposals.save q).1.get? k = if k = q.id then some q else s.proposals.get? k := by
      obtain ⟨_, _, _, _, rfl⟩ := applied.same
      exact (Store.get?_save stored rfl rfl).2
    by_cases own : id = q.id
    · subst own
      rw [stored] at found
      cases found
      refine ⟨q, (after q.id).trans (if_pos rfl), ?_, ?_⟩
      · rcases applied.final with status | status <;> rw [status] <;> decide
      · rcases applied.final with status | status <;> rw [status, approved] <;> decide
    · exact same ((after id).trans (if_neg own))

/-- The proposals when nothing has been proposed. -/
def Governance.start (proposals : Store) (world : Storage × Other) : Governance Other := { proposals, world }

theorem Book.start {proposals : Store} (empty : ∀ id, proposals.get? id = none) (world : Storage × Other) (id : String) :
    Book manager fair id (Governance.start proposals world) := by
  have nobody : ∀ (i : Nat) c, (Governance.start proposals world).callers[i]? = some c → ¬ c.Concerns id :=
    fun i c here => by cases here
  refine Idle.book ⟨nobody, rfl⟩ fun p found => ?_
  rw [Governance.start, empty id] at found
  cases found

theorem Book.run {proposals : Store} (empty : ∀ id, proposals.get? id = none) {world : Storage × Other}
    {allowed : List (Event Other × Unit) → Governance Other → Event Other → Prop}
    (spares : ∀ {history s event}, allowed history s event → fair → Governance.Spares manager s event)
    {history : List (Event Other × Unit)}
    (run : Run (Governance.step manager) allowed (Governance.start proposals world) history s) (id : String) :
    Book manager fair id s := by
  have books : ∀ id, Book manager fair id s := by
    refine run.invariant (fun _ s => ∀ id, Book manager fair id s) (fun id => .start empty world id) ?_
    intro history s event t output book permitted stepped
    exact fun id => .change book (spares permitted) (step_change book stepped) id
  exact books id

/-- What the proposals of every run are promised. -/
structure Lasting (manager : Manager Other) (s : Governance Other) : Prop where
  once : ∀ id, (runsOf id s.executed).length ≤ 1
  captured : ∀ e ∈ s.executed, ∃ p, s.proposals.get? e.proposalId = some p ∧
    p.status ∈ [ProposalStatus.approved, .applied, .applyFailed] ∧ p.autonomyLevel.appliesOnApproval = true ∧
      e.tool = p.tool ∧ e.inputArgs = p.inputArgs
  sticks : ∀ event t, s.step manager event = some (t, ()) → Sticks s t

/-- And the status that an approval leaves behind is what became of the action. -/
structure Truthful (manager : Manager Other) (s : Governance Other) : Prop extends Lasting manager s where
  told : ∀ (i : Nat) q, s.callers[i]? = some (.approved q) → q.autonomyLevel.appliesOnApproval = true →
    ∃ p, s.proposals.get? q.id = some p ∧
      (OfGraph manager p.tool → Agrees p.status (runsOf q.id s.executed))

theorem lasting_of_books (book : ∀ id, Book manager fair id s) : Lasting manager s where
  once id := (book id).once
  captured e member := (book e.proposalId).entitled e (List.mem_filter.mpr ⟨member, decide_eq_true rfl⟩)
  sticks _ _ stepped := (step_change book stepped).sticks book

/-- In every interleaving of callers an action runs at most once and only when it was approved, and a
decision stays. -/
theorem decisions_last {proposals : Store} (empty : ∀ id, proposals.get? id = none) (world : Storage × Other)
    (manager : Manager Other) {history : List (Event Other × Unit)}
    (run : Run (Governance.step manager) (fun _ _ _ => True) (Governance.start proposals world) history s) :
    Lasting manager s := by
  have book : ∀ id, Book manager False id s := Book.run empty (fun _ no => no.elim) run
  exact lasting_of_books book

/-- In every interleaving of callers in which the graph service refuses no approved action silently, the
status that an approval leaves behind is also what became of the action. -/
theorem decisions_truthful {proposals : Store} (empty : ∀ id, proposals.get? id = none) (world : Storage × Other)
    (manager : Manager Other) {history : List (Event Other × Unit)}
    (run : Run (Governance.step manager) (fun _ s event => s.Spares manager event) (Governance.start proposals world)
      history s) : Truthful manager s := by
  have book : ∀ id, Book manager True id s := Book.run empty (fun spares _ => spares) run
  refine { lasting_of_books book with told := fun i q here applies => ?_ }
  obtain ⟨p, stored, _, agrees⟩ := (book q.id).told i q here rfl applies
  exact ⟨p, stored, agrees trivial⟩

section Sample

/-- A graph service that reads no entries and has no other methods. -/
def sampleService : ServiceConfig where
  storage := sampleConfig
  node _ _ := .error "invalid"
  edge _ _ := .error "invalid"
  savedViewAnnotationError _ := none
  serializeNode node := .str node.id
  serializeEdge edge := .str edge.id
  str _ := "value"
  valueError _ := true
  queries _ := none
  queries_write_file := rfl
  text _ := "error"
  text_ne _ := by decide

/-- A registry with two tools of the graph integration. -/
def sampleManager : Manager Unit where
  registry :=
    { loader := ⟨Catalogue.put ⟨"GRAPH", "delete_edges", "GRAPH__delete_edges", "Delete edges", .obj []⟩
        (Catalogue.put ⟨"GRAPH", "update_node", "GRAPH__update_node", "Update a node", .obj []⟩ default)⟩
      graphService := some sampleService
      executeFetchTool _ _ world := (world, .ok (.obj []))
      executeFsTool _ _ world := (world, .ok (.obj []))
      executeSearchTool _ _ world := (world, .ok (.obj []))
      str _ := "value" }

def sampleProposal (tool : String) (inputArgs : Dict Json) : Proposal :=
  { agentId := "agent", tool, inputArgs, autonomyLevel := .actAfterApproval, id := "p", createdAt := 0, updatedAt := 0 }

/-- A proposal that is approved and applied. -/
def sampleEvents (tool : String) (inputArgs : Dict Json) : List (Event Unit) :=
  let moment : Moment := { now := epoch, fresh := fun _ => ⟨"fresh", epoch⟩ }
  [.propose (sampleProposal tool inputArgs), .approve "p" none, .advance 0 1 moment, .advance 0 1 moment,
   .advance 0 1 moment, .advance 0 1 moment]

def sampleStart : Governance Unit := .start (.memory {}) (default, ())

theorem sampleStart_empty (id : String) : sampleStart.proposals.get? id = none := rfl

/-- The proposal whose approval a caller has seen through. -/
def Caller.seenThrough : Caller → Option Proposal
  | .approved p => some p
  | _ => none

theorem Caller.eq_of_seenThrough {caller : Caller} (through : caller.seenThrough = some p) : caller = .approved p := by
  cases caller <;> cases through
  rfl

/-- What the first caller has seen through, what became of the proposal, and which runs took effect. -/
def sampleOutcome (s : Governance Unit) : Option (String × Bool) × Option (String × ProposalStatus) × List Bool :=
  ((s.callers[0]?.bind Caller.seenThrough).map fun q => (q.id, q.autonomyLevel.appliesOnApproval),
    (s.proposals.get? "p").map fun p => (p.tool, p.status), s.executed.map (·.effective))

theorem sampleManager_ofGraph : OfGraph sampleManager "GRAPH__delete_edges" :=
  ⟨⟨"GRAPH", "delete_edges", "GRAPH__delete_edges", "Delete edges", .obj []⟩, by rfl, rfl⟩

/-- An unconfirmed deletion of edges is answered with a message, and its proposal ends as applied. -/
theorem decisions_not_truthful : ¬ ∀ (manager : Manager Unit) (proposals : Store),
    (∀ id, proposals.get? id = none) → ∀ world history s,
      Run (Governance.step manager) (fun _ _ _ => True) (Governance.start proposals world) history s →
        Truthful manager s := by
  intro promised
  have outcome : (Runs.leadsTo (Governance.step sampleManager) sampleStart
      (sampleEvents "GRAPH__delete_edges" (Dict.of [("edge_ids", .arr [])]))).map sampleOutcome =
      some (some ("p", true), some ("GRAPH__delete_edges", .applied), [false]) := by
    decide +kernel
  obtain ⟨s, taken, seen⟩ := Option.map_eq_some_iff.mp outcome
  obtain ⟨history, run⟩ := Run.of_leadsTo taken
  have through := congrArg Prod.fst seen
  have became := congrArg (fun o => o.2.1) seen
  obtain ⟨q, first, named⟩ := Option.map_eq_some_iff.mp through
  obtain ⟨caller, here, through⟩ := Option.bind_eq_some_iff.mp first
  rw [Caller.eq_of_seenThrough through] at here
  obtain ⟨p, stored, agrees⟩ := (promised sampleManager _ sampleStart_empty _ history s run).told 0 q here
    (congrArg Prod.snd named)
  have ofP : q.id = "p" := congrArg Prod.fst named
  rw [ofP] at stored agrees
  obtain ⟨p', stored', named'⟩ := Option.map_eq_some_iff.mp became
  cases stored.symm.trans stored'
  have tool : p.tool = "GRAPH__delete_edges" := congrArg Prod.fst named'
  have status : p.status = .applied := congrArg Prod.snd named'
  have effects : s.executed.map (·.effective) = [false] := congrArg (fun o => o.2.2) seen
  have silent : ∀ e ∈ s.executed, e.effective = false := by
    intro e member
    have ran : e.effective ∈ s.executed.map (·.effective) := List.mem_map.mpr ⟨e, member, rfl⟩
    rw [effects] at ran
    exact List.mem_singleton.mp ran
  rw [tool] at agrees
  obtain ⟨_, e, ran, effective⟩ | ⟨failed, _⟩ := agrees sampleManager_ofGraph
  · cases effective.symm.trans (silent e (List.mem_filter.mp ran).1)
  · cases status.symm.trans failed

/-- Every caller applies an update of a node. -/
def Governance.updates (s : Governance Unit) : Event Unit → Bool
  | .advance i _ _ => match s.callers[i]? with
    | some (.applying p) => p.tool = "GRAPH__update_node"
    | _ => true
  | _ => true

theorem Governance.spares_of_updates {s : Governance Unit} {event : Event Unit} (updates : s.updates event = true) :
    s.Spares sampleManager event := by
  cases event with
  | advance i now moment =>
    intro p here _ _ loaded found _ cfg _ refuses
    have tool : p.tool = "GRAPH__update_node" := by
      rw [Governance.updates, here] at updates
      exact of_decide_eq_true updates
    rw [tool] at found
    have method : loaded.originalName = "update_node" := by
      cases found
      rfl
    rw [method] at refuses
    simp only [RefusesSilently, String.reduceEq, false_and, or_false] at refuses
  | _ => trivial

/-- An update of a node that is not there, approved by its only caller. -/
theorem decisions_truthful_update : ∃ history s, s.executed.map (·.effective) = [false] ∧
    (s.proposals.get? "p").map (·.status) = some .applyFailed ∧
      Run (Governance.step sampleManager) (fun _ s event => s.Spares sampleManager event) sampleStart history s ∧
        Truthful sampleManager s := by
  have outcome : (Runs.trace (Governance.step sampleManager) (fun s event => s.updates event) [] sampleStart
      (sampleEvents "GRAPH__update_node" (Dict.of [("node_id", .str "x"), ("updates", .obj [])]))).map
        (fun ended => sampleOutcome ended.2) =
      some (some ("p", true), some ("GRAPH__update_node", .applyFailed), [false]) := by
    decide +kernel
  obtain ⟨ended, taken, seen⟩ := Option.map_eq_some_iff.mp outcome
  have run := (Run.trace .start taken).mono fun updates => Governance.spares_of_updates updates
  have became := congrArg (fun o => o.2.1) seen
  refine ⟨ended.1, ended.2, congrArg (fun o => o.2.2) seen, ?_, run,
    decisions_truthful sampleStart_empty _ sampleManager run⟩
  obtain ⟨p, stored, named⟩ := Option.map_eq_some_iff.mp became
  rw [stored]
  exact congrArg some (congrArg Prod.snd named)

end Sample

end MetadataGraph.Agents
