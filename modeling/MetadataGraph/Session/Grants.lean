import MetadataGraph.Session.Leases

namespace MetadataGraph

open ObjectHeap Runs

/-- What a batch commits and reports for a lease op. -/
inductive LeaseEntry where
  | acquired (granted : List String) (denied : Dict String)
  | released (ids : List String)
  deriving DecidableEq

def Pending.lease? {α : Type} : Pending α → Option LeaseEntry
  | .leaseAcquired granted denied => some (.acquired granted denied)
  | .leaseReleased ids => some (.released ids)
  | _ => none

def LeaseEntry.denials : LeaseEntry → List (String × String)
  | .acquired _ denied => denied.toList
  | .released _ => []

theorem Pending.lease?_map {α β : Type} (f : α → β) (entry : Pending α) : (entry.map f).lease? = entry.lease? := by
  cases entry <;> rfl

theorem Pending.mem_leases {α : Type} {pending : List (Pending α)} {granted : List String} {denied : Dict String} :
    .acquired granted denied ∈ pending.filterMap Pending.lease? ↔ .leaseAcquired granted denied ∈ pending := by
  rw [List.mem_filterMap]
  constructor
  · rintro ⟨entry, member, same⟩
    cases entry with
    | leaseAcquired _ _ =>
      cases same
      exact member
    | _ => cases same
  · exact fun member => ⟨_, member, rfl⟩

/-! ### The lease map -/

namespace Holders

variable {client : String}

/-- Another client holds the element. -/
def Foreign (client id : String) (held : Holders) : Prop := ∃ h : Holder, held[id]? = some h ∧ h.clientId ≠ client

theorem Within.foreign {fewer more : Holders} (within : fewer.Within more) {id : String}
    (foreign : fewer.Foreign client id) : more.Foreign client id := by
  obtain ⟨h, there, other⟩ := foreign
  exact ⟨h, within id h there, other⟩

theorem getElem?_acquire (ttl now : Nat) (client : String) (ids : List String) (held : Holders) (id : String) :
    (held.acquire ttl now client ids)[id]? = if id ∈ ids ∧ (held.prune now)[id]?.all (·.clientId = client) then
      some ⟨client, now + ttl⟩ else (held.prune now)[id]? := by
  rw [acquire]
  generalize held.prune now = held
  induction ids generalizing held with
  | nil => simp
  | cons first ids ih =>
    rw [List.foldl_cons, ih]
    by_cases same : first = id
    · subst same
      cases there : held[first]? with
      | none => simp
      | some h => by_cases own : h.clientId = client <;> simp [own, there]
    · have elsewhere : ∀ h : Holder, (held.insert first h)[id]? = held[id]? := by
        intro h
        simp [Std.ExtTreeMap.getElem?_insert, same]
      have listed : id ∈ first :: ids ↔ id ∈ ids := by simp [Ne.symm same]
      simp only [listed]
      split <;> simp only [elsewhere]

theorem getElem?_releaseEach (client : String) (ids : List String) (held : Holders) (released : List String) (id : String) :
    (releaseEach client ids (held, released)).1[id]? =
      if id ∈ ids ∧ held[id]?.any (·.clientId = client) then none else held[id]? := by
  induction ids generalizing held released with
  | nil => simp [releaseEach]
  | cons first ids ih =>
    rw [releaseEach]
    by_cases same : first = id
    · subst same
      cases there : held[first]? with
      | none => simp [ih, there]
      | some h => by_cases own : h.clientId = client <;> simp [own, ih, there]
    · have elsewhere : (held.erase first)[id]? = held[id]? := by simp [Std.ExtTreeMap.getElem?_erase, same]
      have listed : id ∈ first :: ids ↔ id ∈ ids := by simp [Ne.symm same]
      split <;> simp only [ih, elsewhere, listed]

theorem getElem?_releaseAll (client : String) (held : Holders) (id : String) :
    (held.releaseAll client).1[id]? = held[id]?.filter (·.clientId ≠ client) := by
  rw [releaseAll, Std.ExtTreeMap.getElem?_filter]
  cases held[id]? with
  | none => rfl
  | some h => simp [Option.filter]

/-- What the commit of one entry of a batch does to the lease map. -/
def commitLease (ttl now : Nat) (client : String) (held : Holders) : LeaseEntry → Holders
  | .acquired granted _ => if granted = [] then held else held.acquire ttl now client granted
  | .released ids => if ids = [] then held else (held.release now client ids).1

/-- The commit of the entries does what they report: it gives the client every lease reported
as granted, and every lease reported as denied is live in the hands of the client named. -/
def Faithful (ttl now : Nat) (client : String) : Holders → List LeaseEntry → Prop
  | _, [] => True
  | held, entry :: rest =>
    (∀ granted denied, entry = .acquired granted denied →
      (∀ id ∈ granted, (held.commitLease ttl now client entry)[id]? = some ⟨client, now + ttl⟩) ∧
        ∀ id holder : String, denied[id]? = some holder → (held.snapshot now)[id]? = some holder) ∧
      Faithful ttl now client (held.commitLease ttl now client entry) rest

/-- The commit of an entry leaves the live leases of the other clients as they are. -/
theorem commitLease_foreign (ttl now : Nat) (held : Holders) (entry : LeaseEntry) {id : String} {h : Holder}
    (other : h.clientId ≠ client) (live : now < h.expiresAt) :
    (held.commitLease ttl now client entry)[id]? = some h ↔ held[id]? = some h := by
  have pruned : (held.prune now)[id]? = some h ↔ held[id]? = some h := by
    rw [getElem?_prune, Option.filter_eq_some_iff, decide_eq_true_eq, and_iff_left live]
  have mine : h ≠ ⟨client, now + ttl⟩ := by
    rintro rfl
    exact other rfl
  unfold commitLease
  split
  · split
    · rfl
    · rw [getElem?_acquire, ← pruned]
      cases (held.prune now)[id]? with
      | none => simp [mine.symm]
      | some g =>
        by_cases own : g.clientId = client
        · have differ : g ≠ h := fun same => other (same ▸ own)
          split <;> simp [mine.symm, differ]
        · simp [own]
  · split
    · rfl
    · rw [release, getElem?_releaseEach, ← pruned]
      cases (held.prune now)[id]? with
      | none => simp
      | some g =>
        by_cases own : g.clientId = client
        · have differ : g ≠ h := fun same => other (same ▸ own)
          split <;> simp [differ]
        · simp [own]

theorem commitLease_snapshot (ttl now : Nat) (held : Holders) (entry : LeaseEntry) {id holder : String}
    (other : holder ≠ client) :
    ((held.commitLease ttl now client entry).snapshot now)[id]? = some holder ↔ (held.snapshot now)[id]? = some holder := by
  simp only [getElem?_snapshot, Option.map_eq_some_iff, Option.filter_eq_some_iff, decide_eq_true_eq]
  constructor
  · rintro ⟨h, ⟨there, live⟩, rfl⟩
    exact ⟨h, ⟨(commitLease_foreign ttl now held entry other live).mp there, live⟩, rfl⟩
  · rintro ⟨h, ⟨there, live⟩, rfl⟩
    exact ⟨h, ⟨(commitLease_foreign ttl now held entry other live).mpr there, live⟩, rfl⟩

/-- A commit of the client gives nothing to another one. -/
theorem foreign_commitLease {ttl now : Nat} {held : Holders} {entry : LeaseEntry} {id : String}
    (foreign : (held.commitLease ttl now client entry).Foreign client id) : held.Foreign client id := by
  obtain ⟨h, there, other⟩ := foreign
  have pruned : (held.prune now)[id]? = some h → held.Foreign client id :=
    fun there => ⟨h, prune_within now held id h there, other⟩
  unfold commitLease at there
  split at there
  · split at there
    · exact ⟨h, there, other⟩
    · rw [getElem?_acquire] at there
      split at there
      · cases there
        exact absurd rfl other
      · exact pruned there
  · split at there
    · exact ⟨h, there, other⟩
    · rw [release, getElem?_releaseEach] at there
      split at there
      · cases there
      · exact pruned there

/-- Nothing that the entries report as granted is in the hands of another client. -/
def Grantable (client : String) (held : Holders) (entries : List LeaseEntry) : Prop :=
  ∀ granted denied, .acquired granted denied ∈ entries → ∀ id ∈ granted, ¬held.Foreign client id

/-- Every lease that the entries report as denied is live in the hands of the client named. -/
def Standing (now : Nat) (held : Holders) (entries : List LeaseEntry) : Prop :=
  ∀ granted denied, .acquired granted denied ∈ entries →
    ∀ id holder : String, denied[id]? = some holder → (held.snapshot now)[id]? = some holder

instance (now : Nat) (held : Holders) (entries : List LeaseEntry) : Decidable (held.Standing now entries) :=
  decidable_of_iff (∀ entry ∈ entries, ∀ refused ∈ entry.denials, (held.snapshot now)[refused.1]? = some refused.2) <| by
    constructor
    · intro each granted denied member id holder refused
      exact each _ member (id, holder) (Std.ExtTreeMap.mem_toList_iff_getElem?_eq_some.mpr refused)
    · intro standing entry member refused listed
      cases entry with
      | acquired granted denied =>
        exact standing granted denied member refused.1 refused.2 (Std.ExtTreeMap.mem_toList_iff_getElem?_eq_some.mp listed)
      | released ids => cases listed

/-- What the entries report as granted the commit gives, and what they report as denied is
refused then too if and only if the leases that stood in the way still do. -/
theorem faithful_iff (ttl now : Nat) {held : Holders} {entries : List LeaseEntry}
    (grantable : held.Grantable client entries)
    (others : ∀ granted denied, .acquired granted denied ∈ entries →
      ∀ id holder : String, denied[id]? = some holder → holder ≠ client) :
    Faithful ttl now client held entries ↔ held.Standing now entries := by
  induction entries generalizing held with
  | nil => simp [Faithful, Standing]
  | cons entry entries ih =>
    have rest := @ih (held.commitLease ttl now client entry)
      (fun granted denied member id listed foreign =>
        grantable granted denied (List.mem_cons_of_mem _ member) id listed (foreign_commitLease foreign))
      fun granted denied member => others granted denied (List.mem_cons_of_mem _ member)
    have given : ∀ granted denied, entry = .acquired granted denied →
        ∀ id ∈ granted, (held.commitLease ttl now client entry)[id]? = some ⟨client, now + ttl⟩ := by
      rintro granted denied rfl id listed
      have free : (held.prune now)[id]?.all (·.clientId = client) = true := by
        cases there : (held.prune now)[id]? with
        | none => rfl
        | some h =>
          by_contra other
          exact grantable granted denied List.mem_cons_self id listed
            ⟨h, prune_within now held id h there, by simpa using other⟩
      have some : granted ≠ [] := List.ne_nil_of_mem listed
      rw [commitLease, if_neg some, getElem?_acquire, if_pos ⟨listed, free⟩]
    rw [Faithful, rest]
    constructor
    · rintro ⟨here, later⟩ granted denied member id holder refused
      rcases List.mem_cons.mp member with same | member
      · exact (here granted denied same.symm).2 id holder refused
      · have other := others granted denied (List.mem_cons_of_mem _ member) id holder refused
        exact (commitLease_snapshot ttl now held entry other).mp (later granted denied member id holder refused)
    · intro standing
      refine ⟨fun granted denied same => ⟨given granted denied same, ?_⟩, ?_⟩
      · exact standing granted denied (same ▸ List.mem_cons_self)
      · intro granted denied member id holder refused
        have other := others granted denied (List.mem_cons_of_mem _ member) id holder refused
        exact (commitLease_snapshot ttl now held entry other).mpr
          (standing granted denied (List.mem_cons_of_mem _ member) id holder refused)

end Holders

/-! ### The working copy of the leases -/

/-- What `edit_lease_acquired` grants is free or the client's own, and what it denies is in the
hands of the client that it names. -/
theorem grantEach_answers {client : String} {start : Dict String} {ids : List String} {leases : Dict String}
    {granted : List String} {denied : Dict String}
    (foreign : ∀ id holder : String, holder ≠ client → (leases[id]? = some holder ↔ start[id]? = some holder))
    (given : ∀ id ∈ granted, ∀ holder, start[id]? = some holder → holder = client)
    (refused : ∀ id holder : String, denied[id]? = some holder → holder ≠ client ∧ start[id]? = some holder) :
    let answer := grantEach client ids (leases, granted, denied)
    (∀ id holder : String, holder ≠ client → (answer.1[id]? = some holder ↔ start[id]? = some holder)) ∧
      (∀ id ∈ answer.2.1, ∀ holder, start[id]? = some holder → holder = client) ∧
      ∀ id holder : String, answer.2.2[id]? = some holder → holder ≠ client ∧ start[id]? = some holder := by
  induction ids generalizing leases granted denied with
  | nil => exact ⟨foreign, given, refused⟩
  | cons first ids ih =>
    -- An id that is free or the client's own is granted.
    have grant : (∀ holder, leases[first]? = some holder → holder = client) →
        let answer := grantEach client ids (leases.insert first client, granted ++ [first], denied)
        (∀ id holder : String, holder ≠ client → (answer.1[id]? = some holder ↔ start[id]? = some holder)) ∧
          (∀ id ∈ answer.2.1, ∀ holder, start[id]? = some holder → holder = client) ∧
          ∀ id holder : String, answer.2.2[id]? = some holder → holder ≠ client ∧ start[id]? = some holder := by
      intro own
      apply ih
      · intro id holder other
        rw [← foreign id holder other, Std.ExtTreeMap.getElem?_insert]
        split
        · rename_i same
          rw [Std.LawfulEqCmp.compare_eq_iff_eq] at same
          subst same
          constructor
          · rintro ⟨⟩
            exact absurd rfl other
          · intro there
            exact absurd (own holder there) other
        · rfl
      · intro id member
        rcases List.mem_append.mp member with old | new
        · exact given id old
        · rw [List.mem_singleton.mp new]
          intro holder there
          by_contra other
          exact other (own holder ((foreign first holder other).mpr there))
      · exact refused
    rw [grantEach]
    cases there : leases[first]? with
    | none => exact grant fun holder held => by simp [there] at held
    | some holder =>
      dsimp only
      split
      · rename_i other
        apply ih foreign given
        intro id holder' listed
        rw [Std.ExtTreeMap.getElem?_insert] at listed
        split at listed
        · rename_i same
          rw [Std.LawfulEqCmp.compare_eq_iff_eq] at same
          cases listed
          exact ⟨other, same ▸ (foreign first holder other).mp there⟩
        · exact refused id holder' listed
      · rename_i own
        exact grant fun holder' held => by
          rw [there] at held
          cases held
          exact not_not.mp own

theorem releaseEach_foreign {client id holder : String} (other : holder ≠ client) {ids : List String}
    {leases : Dict String} {released : List String} :
    (releaseEach client ids (leases, released)).1[id]? = some holder ↔ leases[id]? = some holder := by
  refine ⟨fun after => ?_, releaseEach_keeps other⟩
  induction ids generalizing leases released with
  | nil => exact after
  | cons first ids ih =>
    rw [releaseEach] at after
    split at after
    · have kept := ih after
      rw [Std.ExtTreeMap.getElem?_erase] at kept
      split at kept
      · cases kept
      · exact kept
    · exact ih after

namespace Walk

variable {cfg : ManagerConfig} {client : String}

/-- The working copy differs from the leases at the start in the client's own leases only, and
the answers to the lease ops are those of the start. -/
structure Answers (client : String) (start : Dict String) (w : Walk) : Prop where
  foreign : ∀ id holder : String, holder ≠ client → (w.leases[id]? = some holder ↔ start[id]? = some holder)
  answered : ∀ granted denied, .leaseAcquired granted denied ∈ w.pending →
    (∀ id ∈ granted, ∀ holder, start[id]? = some holder → holder = client) ∧
      ∀ id holder : String, denied[id]? = some holder → holder ≠ client ∧ start[id]? = some holder

theorem Answers.next {start : Dict String} {w w' : Walk} {op : BatchOp} (answers : w.Answers client start)
    (stepped : w.next cfg client op = .ok w') : w'.Answers client start := by
  obtain ⟨foreign, answered⟩ := answers
  -- Only an acquisition adds an entry with an answer.
  have extend : ∀ {leases : Dict String} {memory : Memory} {entry : Pending Ref},
      (∀ id holder : String, holder ≠ client → (leases[id]? = some holder ↔ start[id]? = some holder)) →
      (∀ granted denied, entry ≠ .leaseAcquired granted denied) →
      Answers client start { memory := memory, leases := leases, pending := w.pending ++ [entry] } := by
    intro leases memory entry same quiet
    refine ⟨same, fun granted denied member => ?_⟩
    rcases List.mem_append.mp member with old | new
    · exact answered granted denied old
    · exact absurd (List.mem_singleton.mp new).symm (quiet granted denied)
  cases op with
  | state env stateOp =>
    simp only [Walk.next] at stepped
    split at stepped
    · cases stepped
    · split at stepped
      · cases stepped
      · cases stepped
        exact ⟨foreign, answered⟩
      · cases stepped
        exact extend foreign (by simp)
  | selectionClaimed ids | selectionReleased ids =>
    cases stepped
    exact extend foreign (by simp)
  | leaseAcquired ids =>
    cases stepped
    obtain ⟨same, given, refused⟩ := @grantEach_answers client _ ids.eraseDups _ [] ∅ foreign
      (by simp) (by simp)
    refine ⟨same, fun granted denied member => ?_⟩
    rcases List.mem_append.mp member with old | new
    · exact answered granted denied old
    · cases List.mem_singleton.mp new
      exact ⟨given, refused⟩
  | leaseReleased ids =>
    cases stepped
    refine extend (fun id holder other => ?_) (by simp)
    exact (releaseEach_foreign other).trans (foreign id holder other)

theorem run_answers {start : Dict String} {memory : Memory} {ops : List BatchOp} {w : Walk}
    (walked : run cfg client ops { memory := memory, leases := start } = .ok w) : w.Answers client start :=
  (run_induction (Q := fun _ _ => True) (fun answers stepped => Answers.next answers stepped) (fun _ _ => trivial)
    ⟨fun _ _ _ => Iff.rfl, by simp⟩).1 w walked

end Walk

/-! ### The lease map over the actions -/

/-- The time at which an action looks at the leases. -/
def Action.clock? : Action → Option Nat
  | .applyOps now _ _ | .persistDone now _ | .catchUp now _ | .deliver now _ => some now
  | .write request _ | .undo request _ | .rename request _ _ => some request.now
  | _ => none

namespace Server

variable {cfg : ManagerConfig} {σ τ : Server}

/-- The lease map stays as it is, or is pruned at that time. -/
def Prunes (clock : Option Nat) (σ τ : Server) : Prop :=
  τ.leases = σ.leases ∨ ∃ now, clock = some now ∧ τ.leases = σ.leases.prune now

theorem Prunes.of_eq {clock : Option Nat} {υ : Server} (prunes : Prunes clock σ τ) (same : υ.leases = τ.leases) :
    Prunes clock σ υ := by
  rwa [Prunes, same]

theorem leases_preflight (request : Request) (σ : Server) : (σ.preflight request).1.leases = σ.leases := by
  unfold preflight
  split
  · rfl
  · split
    · rfl
    · split
      · rfl
      · rename_i base got
        have same := (get?_frame got).2.2.1
        split <;> exact same

theorem prunes_rejectIfLeased (now : Nat) (client : String) (op : StateOp) (σ : Server) :
    Prunes (some now) σ (σ.rejectIfLeased now client op).1 := by
  unfold rejectIfLeased
  split
  · exact Or.inl rfl
  · exact Or.inr ⟨now, rfl, rfl⟩

theorem prunes_prepareWrite (cfg : ManagerConfig) (request : Request) (call : SyncWrite) (σ : Server) :
    Prunes (some request.now) σ (σ.prepareWrite cfg request call).1 := by
  have checked := leases_preflight request σ
  unfold prepareWrite
  split
  · exact Or.inl rfl
  · split
    · exact Or.inl rfl
    · split
      · rename_i υ failure passed
        rw [passed] at checked
        exact Or.inl checked
      · rename_i υ passed
        rw [passed] at checked
        split
        · exact Or.inl checked
        · exact Or.inl checked
        · rename_i op prepared
          split
          · exact Or.inl checked
          · rename_i client identity
            have prunes := prunes_rejectIfLeased request.now client op υ
            rw [Prunes, checked] at prunes
            split
            · rename_i rejected
              rw [rejected] at prunes
              exact prunes
            · rename_i free
              rw [free] at prunes
              exact prunes

theorem prunes_prepareUndo (request : Request) (σ : Server) :
    Prunes (some request.now) σ (σ.prepareUndo request).1 := by
  have checked := leases_preflight request σ
  unfold prepareUndo
  split
  · exact Or.inl rfl
  · split
    · rename_i υ failure passed
      rw [passed] at checked
      exact Or.inl checked
    · rename_i υ passed
      rw [passed] at checked
      split
      · exact Or.inl checked
      · split
        · exact Or.inl checked
        · split
          · exact Or.inl checked
          · rename_i inverse stored
            have prunes := prunes_rejectIfLeased request.now request.client inverse υ
            rw [Prunes, checked] at prunes
            split
            · rename_i rejected
              rw [rejected] at prunes
              exact prunes
            · rename_i free
              rw [free] at prunes
              exact prunes

theorem leases_applyOpSync (cfg : ManagerConfig) (call : Call) (persists : Bool) (σ : Server) :
    (σ.applyOpSync cfg call persists).1.leases = σ.leases := by
  rcases applyOpSync_cases cfg call persists σ with ⟨-, same⟩ | ⟨failure, m, -, same⟩ | ⟨applied, m, -, -, same⟩
  all_goals rw [same]

theorem prunes_write (cfg : ManagerConfig) (request : Request) (call : SyncWrite) (σ : Server) :
    Prunes (some request.now) σ (σ.write cfg request call).1 := by
  have prunes := prunes_prepareWrite cfg request call σ
  unfold write
  split
  · rename_i prepared
    rwa [prepared] at prunes
  · rename_i υ op prepared
    rw [prepared] at prunes
    have same := leases_applyOpSync cfg { env := request.env, client := request.client, op := op } request.persists υ
    split <;> rename_i ended <;> rw [ended] at same <;> exact prunes.of_eq same

theorem prunes_undo (cfg : ManagerConfig) (request : Request) (persistsAgain : Bool) (σ : Server) :
    Prunes (some request.now) σ (σ.undo cfg request persistsAgain).1 := by
  have prunes := prunes_prepareUndo request σ
  unfold undo
  split
  · rename_i prepared
    rwa [prepared] at prunes
  · rename_i υ record inverse prepared
    rw [prepared] at prunes
    have same := leases_applyOpSync cfg (undoCall request inverse) request.persists (υ.forgotten inverse)
    rw [forgotten, undoCall] at same
    dsimp only
    split <;> rename_i ended <;> rw [ended] at same
    · exact prunes.of_eq same
    · exact prunes.of_eq same
    · split <;> exact prunes.of_eq same

theorem leases_getOrCreate {now : Nat} {limitReached : Bool} (opened : σ.getOrCreate now limitReached = some τ) :
    τ.leases = σ.leases := by
  unfold getOrCreate at opened
  split at opened
  · rename_i got
    cases opened
    exact (get?_frame got).2.2.1
  · split at opened <;> cases opened
    rfl

theorem leases_rename (cfg : ManagerConfig) (request : Request) (limitReached : Bool) (name : Option String) (σ : Server) :
    (σ.rename cfg request limitReached name).1.leases = σ.leases := by
  rcases rename_cases cfg request limitReached name σ with same | ⟨υ, opened, same | ⟨-, ended⟩⟩
  · rw [same]
  · rw [same, leases_getOrCreate opened]
  · have applied := leases_applyOpSync cfg (renameCall request name) request.persists υ
    rw [leases_getOrCreate opened] at applied
    rcases ended with same | same
    all_goals
      rw [same]
      exact applied

theorem prunes_catchUp (now : Nat) (sinceSeq : Option Int) (σ : Server) :
    Prunes (some now) σ (σ.catchUp now sinceSeq).1 := by
  unfold catchUp
  split
  · exact Or.inl rfl
  · rename_i base got
    have same := (get?_frame got).2.2.1
    refine Or.inr ⟨now, rfl, ?_⟩
    dsimp only
    split <;> exact congrArg (Holders.prune now) same

theorem prunes_deliver (now id : Nat) (σ : Server) : Prunes (some now) σ (σ.deliver now id).1 := by
  rcases deliver_cases now id σ with same | ⟨sub, event, queue, -, -, ⟨-, same⟩ | ⟨-, same | ⟨-, same⟩⟩⟩
  · rw [same]
    exact Or.inl rfl
  · rw [same]
    exact Or.inl rfl
  · rw [same]
    exact prunes_catchUp now none (σ.popped id queue)
  · rw [same]
    exact prunes_catchUp now none (σ.popped id queue)

/-- The commit loop reports the lease entries as they are and commits them in order. -/
theorem leases_commitEach (cfg : ManagerConfig) (now : Nat) (client : String) (pending : List (Pending Ref)) (σ : Server) :
    (σ.commitEach cfg now client pending).1.leases =
        (pending.filterMap Pending.lease?).foldl (Holders.commitLease cfg.leaseTtl now client) σ.leases ∧
      (σ.commitEach cfg now client pending).2.filterMap Pending.lease? = pending.filterMap Pending.lease? := by
  induction pending generalizing σ with
  | nil => exact ⟨rfl, rfl⟩
  | cons entry pending ih =>
    obtain ⟨map, entries⟩ := ih (σ.commitEntry cfg now client entry).1
    have reported : (σ.commitEntry cfg now client entry).2.lease? = entry.lease? := by cases entry <;> rfl
    have leases : (σ.commitEntry cfg now client entry).1.leases =
        (entry.lease?.toList).foldl (Holders.commitLease cfg.leaseTtl now client) σ.leases := by
      cases entry with
      | leaseAcquired granted denied =>
        simp only [commitEntry, Pending.lease?, Option.toList, List.foldl_cons, List.foldl_nil, Holders.commitLease]
        split <;> rfl
      | leaseReleased released =>
        simp only [commitEntry, Pending.lease?, Option.toList, List.foldl_cons, List.foldl_nil, Holders.commitLease]
        split <;> rfl
      | _ => rfl
    rw [commitEach]
    dsimp only
    rw [map, leases, List.filterMap_cons, List.filterMap_cons, entries, reported]
    cases entry.lease? <;> exact ⟨rfl, rfl⟩

end Server

end MetadataGraph
