import MetadataGraph.Session.Grants

namespace MetadataGraph

open ObjectHeap Runs

/-- A client was told that it holds a lease until that time. -/
structure Telling where
  id : String
  client : String
  expires : Nat
  deriving DecidableEq

/-- What the clients have been told so far and is not released since, the time of the last look
at the leases, and the client of the last batch. -/
structure Ledger where
  clock : Nat := 0
  client : String := ""
  told : List Telling := []

/-- What a response adds to or takes back from what the clients were told. -/
def Telling.note (ttl now : Nat) (client : String) (told : List Telling) : LeaseEntry → List Telling
  | .acquired granted _ => told ++ granted.map fun id => ⟨id, client, now + ttl⟩
  | .released ids => told.filter fun t => ¬(t.client = client ∧ t.id ∈ ids)

def Ledger.next (ttl : Nat) (l : Ledger) (taken : Action × Reply) : Ledger :=
  let clock := taken.1.clock?.getD l.clock
  match taken with
  | (.applyOps _ client _, .applied entries _) =>
    { clock := clock, client := client
      told := (entries.filterMap Pending.lease?).foldl (Telling.note ttl clock client) l.told }
  | (.applyOps _ client _, _) => { l with clock := clock, client := client }
  | (.persistDone _ _, .applied entries _) =>
    { l with clock := clock
             told := (entries.filterMap Pending.lease?).foldl (Telling.note ttl clock l.client) l.told }
  | (.disconnect _ client true, _) => { l with clock := clock, told := l.told.filter (·.client ≠ client) }
  | _ => { l with clock := clock }

def ledger (ttl : Nat) (history : List (Action × Reply)) : Ledger := history.foldl (Ledger.next ttl) {}

/-- The clock does not go back, and the process goes on. -/
def Forward (ttl : Nat) (history : List (Action × Reply)) (_ : Server) (action : Action) : Prop :=
  (∀ now ∈ action.clock?, (ledger ttl history).clock ≤ now) ∧ ∀ landed, action ≠ .restart landed

namespace Holders

variable {clock now ttl : Nat} {client : String} {told : List Telling} {held : Holders}

/-- Every lease that a client was told to hold and that has not expired is its own in the map,
for at least as long. -/
def Backs (held : Holders) (clock : Nat) (told : List Telling) : Prop :=
  ∀ t ∈ told, clock < t.expires → ∃ h : Holder, held[t.id]? = some h ∧ h.clientId = t.client ∧ t.expires ≤ h.expiresAt

theorem Backs.later (backs : held.Backs clock told) (forward : clock ≤ now) : held.Backs now told :=
  fun t member live => backs t member (by omega)

theorem Backs.prune (backs : held.Backs clock told) (forward : clock ≤ now) : (held.prune now).Backs now told := by
  intro t member live
  obtain ⟨h, there, own, lasts⟩ := backs t member (by omega)
  refine ⟨h, ?_, own, lasts⟩
  rw [getElem?_prune, there, Option.filter_some, if_pos (by rw [decide_eq_true_eq]; omega)]

theorem Backs.releaseAll (backs : held.Backs clock told) (client : String) :
    (held.releaseAll client).1.Backs clock (told.filter (·.client ≠ client)) := by
  intro t member live
  obtain ⟨member, other⟩ := List.mem_filter.mp member
  obtain ⟨h, there, own, lasts⟩ := backs t member live
  refine ⟨h, ?_, own, lasts⟩
  rw [getElem?_releaseAll, there, Option.filter_some, if_pos (by rw [own]; exact other)]

/-- A commit backs what its response tells. -/
theorem Backs.commitLease (backs : held.Backs now told) (recent : ∀ t ∈ told, t.expires ≤ now + ttl) {entry : LeaseEntry}
    (grantable : held.Grantable client [entry]) :
    (held.commitLease ttl now client entry).Backs now (Telling.note ttl now client told entry) ∧
      ∀ t ∈ Telling.note ttl now client told entry, t.expires ≤ now + ttl := by
  have pruned := backs.prune (le_refl now)
  cases entry with
  | acquired granted denied =>
    have free := grantable granted denied List.mem_cons_self
    constructor
    · intro t member live
      by_cases none : granted = []
      · subst none
        simp only [Telling.note, List.map_nil, List.append_nil] at member
        exact backs t member live
      · simp only [Holders.commitLease, if_neg none, getElem?_acquire]
        rcases List.mem_append.mp member with old | new
        · obtain ⟨h, there, own, lasts⟩ := pruned t old live
          by_cases listed : t.id ∈ granted ∧ (held.prune now)[t.id]?.all (·.clientId = client) = true
          · have mine : h.clientId = client := by simpa [there] using listed.2
            exact ⟨⟨client, now + ttl⟩, if_pos listed, mine ▸ own, recent t old⟩
          · exact ⟨h, by rw [if_neg listed, there], own, lasts⟩
        · obtain ⟨id, listed, rfl⟩ := List.mem_map.mp new
          refine ⟨⟨client, now + ttl⟩, if_pos ⟨listed, ?_⟩, rfl, le_refl _⟩
          cases there : (held.prune now)[id]? with
          | none => rfl
          | some h =>
            by_contra other
            exact free id listed ⟨h, prune_within now held id h there, by simpa using other⟩
    · intro t member
      rcases List.mem_append.mp member with old | new
      · exact recent t old
      · obtain ⟨id, -, rfl⟩ := List.mem_map.mp new
        exact le_refl _
  | released ids =>
    constructor
    · intro t member live
      obtain ⟨old, kept⟩ := List.mem_filter.mp member
      by_cases none : ids = []
      · rw [Holders.commitLease, if_pos none]
        exact backs t old live
      · obtain ⟨h, there, own, lasts⟩ := pruned t old live
        refine ⟨h, ?_, own, lasts⟩
        rw [Holders.commitLease, if_neg none, release, getElem?_releaseEach, if_neg, there]
        rintro ⟨listed, mine⟩
        rw [there, Option.any_some, decide_eq_true_eq, own] at mine
        simp [mine, listed] at kept
    · exact fun t member => recent t (List.mem_filter.mp member).1

theorem Backs.commit (backs : held.Backs now told) (recent : ∀ t ∈ told, t.expires ≤ now + ttl) {entries : List LeaseEntry}
    (grantable : held.Grantable client entries) :
    (entries.foldl (Holders.commitLease ttl now client) held).Backs now
        (entries.foldl (Telling.note ttl now client) told) ∧
      ∀ t ∈ entries.foldl (Telling.note ttl now client) told, t.expires ≤ now + ttl := by
  induction entries generalizing held told with
  | nil => exact ⟨backs, recent⟩
  | cons entry entries ih =>
    have first : held.Grantable client [entry] := by
      intro granted denied member
      rw [List.mem_singleton] at member
      exact grantable granted denied (member ▸ List.mem_cons_self)
    obtain ⟨backs', recent'⟩ := backs.commitLease recent first
    exact ih backs' recent' fun granted denied member id listed foreign =>
      grantable granted denied (List.mem_cons_of_mem _ member) id listed (foreign_commitLease foreign)

/-- The entries grant nothing that another client holds, and name only others as holders. -/
structure Vetted (client : String) (held : Holders) (entries : List LeaseEntry) : Prop where
  grantable : held.Grantable client entries
  others : ∀ granted denied, .acquired granted denied ∈ entries →
    ∀ id holder : String, denied[id]? = some holder → holder ≠ client

theorem Vetted.within {fewer : Holders} {entries : List LeaseEntry} (vetted : held.Vetted client entries)
    (within : fewer.Within held) : fewer.Vetted client entries :=
  ⟨fun granted denied member id listed foreign => vetted.grantable granted denied member id listed (within.foreign foreign),
    vetted.others⟩

/-- What a walk over the pruned map answers. -/
theorem vetted_of_answers {w : Walk} (answers : w.Answers client ((held.prune now).snapshot now)) :
    (held.prune now).Vetted client (w.pending.filterMap Pending.lease?) ∧
      (held.prune now).Standing now (w.pending.filterMap Pending.lease?) := by
  refine ⟨⟨?_, ?_⟩, ?_⟩
  · rintro granted denied member id listed ⟨h, there, other⟩
    exact other ((answers.answered granted denied (Pending.mem_leases.mp member)).1 id listed _ (snapshot_of_prune there))
  · intro granted denied member id holder refused
    exact ((answers.answered granted denied (Pending.mem_leases.mp member)).2 id holder refused).1
  · intro granted denied member id holder refused
    exact ((answers.answered granted denied (Pending.mem_leases.mp member)).2 id holder refused).2

end Holders

namespace Server

variable {cfg : ManagerConfig} {σ τ : Server}

/-- The lease map backs what the clients were told, and the batch in flight has been vetted. -/
structure Backed (cfg : ManagerConfig) (l : Ledger) (σ : Server) : Prop where
  backs : σ.leases.Backs l.clock l.told
  recent : ∀ t ∈ l.told, t.expires ≤ l.clock + cfg.leaseTtl
  client : ∀ batch ∈ σ.inFlight, batch.client = l.client
  flight : ∀ batch ∈ σ.inFlight, σ.leases.Vetted batch.client (batch.pending.filterMap Pending.lease?)

theorem leases_disconnect (cfg : ManagerConfig) (id : Nat) (client : String) (last : Bool) (σ : Server) :
    (σ.disconnect cfg id client last).leases = if last then (σ.leases.releaseAll client).1 else σ.leases := by
  cases last with
  | false => rfl
  | true =>
    simp only [disconnect, publishElements, if_true]
    split <;> split <;> rfl

theorem leases_commit (cfg : ManagerConfig) (now : Nat) (client : String) (pending : List (Pending Ref)) (σ : Server) :
    ∃ entries seq, (σ.commit cfg now client pending).2 = .applied entries seq ∧
      entries.filterMap Pending.lease? = pending.filterMap Pending.lease? ∧
      (σ.commit cfg now client pending).1.leases =
        (pending.filterMap Pending.lease?).foldl (Holders.commitLease cfg.leaseTtl now client) σ.leases ∧
      (σ.commit cfg now client pending).1.inFlight = σ.inFlight := by
  obtain ⟨map, reported⟩ := leases_commitEach cfg now client pending σ
  obtain ⟨events, claims, leases, committed, -⟩ := commitEach_broadcasts cfg now client σ pending
  refine ⟨_, _, rfl, ?_, map, ?_⟩
  · rw [List.filterMap_map, ← reported]
    congr 1
    funext entry
    exact Pending.lease?_map _ entry
  · rw [commit]
    dsimp only
    rw [committed]

/-- A batch that commits at once: the lease map it leaves, and what it reports. -/
theorem applyOps_commits {now : Nat} {client : String} {ops : List BatchOp} {entries : List (Pending Annotation)} {seq : Nat}
    (applied : σ.applyOps cfg now client ops = (τ, .applied entries seq)) :
    τ.leases = (entries.filterMap Pending.lease?).foldl (Holders.commitLease cfg.leaseTtl now client) (σ.leases.prune now) ∧
      (σ.leases.prune now).Vetted client (entries.filterMap Pending.lease?) ∧
      (σ.leases.prune now).Standing now (entries.filterMap Pending.lease?) ∧ τ.inFlight = σ.inFlight := by
  rcases applyOps_cases cfg now client ops σ with ⟨-, same⟩ | ⟨base, got, ended⟩
  · rw [same] at applied
    cases applied
  · rcases ended with ⟨failure, m, -, same⟩ | ⟨w, walked, ⟨-, same⟩ | ⟨-, ⟨-, same⟩ | ⟨-, same⟩⟩⟩
    · rw [same] at applied
      cases applied
    · obtain ⟨entries', seq', reply, reported, map, flight⟩ := leases_commit cfg now client w.pending
        { base with memory := w.memory, leases := base.leases.prune now }
      rw [← same, applied] at reply map flight
      cases reply
      have leases := (get?_frame got).2.2.1
      rw [leases] at map walked
      obtain ⟨vetted, standing⟩ := Holders.vetted_of_answers (Walk.run_answers walked)
      rw [reported]
      exact ⟨map, vetted, standing, flight.trans (get?_frame got).1⟩
    · rw [same] at applied
      cases applied
    · rw [same] at applied
      cases applied

/-- A batch that does not commit at once prunes the leases, and is vetted if it goes on. -/
theorem applyOps_suspends {now : Nat} {client : String} {ops : List BatchOp} (idle : σ.inFlight = none)
    (unapplied : ∀ entries seq, (σ.applyOps cfg now client ops).2 ≠ .applied entries seq) :
    Prunes (some now) σ (σ.applyOps cfg now client ops).1 ∧
      ∀ batch ∈ (σ.applyOps cfg now client ops).1.inFlight, batch.client = client ∧
        (σ.applyOps cfg now client ops).1.leases.Vetted batch.client (batch.pending.filterMap Pending.lease?) := by
  rcases applyOps_cases cfg now client ops σ with ⟨-, same⟩ | ⟨base, got, ended⟩
  · rw [same]
    exact ⟨Or.inl rfl, by simp [idle]⟩
  · obtain ⟨flight, -, leases, -⟩ := get?_frame got
    rw [idle] at flight
    rcases ended with ⟨failure, m, -, same⟩ | ⟨w, walked, ⟨-, same⟩ | ⟨-, ⟨-, same⟩ | ⟨-, same⟩⟩⟩
    · rw [same]
      exact ⟨Or.inr ⟨now, rfl, congrArg (Holders.prune now) leases⟩, by simp [rollback, flight]⟩
    · obtain ⟨entries, seq, reply, -⟩ := leases_commit cfg now client w.pending
        { base with memory := w.memory, leases := base.leases.prune now }
      exact absurd (same ▸ reply) (unapplied entries seq)
    · rw [same]
      exact ⟨Or.inr ⟨now, rfl, congrArg (Holders.prune now) leases⟩, by simp [rollback, flight]⟩
    · rw [same]
      refine ⟨Or.inr ⟨now, rfl, congrArg (Holders.prune now) leases⟩, ?_⟩
      rintro batch ⟨⟩
      exact ⟨rfl, (Holders.vetted_of_answers (Walk.run_answers walked)).1⟩

/-- What an action that commits nothing leaves of the lease map. -/
theorem step_prunes {action : Action} {reply : Reply} (stepped : σ.step cfg action = some (τ, reply))
    (noBatch : ∀ now client ops, action ≠ .applyOps now client ops) (noCommit : ∀ now ok, action ≠ .persistDone now ok)
    (noLeave : ∀ id client, action ≠ .disconnect id client true) (alive : ∀ landed, action ≠ .restart landed) :
    Prunes action.clock? σ τ := by
  cases action with
  | applyOps now client ops => exact absurd rfl (noBatch now client ops)
  | persistDone now ok => exact absurd rfl (noCommit now ok)
  | cancel =>
    obtain ⟨batch, -, same⟩ := Option.map_eq_some_iff.mp stepped
    cases same
    exact Or.inl rfl
  | workerDone index landed =>
    obtain ⟨snapshot, -, same⟩ := Option.map_eq_some_iff.mp stepped
    cases same
    exact Or.inl rfl
  | write request call =>
    obtain rfl := congrArg Prod.fst (Option.some.inj stepped)
    exact prunes_write cfg request call σ
  | undo request persistsAgain =>
    obtain rfl := congrArg Prod.fst (Option.some.inj stepped)
    exact prunes_undo cfg request persistsAgain σ
  | rename request limitReached name =>
    obtain rfl := congrArg Prod.fst (Option.some.inj stepped)
    exact Or.inl (leases_rename cfg request limitReached name σ)
  | catchUp now sinceSeq =>
    obtain rfl := congrArg Prod.fst (Option.some.inj stepped)
    exact prunes_catchUp now sinceSeq σ
  | connect | notify =>
    cases stepped
    exact Or.inl rfl
  | disconnect id client last =>
    cases stepped
    cases last with
    | true => exact absurd rfl (noLeave id client)
    | false => exact Or.inl (leases_disconnect cfg id client false σ)
  | deliver now id =>
    obtain rfl := congrArg Prod.fst (Option.some.inj stepped)
    exact prunes_deliver now id σ
  | getOrCreate now limitReached =>
    obtain ⟨υ, created, same⟩ := Option.map_eq_some_iff.mp stepped
    cases same
    exact Or.inl (leases_getOrCreate created)
  | delete =>
    simp only [step] at stepped
    split at stepped
    · cases stepped
    · cases stepped
      unfold delete
      dsimp only
      split <;> exact Or.inl rfl
  | restart landed => exact absurd rfl (alive landed)

theorem Backed.prunes {l : Ledger} {clock? : Option Nat} (backed : Backed cfg l σ) (forward : ∀ now ∈ clock?, l.clock ≤ now)
    (prunes : Prunes clock? σ τ) :
    τ.leases.Backs (clock?.getD l.clock) l.told ∧ ∀ t ∈ l.told, t.expires ≤ clock?.getD l.clock + cfg.leaseTtl := by
  have later : l.clock ≤ clock?.getD l.clock := by
    cases clock? with
    | none => exact le_refl _
    | some now => exact forward now rfl
  refine ⟨?_, fun t member => ?_⟩
  · rcases prunes with same | ⟨now, rfl, same⟩
    · rw [same]
      exact backed.backs.later later
    · rw [same]
      exact backed.backs.prune later
  · have := backed.recent t member
    omega

/-- The commit of a batch turned the one lease map into the other, and did what it reports. -/
def Agrees (cfg : ManagerConfig) (now : Nat) (client : String) (before : Holders) (entries : List (Pending Annotation))
    (after : Holders) : Prop :=
  after = (entries.filterMap Pending.lease?).foldl (Holders.commitLease cfg.leaseTtl now client) before ∧
    before.Faithful cfg.leaseTtl now client (entries.filterMap Pending.lease?)

theorem ledger_snoc (ttl : Nat) (history : List (Action × Reply)) (taken : Action × Reply) :
    ledger ttl (history ++ [taken]) = (ledger ttl history).next ttl taken := by
  rw [ledger, List.foldl_append]
  rfl

theorem clock_next (ttl : Nat) (l : Ledger) (action : Action) (reply : Reply) :
    (l.next ttl (action, reply)).clock = action.clock?.getD l.clock := by
  unfold Ledger.next
  split <;> rfl

/-- Every action keeps the lease map behind what the clients were told. -/
theorem step_backed {l : Ledger} (wf : σ.Wf) (backed : Backed cfg l σ) {action : Action} {reply : Reply}
    (forward : ∀ now ∈ action.clock?, l.clock ≤ now) (alive : ∀ landed, action ≠ .restart landed)
    (stepped : σ.step cfg action = some (τ, reply)) : Backed cfg (l.next cfg.leaseTtl (action, reply)) τ := by
  by_cases batched : ∃ now client ops, action = .applyOps now client ops
  · obtain ⟨now, client, ops, rfl⟩ := batched
    simp only [step] at stepped
    split at stepped
    · cases stepped
    · rename_i free
      have idle : σ.inFlight = none := by simpa using free
      have ended := Option.some.inj stepped
      have later := forward now rfl
      by_cases commits : ∃ entries seq, reply = .applied entries seq
      · obtain ⟨entries, seq, rfl⟩ := commits
        obtain ⟨map, vetted, -, flight⟩ := applyOps_commits ended
        have recent : ∀ t ∈ l.told, t.expires ≤ now + cfg.leaseTtl :=
          fun t member => (backed.recent t member).trans (by omega)
        obtain ⟨backs, recent⟩ := (backed.backs.prune later).commit recent vetted.grantable
        rw [idle] at flight
        exact ⟨map ▸ backs, recent, by simp [flight], by simp [flight]⟩
      · have unapplied : ∀ entries seq, (σ.applyOps cfg now client ops).2 ≠ .applied entries seq := by
          rw [ended]
          exact fun entries seq same => commits ⟨entries, seq, same⟩
        obtain ⟨prunes, flight⟩ := applyOps_suspends idle unapplied
        rw [ended] at prunes flight
        have noted : l.next cfg.leaseTtl (.applyOps now client ops, reply) = { l with clock := now, client := client } := by
          cases reply with
          | applied entries seq => exact absurd ⟨entries, seq, rfl⟩ commits
          | _ => rfl
        rw [noted]
        obtain ⟨backs, recent⟩ := backed.prunes forward prunes
        exact ⟨backs, recent, fun batch flying => (flight batch flying).1, fun batch flying =>
          (flight batch flying).2⟩
  by_cases persisted : ∃ now ok, action = .persistDone now ok
  · obtain ⟨now, ok, rfl⟩ := persisted
    obtain ⟨batch, flying, ended⟩ := Option.map_eq_some_iff.mp stepped
    have later := forward now rfl
    cases ok with
    | false =>
      cases ended
      obtain ⟨backs, recent⟩ := backed.prunes forward (Or.inl rfl : Prunes (some now) σ σ)
      exact ⟨backs, recent, by simp [rollback], by simp [rollback]⟩
    | true =>
      obtain ⟨entries, seq, answer, reported, map, flight⟩ := leases_commit cfg now batch.client batch.pending
        { σ with inFlight := none, disk := some batch.snapshot }
      simp only [persistDone, if_true] at ended
      rw [ended] at answer map flight
      cases answer
      have vetted := backed.flight batch flying
      have client := backed.client batch flying
      rw [← reported] at map vetted
      have recent : ∀ t ∈ l.told, t.expires ≤ now + cfg.leaseTtl :=
        fun t member => (backed.recent t member).trans (by omega)
      obtain ⟨backs, recent⟩ := (backed.backs.later later).commit recent vetted.grantable
      rw [client] at backs recent map
      have free : τ.inFlight = none := flight
      exact ⟨map ▸ backs, recent, by simp [free], by simp [free]⟩
  by_cases left : ∃ id client, action = .disconnect id client true
  · obtain ⟨id, client, rfl⟩ := left
    cases stepped
    have leases := leases_disconnect cfg id client true σ
    obtain ⟨events, claims, map, same, -, -, within⟩ := disconnect_broadcasts cfg id client true σ
    have flight : (σ.disconnect cfg id client true).inFlight = σ.inFlight := by rw [same]
    refine ⟨?_, fun t member => backed.recent t (List.mem_filter.mp member).1, ?_, ?_⟩
    · rw [leases]
      exact backed.backs.releaseAll client
    · rw [flight]
      exact backed.client
    · rw [flight]
      intro batch flying
      refine (backed.flight batch flying).within ?_
      rw [leases]
      exact Holders.releaseAll_within client σ.leases
  have noBatch : ∀ now client ops, action ≠ .applyOps now client ops := fun now client ops same => batched ⟨now, client, ops, same⟩
  have prunes := step_prunes stepped noBatch (fun now ok same => persisted ⟨now, ok, same⟩)
    (fun id client same => left ⟨id, client, same⟩) alive
  obtain ⟨backs, recent⟩ := backed.prunes forward prunes
  have noted : l.next cfg.leaseTtl (action, reply) = { l with clock := action.clock?.getD l.clock } := by
    cases action with
    | applyOps now client ops => exact absurd rfl (noBatch now client ops)
    | persistDone now ok => exact absurd ⟨now, ok, rfl⟩ persisted
    | disconnect id client last => cases last with
      | true => exact absurd ⟨id, client, rfl⟩ left
      | false => rfl
    | _ => rfl
  rw [noted]
  have flight : ∀ batch ∈ τ.inFlight, batch ∈ σ.inFlight ∧ τ.leases.Within σ.leases := by
    intro batch flying
    cases before : σ.inFlight with
    | none =>
      rw [idle_step before noBatch stepped] at flying
      cases flying
    | some batch' =>
      by_cases cancelled : action = .cancel
      · subst cancelled
        obtain ⟨batch'', -, same⟩ := Option.map_eq_some_iff.mp stepped
        cases same
        cases flying
      · have during : action.meanwhile = true := by
          cases action with
          | persistDone now ok => exact absurd ⟨now, ok, rfl⟩ persisted
          | cancel => exact absurd rfl cancelled
          | restart landed => exact absurd rfl (alive landed)
          | _ => rfl
        obtain ⟨-, -, still, within⟩ := meanwhile_step (wf.flight batch' before).1 before during stepped
        rw [still] at flying
        exact ⟨flying, within⟩
  exact ⟨backs, recent, fun batch flying => backed.client batch (flight batch flying).1,
    fun batch flying => (backed.flight batch (flight batch flying).1).within (flight batch flying).2⟩

/-- Lease agreement: in every run, two clients that were told that they hold a lease on one
element for a time that is not past are the same, and the map says so. A batch that commits at
once reports what it did to the map; one that comes back from its persist does if and only if
the leases that it was denied are all still held then. -/
theorem lease_agreement {disk : Option (Session Annotation)} {history : List (Action × Reply)}
    (run : Run (step cfg) (Forward cfg.leaseTtl) { disk := disk } history σ) :
    let l := ledger cfg.leaseTtl history
    (∀ t ∈ l.told, ∀ u ∈ l.told, t.id = u.id → l.clock < t.expires → l.clock < u.expires → t.client = u.client) ∧
      (∀ t ∈ l.told, l.clock < t.expires → (σ.leases.snapshot l.clock)[t.id]? = some t.client) ∧
      (∀ now client ops τ entries seq, σ.step cfg (.applyOps now client ops) = some (τ, .applied entries seq) →
        Agrees cfg now client (σ.leases.prune now) entries τ.leases) ∧
      ∀ now batch τ entries seq, σ.inFlight = some batch →
        σ.step cfg (.persistDone now true) = some (τ, .applied entries seq) →
        (Agrees cfg now batch.client σ.leases entries τ.leases ↔
          σ.leases.Standing now (batch.pending.filterMap Pending.lease?)) := by
  have kept : σ.Wf ∧ Backed cfg (ledger cfg.leaseTtl history) σ := by
    refine run.invariant (fun history σ => σ.Wf ∧ Backed cfg (ledger cfg.leaseTtl history) σ) ?_ ?_
    · exact ⟨fresh_wf disk, ⟨by simp [ledger, Holders.Backs], by simp [ledger], by simp, by simp⟩⟩
    · intro history σ action τ reply kept forward stepped
      rw [ledger_snoc]
      exact ⟨step_wf kept.1 stepped, step_backed kept.1 kept.2 forward.1 forward.2 stepped⟩
  obtain ⟨-, backed⟩ := kept
  refine ⟨?_, ?_, ?_, ?_⟩
  · intro t first u second same live live'
    obtain ⟨h, there, own, -⟩ := backed.backs t first live
    obtain ⟨h', there', own', -⟩ := backed.backs u second live'
    rw [same, there'] at there
    cases there
    exact own.symm.trans own'
  · intro t member live
    obtain ⟨h, there, own, lasts⟩ := backed.backs t member live
    rw [Holders.getElem?_snapshot, there, Option.filter_some, if_pos (by rw [decide_eq_true_eq]; omega), ← own]
    rfl
  · intro now client ops τ entries seq stepped
    simp only [step] at stepped
    split at stepped
    · cases stepped
    · obtain ⟨map, vetted, standing, -⟩ := applyOps_commits (Option.some.inj stepped)
      exact ⟨map, (Holders.faithful_iff cfg.leaseTtl now vetted.grantable vetted.others).mpr standing⟩
  · intro now batch τ entries seq flying stepped
    obtain ⟨batch', flying', ended⟩ := Option.map_eq_some_iff.mp stepped
    rw [flying] at flying'
    cases flying'
    obtain ⟨entries', seq', answer, reported, map, -⟩ := leases_commit cfg now batch.client batch.pending
      { σ with inFlight := none, disk := some batch.snapshot }
    simp only [persistDone, if_true] at ended
    rw [ended] at answer map
    cases answer
    have vetted := backed.flight batch flying
    rw [Agrees, reported, Holders.faithful_iff cfg.leaseTtl now vetted.grantable vetted.others]
    exact and_iff_right map

end Server

/-! ### A denial that its holder does not outlive -/

/-- No time passes, and the process goes on. -/
def Action.still (action : Action) : Bool :=
  action.clock?.all (· = 0) && match action with
    | .restart _ => false
    | _ => true

namespace Server

variable {cfg : ManagerConfig} {σ : Server}

/-- A run in which no time passes. -/
theorem forward_of_still (ttl : Nat) {start : Server} {history : List (Action × Reply)}
    (run : Run (step cfg) (fun _ _ action => action.still = true) start history σ) :
    Run (step cfg) (Forward ttl) start history σ ∧ (ledger ttl history).clock = 0 := by
  induction run with
  | start => exact ⟨.start, rfl⟩
  | next before still stepped ih =>
    obtain ⟨run, clock⟩ := ih
    rename_i action reply
    have zero : action.clock?.all (· = 0) = true := (Bool.and_eq_true_iff.mp still).1
    refine ⟨.next run ⟨fun now member => by omega, ?_⟩ stepped, ?_⟩
    · rintro landed rfl
      cases still
    · rw [ledger_snoc]
      rw [clock_next, clock]
      cases time : action.clock? with
      | none => rfl
      | some now => simpa [time] using zero

/-- A lease that one client holds is denied to another one, and the holder leaves while the
other one's batch is persisted. -/
def departureRun : List Action :=
  [.getOrCreate 0 false,
    .applyOps 0 "bob" [.leaseAcquired ["g"]],
    .applyOps 0 "ada" [.state sampleEnv (.nodesAdded (.ofStrings ["n"])), .leaseAcquired ["g"]],
    .disconnect 0 "bob" true]

/-- The batch reports a lease as denied that nobody holds when it commits. -/
theorem denial_outlives_lease : ∃ history σ τ entries seq, Run (step {}) (Forward 30) {} history σ ∧
    σ.step {} (.persistDone 0 true) = some (τ, .applied entries seq) ∧
    .leaseAcquired [] (.of [("g", "bob")]) ∈ entries ∧ (σ.leases.snapshot 0)["g"]? = none ∧
    ¬Agrees {} 0 "ada" σ.leases entries τ.leases := by
  have taken : ((trace (step {}) (fun _ action => action.still) [] {} departureRun).map fun ended =>
      (ended.2.inFlight.map fun batch => (batch.client, batch.pending.filterMap Pending.lease?),
        (ended.2.leases.snapshot 0)["g"]?)) = some (some ("ada", [.acquired [] (.of [("g", "bob")])]), none) := by
    decide +kernel
  obtain ⟨⟨history, σ⟩, traced, facts⟩ := Option.map_eq_some_iff.mp taken
  obtain ⟨flight, gone⟩ := Prod.mk.inj facts
  obtain ⟨batch, flying, facts⟩ := Option.map_eq_some_iff.mp flight
  obtain ⟨-, leases⟩ := Prod.mk.inj facts
  obtain ⟨entries, seq, answer, reported, -⟩ := leases_commit {} 0 batch.client batch.pending
    { σ with inFlight := none, disk := some batch.snapshot }
  rw [leases] at reported
  have stepped : σ.step {} (.persistDone 0 true) = some (_, .applied entries seq) :=
    Option.map_eq_some_iff.mpr ⟨batch, flying, Prod.ext rfl answer⟩
  refine ⟨history, σ, _, entries, seq, (forward_of_still 30 (.trace .start traced)).1, stepped, ?_, gone, ?_⟩
  · rw [← Pending.mem_leases, reported]
    exact List.mem_cons_self
  · rintro ⟨-, faithful⟩
    rw [reported] at faithful
    have held := (faithful.1 [] _ rfl).2 "g" "bob" (by decide +kernel)
    rw [gone] at held
    cases held

/-- The same batch while the holder stays: it reports what its commit does. -/
theorem lease_agreement_sample : ∃ history σ τ batch entries seq, Run (step {}) (Forward 30) {} history σ ∧
    (ledger 30 history).told = [⟨"g", "bob", 30⟩] ∧ (σ.leases.snapshot 0)["g"]? = some "bob" ∧
    σ.inFlight = some batch ∧ σ.step {} (.persistDone 0 true) = some (τ, .applied entries seq) ∧
    Agrees {} 0 batch.client σ.leases entries τ.leases := by
  have taken : ((trace (step {}) (fun _ action => action.still) [] {} (departureRun.take 3)).map fun ended =>
      (ended.2.inFlight.map fun batch => decide (ended.2.leases.Standing 0 (batch.pending.filterMap Pending.lease?)),
        (ledger 30 ended.1).told)) = some (some true, [⟨"g", "bob", 30⟩]) := by decide +kernel
  obtain ⟨⟨history, σ⟩, traced, facts⟩ := Option.map_eq_some_iff.mp taken
  obtain ⟨flight, told⟩ := Prod.mk.inj facts
  obtain ⟨batch, flying, standing⟩ := Option.map_eq_some_iff.mp flight
  obtain ⟨entries, seq, answer, -⟩ := leases_commit {} 0 batch.client batch.pending
    { σ with inFlight := none, disk := some batch.snapshot }
  have stepped : σ.step {} (.persistDone 0 true) = some (_, .applied entries seq) :=
    Option.map_eq_some_iff.mpr ⟨batch, flying, Prod.ext rfl answer⟩
  obtain ⟨run, clock⟩ := forward_of_still 30 (.trace .start traced)
  obtain ⟨-, held, -, agrees⟩ := @lease_agreement {} _ _ _ run
  have holds := held ⟨"g", "bob", 30⟩ (by rw [told]; exact List.mem_cons_self) (by rw [clock]; decide)
  rw [clock] at holds
  exact ⟨history, σ, _, batch, entries, seq, run, told, holds, flying, stepped,
    (agrees 0 batch _ entries seq flying stepped).mpr (of_decide_eq_true standing)⟩

end Server

end MetadataGraph
