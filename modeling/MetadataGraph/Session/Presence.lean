import MetadataGraph.Lib.OrderedDict
import MetadataGraph.Lib.Runs
import MetadataGraph.Session.Grants

namespace MetadataGraph

open Runs

def presenceColors : List String :=
  ["#e6194b", "#3cb44b", "#4363d8", "#f58231", "#911eb4", "#46f0f0", "#f032e6", "#bcf60c", "#fabebe", "#008080"]

structure Member where
  clientId : String
  displayName : String
  color : String
  deriving DecidableEq

/-- The rosters by session. A session that is not there has an empty roster and its cursor at the first
color. -/
structure PresenceRegistry where
  rosters : String → OrderedDict String Member := fun _ => {}
  colorCursor : String → ℕ := fun _ => 0
  connCounts : String → OrderedDict String ℕ := fun _ => {}

/-- The loop of `_assign_color`: the first color from the cursor on that is not in use, and the cursor
after it. -/
def nextColor (used : List String) : ℕ → ℕ → Option String × ℕ
  | 0, cursor => (none, cursor)
  | tries + 1, cursor =>
    let idx := cursor % presenceColors.length
    let color := presenceColors.getD idx ""
    if color ∉ used then (some color, idx + 1) else nextColor used tries (idx + 1)

/-- `_assign_color`. When every color is in use, one is used again. -/
def assignColor (cursor : ℕ) (roster : OrderedDict String Member) : String × ℕ :=
  match nextColor (roster.values.map Member.color) presenceColors.length cursor with
  | (some color, cursor) => (color, cursor)
  | (none, cursor) => (presenceColors.getD (cursor % presenceColors.length) "", cursor % presenceColors.length + 1)

/-- The texts that stand for no display name. -/
def shownName (displayName : Option String) (guest : ℕ) : String :=
  match displayName with
  | none | some "" => "Guest-" ++ toString guest
  | some name => name

namespace PresenceRegistry

def join (session client : String) (displayName : Option String) (p : PresenceRegistry) : PresenceRegistry × Member :=
  let roster := p.rosters session
  let counts := p.connCounts session
  let assigned := match roster.get? client with
    | some existing => (existing.color, p.colorCursor session)
    | none => assignColor (p.colorCursor session) roster
  let member : Member :=
    { clientId := client, displayName := shownName displayName (roster.entries.length + 1), color := assigned.1 }
  ({ rosters := Function.update p.rosters session (roster.set client member)
     colorCursor := Function.update p.colorCursor session assigned.2
     connCounts := Function.update p.connCounts session (counts.set client ((counts.get? client).getD 0 + 1)) }, member)

def leave (session client : String) (p : PresenceRegistry) : PresenceRegistry × Option Member :=
  let counts := p.connCounts session
  let count := (counts.get? client).getD 0
  if count > 1 then ({ p with connCounts := Function.update p.connCounts session (counts.set client (count - 1)) }, none)
  else
    let p := { p with connCounts := Function.update p.connCounts session (counts.erase client) }
    let roster := p.rosters session
    if roster.entries = [] then (p, none)
    else
      let left := roster.erase client
      ({ p with
          rosters := Function.update p.rosters session left
          colorCursor := if left.entries = [] then Function.update p.colorCursor session 0 else p.colorCursor },
        roster.get? client)

end PresenceRegistry

/-- What is published when connections come and go. -/
inductive PresenceEvent
  | joined (session : String) (member : Member)
  | selectionReleased (session client : String) (ids : List String)
  | leaseReleased (session client : String) (ids : List String)
  | left (session client : String)
  deriving DecidableEq

/-- What is kept about the connected clients of all sessions. -/
structure Connections where
  presence : PresenceRegistry := {}
  claims : String → Holders := fun _ => ∅
  leases : String → Holders := fun _ => ∅

/-- A connection is opened or closed, or a client asks for something that changes the holds. The clock
reads `now`. -/
inductive ConnectionLabel
  | connect (session client : String) (displayName : Option String)
  | disconnect (session client : String)
  | claim (session client : String) (ids : List String) (now : ℕ)
  | releaseClaims (session client : String) (ids : List String) (now : ℕ)
  | acquire (session client : String) (ids : List String) (now : ℕ)
  | releaseLeases (session client : String) (ids : List String) (now : ℕ)
  | snapshot (session : String) (now : ℕ)

namespace Connections

def connect (session client : String) (displayName : Option String) (s : Connections) : Connections × List PresenceEvent :=
  let joined := s.presence.join session client displayName
  ({ s with presence := joined.1 }, [.joined session joined.2])

def disconnect (session client : String) (s : Connections) : Connections × List PresenceEvent :=
  let gone := s.presence.leave session client
  match gone.2 with
  | none => ({ s with presence := gone.1 }, [])
  | some _ =>
    let claims := (s.claims session).releaseAll client
    let leases := (s.leases session).releaseAll client
    ({ presence := gone.1
       claims := Function.update s.claims session claims.1
       leases := Function.update s.leases session leases.1 },
      (if claims.2 = [] then [] else [.selectionReleased session client claims.2]) ++
        (if leases.2 = [] then [] else [.leaseReleased session client leases.2]) ++ [.left session client])

def claimTtl : ℕ := 30

def leaseTtl : ℕ := 30

def step (s : Connections) : ConnectionLabel → Option (Connections × List PresenceEvent)
  | .connect session client displayName => some (s.connect session client displayName)
  | .disconnect session client => some (s.disconnect session client)
  | .claim session client ids now =>
    some ({ s with claims := Function.update s.claims session ((s.claims session).claim claimTtl now client ids) }, [])
  | .releaseClaims session client ids now =>
    some ({ s with claims := Function.update s.claims session ((s.claims session).release now client ids).1 }, [])
  | .acquire session client ids now =>
    some ({ s with leases := Function.update s.leases session ((s.leases session).acquire leaseTtl now client ids) }, [])
  | .releaseLeases session client ids now =>
    some ({ s with leases := Function.update s.leases session ((s.leases session).release now client ids).1 }, [])
  | .snapshot session now =>
    some ({ s with
      claims := Function.update s.claims session ((s.claims session).prune now)
      leases := Function.update s.leases session ((s.leases session).prune now) }, [])

end Connections

/-- How many connections of a client are open. A leave without an open connection counts for nothing. -/
def openConnections (session client : String) (history : List (ConnectionLabel × List PresenceEvent)) : ℕ :=
  history.foldl (fun n entry =>
    match entry.1 with
    | .connect session' client' _ => if session' = session ∧ client' = client then n + 1 else n
    | .disconnect session' client' => if session' = session ∧ client' = client then n - 1 else n
    | _ => n) 0

/-! ### Colors -/

theorem nextColor_cases (used : List String) (tries cursor : ℕ) :
    (∃ color, (nextColor used tries cursor).1 = some color ∧ color ∉ used) ∨
      (nextColor used tries cursor).1 = none ∧
        ∀ i < tries, presenceColors.getD ((cursor + i) % presenceColors.length) "" ∈ used := by
  induction tries generalizing cursor with
  | zero => exact .inr ⟨rfl, fun i less => absurd less (Nat.not_lt_zero i)⟩
  | succ tries ih =>
    rw [nextColor]
    split
    · exact .inl ⟨_, rfl, ‹_›⟩
    · rename_i taken
      rcases ih (cursor % presenceColors.length + 1) with found | ⟨none, all⟩
      · exact .inl found
      · refine .inr ⟨none, fun i less => ?_⟩
        cases i with
        | zero => exact not_not.mp taken
        | succ i =>
          have later := all i (by omega)
          rwa [Nat.add_assoc, Nat.mod_add_mod, Nat.add_comm 1 i] at later

/-- As long as a color is free, a free one is given. -/
theorem assignColor_free {cursor : ℕ} {roster : OrderedDict String Member} {color : String}
    (known : color ∈ presenceColors) (free : color ∉ roster.values.map Member.color) :
    (assignColor cursor roster).1 ∉ roster.values.map Member.color := by
  rw [assignColor]
  rcases nextColor_cases (roster.values.map Member.color) presenceColors.length cursor with ⟨found, given, unused⟩ | ⟨-, all⟩
  · split
    · rename_i other _ same
      rw [same] at given
      exact Option.some.inj given ▸ unused
    · rename_i _ same
      rw [same] at given
      cases given
  · obtain ⟨i, inside, rfl⟩ := List.mem_iff_getElem.mp known
    have ten : presenceColors.length = 10 := rfl
    -- The tries go once around the palette.
    obtain ⟨j, less, same⟩ : ∃ j < presenceColors.length, (cursor + j) % presenceColors.length = i := by
      rw [ten] at inside ⊢
      exact ⟨(i + 10 - cursor % 10) % 10, by omega, by omega⟩
    have taken := all j less
    rw [same, List.getD_eq_getElem?_getD, List.getElem?_eq_getElem inside] at taken
    exact absurd taken free

/-! ### Counts -/

namespace PresenceRegistry

variable (p : PresenceRegistry) (session client session' client' : String)

def count (p : PresenceRegistry) (session client : String) : ℕ := ((p.connCounts session).get? client).getD 0

/-- The client is in the roster. -/
def Present (p : PresenceRegistry) (session client : String) : Prop := client ∈ (p.rosters session).keys

theorem count_join (displayName : Option String) : (p.join session client displayName).1.count session' client' =
    if session' = session ∧ client' = client then p.count session client + 1 else p.count session' client' := by
  rw [join, count]
  dsimp only
  by_cases here : session' = session
  · obtain rfl := here
    rw [Function.update_self, OrderedDict.get?_set]
    by_cases same : client' = client
    · rw [if_pos same, if_pos ⟨rfl, same⟩]
      rfl
    · rw [if_neg same, if_neg fun both => same both.2]
      rfl
  · rw [Function.update_of_ne here, if_neg fun both => here both.1]
    rfl

theorem present_join (displayName : Option String) : (p.join session client displayName).1.Present session' client' ↔
    (session' = session ∧ client' = client) ∨ p.Present session' client' := by
  rw [join, Present]
  dsimp only
  by_cases here : session' = session
  · obtain rfl := here
    rw [Function.update_self, OrderedDict.mem_keys_set, and_iff_right rfl]
    rfl
  · rw [Function.update_of_ne here, or_iff_right fun both => here both.1]
    rfl

theorem count_leave : (p.leave session client).1.count session' client' =
    if session' = session ∧ client' = client then p.count session client - 1 else p.count session' client' := by
  have others : ∀ {d : OrderedDict String ℕ} (q : PresenceRegistry), q.connCounts = Function.update p.connCounts session d →
      (d.get? client).getD 0 = p.count session client - 1 → (∀ other ≠ client, d.get? other = (p.connCounts session).get? other) →
      q.count session' client' =
        if session' = session ∧ client' = client then p.count session client - 1 else p.count session' client' := by
    intro d q counts own rest
    rw [count, counts]
    by_cases here : session' = session
    · obtain rfl := here
      rw [Function.update_self]
      by_cases same : client' = client
      · rw [if_pos ⟨rfl, same⟩, same, own]
      · rw [if_neg fun both => same both.2, rest _ same]
        rfl
    · rw [Function.update_of_ne here, if_neg fun both => here both.1]
      rfl
  rw [leave]
  dsimp only
  split
  · refine others _ rfl ?_ fun other differs => ?_
    · rw [OrderedDict.get?_set, if_pos rfl]
      rfl
    · rw [OrderedDict.get?_set, if_neg differs]
  · rename_i few
    have gone : (((p.connCounts session).erase client).get? client).getD 0 = p.count session client - 1 := by
      rw [OrderedDict.get?_erase, if_pos rfl]
      exact (Nat.sub_eq_zero_of_le (not_lt.mp few)).symm
    have rest : ∀ other ≠ client, ((p.connCounts session).erase client).get? other = (p.connCounts session).get? other :=
      fun other differs => by rw [OrderedDict.get?_erase, if_neg differs]
    split
    · exact others _ rfl gone rest
    · exact others _ rfl gone rest

theorem present_leave : (p.leave session client).1.Present session' client' ↔
    p.Present session' client' ∧ ¬ (session' = session ∧ client' = client ∧ p.count session client ≤ 1) := by
  rw [leave]
  dsimp only
  split
  · rename_i several
    rw [and_iff_left fun no => absurd no.2.2 (not_le.mpr several)]
    rfl
  · rename_i few
    have last : p.count session client ≤ 1 := not_lt.mp few
    split
    · rename_i empty
      rw [Present, Present]
      refine (and_iff_left_of_imp ?_).symm
      rintro member ⟨rfl, -, -⟩
      rw [OrderedDict.keys, empty] at member
      cases member
    · rw [Present, Present]
      dsimp only
      by_cases here : session' = session
      · obtain rfl := here
        rw [Function.update_self, OrderedDict.mem_keys_erase, and_comm, and_iff_right rfl, and_iff_left last]
      · rw [Function.update_of_ne here, and_iff_left fun no => here no.1]

/-- Only the last leave of a client that is in the roster gives a member back. -/
theorem leave_eq : (p.leave session client).2 = if p.count session client > 1 then none else (p.rosters session).get? client := by
  rw [leave]
  dsimp only
  split
  · rename_i several
    exact (if_pos several).symm
  · rename_i few
    have last : ¬ p.count session client > 1 := few
    rw [if_neg last]
    split
    · rename_i empty
      rw [OrderedDict.get?, empty]
      rfl
    · rfl

end PresenceRegistry

/-! ### Runs -/

theorem openConnections_concat (session client : String) (history : List (ConnectionLabel × List PresenceEvent))
    (label : ConnectionLabel) (events : List PresenceEvent) :
    openConnections session client (history ++ [(label, events)]) =
      match label with
      | .connect session' client' _ => if session' = session ∧ client' = client then openConnections session client history + 1
          else openConnections session client history
      | .disconnect session' client' => if session' = session ∧ client' = client then openConnections session client history - 1
          else openConnections session client history
      | _ => openConnections session client history := by
  rw [openConnections, List.foldl_concat]
  cases label <;> rfl

namespace Connections

/-- The counts are right, and the roster lists who has a connection. -/
structure Counted (history : List (ConnectionLabel × List PresenceEvent)) (s : Connections) : Prop where
  count : ∀ session client, s.presence.count session client = openConnections session client history
  present : ∀ session client, s.presence.Present session client ↔ 0 < s.presence.count session client

theorem disconnect_presence (session client : String) (s : Connections) :
    (s.disconnect session client).1.presence = (s.presence.leave session client).1 := by
  rw [disconnect]
  dsimp only
  split <;> rfl

theorem Counted.step {history : List (ConnectionLabel × List PresenceEvent)} {s t : Connections} {label : ConnectionLabel}
    {events : List PresenceEvent} (counted : Counted history s) (taken : s.step label = some (t, events)) :
    Counted (history ++ [(label, events)]) t := by
  have quiet : t.presence = s.presence → (∀ session client,
      openConnections session client (history ++ [(label, events)]) = openConnections session client history) →
        Counted (history ++ [(label, events)]) t := by
    intro same none
    constructor
    · intro session client
      rw [same, none, counted.count]
    · rw [same]
      exact counted.present
  cases label with
  | connect session client displayName =>
    have presence : t.presence = (s.presence.join session client displayName).1 := by
      rw [← (Prod.mk.inj (Option.some.inj taken)).1]
    constructor
    · intro session' client'
      rw [presence, PresenceRegistry.count_join, openConnections_concat, counted.count, counted.count]
      dsimp only
      rw [if_congr (and_congr eq_comm eq_comm) rfl rfl]
      split
      · rename_i same
        rw [same.1, same.2]
      · rfl
    · intro session' client'
      rw [presence, PresenceRegistry.present_join, PresenceRegistry.count_join, counted.present]
      split
      · rename_i same
        exact iff_of_true (.inl same) (Nat.succ_pos _)
      · rename_i other
        exact or_iff_right other
  | disconnect session client =>
    have presence : t.presence = (s.presence.leave session client).1 :=
      (congrArg Connections.presence (Prod.mk.inj (Option.some.inj taken)).1).symm.trans (disconnect_presence ..)
    constructor
    · intro session' client'
      rw [presence, PresenceRegistry.count_leave, openConnections_concat, counted.count, counted.count]
      dsimp only
      rw [if_congr (and_congr eq_comm eq_comm) rfl rfl]
      split
      · rename_i same
        rw [same.1, same.2]
      · rfl
    · intro session' client'
      rw [presence, PresenceRegistry.present_leave, PresenceRegistry.count_leave, counted.present]
      split
      · rename_i same
        rw [same.1, same.2, eq_self, eq_self, true_and, true_and]
        omega
      · rename_i other
        exact and_iff_left fun no => other ⟨no.1, no.2.1⟩
  | claim => cases taken; exact quiet rfl fun _ _ => openConnections_concat ..
  | releaseClaims => cases taken; exact quiet rfl fun _ _ => openConnections_concat ..
  | acquire => cases taken; exact quiet rfl fun _ _ => openConnections_concat ..
  | releaseLeases => cases taken; exact quiet rfl fun _ _ => openConnections_concat ..
  | snapshot => cases taken; exact quiet rfl fun _ _ => openConnections_concat ..

theorem counted_of_run {history : List (ConnectionLabel × List PresenceEvent)} {s : Connections}
    (run : Run step (fun _ _ _ => True) {} history s) : Counted history s := by
  refine Run.invariant Counted ⟨fun session client => rfl, fun session client => ?_⟩ ?_ run
  · exact iff_of_false (fun member => by cases member) (Nat.lt_irrefl 0)
  · intro history s label t output counted _ taken
    exact counted.step taken

/-- All that a client holds is taken from it, and nothing else is. -/
def Releases (client : String) (ids : List String) (before after : Holders) : Prop :=
  (∀ id, id ∈ ids ↔ before[id]?.any (·.clientId = client) = true) ∧
    ∀ id : String, after[id]? = before[id]?.filter (·.clientId ≠ client)

theorem releases_releaseAll (client : String) (held : Holders) :
    Releases client (held.releaseAll client).2 held (held.releaseAll client).1 := by
  refine ⟨fun id => ?_, Holders.getElem?_releaseAll client held⟩
  rw [Holders.releaseAll, Std.ExtTreeMap.mem_keys, Std.ExtTreeMap.mem_iff_isSome_getElem?, Std.ExtTreeMap.getElem?_filter]
  cases held[id]? with
  | none => exact iff_of_false Bool.false_ne_true Bool.false_ne_true
  | some holder => by_cases same : holder.clientId = client <;> simp [Option.pfilter, same]

/-- What is published in a step, and what is held after it. -/
def Announces (history : List (ConnectionLabel × List PresenceEvent)) (s t : Connections) :
    ConnectionLabel → List PresenceEvent → Prop
  | .connect session client _, events =>
    ∃ member, events = [.joined session member] ∧ member.clientId = client ∧
      (t.presence.rosters session).get? client = some member ∧ t.claims = s.claims ∧ t.leases = s.leases ∧
      (openConnections session client history = 0 →
        (∃ color ∈ presenceColors, color ∉ (s.presence.rosters session).values.map Member.color) →
          member.color ∉ (s.presence.rosters session).values.map Member.color)
  | .disconnect session client, events =>
    if openConnections session client history = 1 then
      ∃ claimed leased, events = (if claimed = [] then [] else [.selectionReleased session client claimed]) ++
          (if leased = [] then [] else [.leaseReleased session client leased]) ++ [.left session client] ∧
        Releases client claimed (s.claims session) (t.claims session) ∧
        Releases client leased (s.leases session) (t.leases session) ∧
        ∀ other ≠ session, t.claims other = s.claims other ∧ t.leases other = s.leases other
    else events = [] ∧ t.claims = s.claims ∧ t.leases = s.leases
  | _, events => events = []

theorem Counted.announces {history : List (ConnectionLabel × List PresenceEvent)} {s t : Connections} {label : ConnectionLabel}
    {events : List PresenceEvent} (counted : Counted history s) (taken : s.step label = some (t, events)) :
    Announces history s t label events := by
  cases label with
  | connect session client displayName =>
    cases taken
    refine ⟨_, rfl, rfl, ?_, rfl, rfl, fun first free => ?_⟩
    · rw [PresenceRegistry.join]
      dsimp only
      rw [Function.update_self, OrderedDict.get?_set, if_pos rfl]
    · have absent : (s.presence.rosters session).get? client = none := by
        rw [OrderedDict.get?_eq_none]
        intro member
        have some := (counted.present session client).mp member
        rw [counted.count, first] at some
        exact absurd some (Nat.lt_irrefl 0)
      obtain ⟨color, known, unused⟩ := free
      rw [PresenceRegistry.join]
      dsimp only
      rw [absent]
      exact assignColor_free known unused
  | disconnect session client =>
    have left := PresenceRegistry.leave_eq s.presence session client
    have result : s.disconnect session client = (t, events) := Option.some.inj taken
    rw [Announces, ← counted.count]
    split
    · rename_i last
      obtain ⟨member, there⟩ := OrderedDict.mem_keys.mp ((counted.present session client).mpr (by rw [last]; exact Nat.one_pos))
      rw [last, if_neg (Nat.lt_irrefl 1), there] at left
      rw [disconnect] at result
      dsimp only at result
      rw [left] at result
      cases result
      refine ⟨_, _, rfl, ?_, ?_, fun other differs => ⟨Function.update_of_ne differs _ _, Function.update_of_ne differs _ _⟩⟩
      · simpa only [Function.update_self] using releases_releaseAll client (s.claims session)
      · simpa only [Function.update_self] using releases_releaseAll client (s.leases session)
    · rename_i others
      have stays : (s.presence.leave session client).2 = none := by
        rw [left]
        split
        · rfl
        · rename_i few
          rw [OrderedDict.get?_eq_none]
          intro member
          have some := (counted.present session client).mp member
          omega
      rw [disconnect] at result
      dsimp only at result
      rw [stays] at result
      cases result
      exact ⟨rfl, rfl, rfl⟩
  | claim => cases taken; rfl
  | releaseClaims => cases taken; rfl
  | acquire => cases taken; rfl
  | releaseLeases => cases taken; rfl
  | snapshot => cases taken; rfl

end Connections

/-- The roster lists the clients with an open connection. A join is announced for each connection, and
the first gives a free color as long as there is one. A leave is announced for the last connection only,
with the release of all that the client holds. -/
theorem presence_counted {history : List (ConnectionLabel × List PresenceEvent)} {s : Connections}
    (run : Run Connections.step (fun _ _ _ => True) {} history s) :
    (∀ session client, s.presence.Present session client ↔ 0 < openConnections session client history) ∧
      ∀ {label t events}, s.step label = some (t, events) → Connections.Announces history s t label events := by
  have counted := Connections.counted_of_run run
  refine ⟨fun session client => ?_, fun taken => counted.announces taken⟩
  rw [counted.present, counted.count]

/-- A client that opens a second connection is announced again. -/
theorem second_join_announced :
    ∃ (history : List (ConnectionLabel × List PresenceEvent)) (s : Connections),
      Run Connections.step (fun _ _ _ => True) {} history s ∧ openConnections "s" "c" history = 1 ∧
      ∃ t member, s.step (.connect "s" "c" (some "Ann")) = some (t, [.joined "s" member]) := by
  have first : Connections.step {} (.connect "s" "c" (some "Ann")) = some (Connections.connect "s" "c" (some "Ann") {}) := rfl
  exact ⟨_, _, .next .start trivial first, rfl, _, _, rfl⟩

theorem presence_counted_second :
    ∃ (history : List (ConnectionLabel × List PresenceEvent)) (s : Connections),
      Run Connections.step (fun _ _ _ => True) {} history s ∧ history.length = 3 ∧ s.presence.Present "s" "c" ∧
        ∀ {t events}, s.step (.disconnect "s" "c") = some (t, events) → PresenceEvent.left "s" "c" ∈ events := by
  have run : Run Connections.step (fun _ _ _ => True) {} _ _ :=
    .next (.next (.next .start trivial (show Connections.step {} (.connect "s" "c" none) = some (_, _) from rfl)) trivial
      (show Connections.step _ (.connect "s" "c" none) = some (_, _) from rfl)) trivial
      (show Connections.step _ (.disconnect "s" "c") = some (_, _) from rfl)
  obtain ⟨listed, announced⟩ := presence_counted run
  refine ⟨_, _, run, rfl, (listed "s" "c").mpr Nat.one_pos, fun taken => ?_⟩
  have said := announced taken
  rw [Connections.Announces, if_pos (show openConnections "s" "c" _ = 1 from rfl)] at said
  obtain ⟨claimed, leased, rfl, -⟩ := said
  exact List.mem_append_right _ (List.mem_singleton_self _)

end MetadataGraph
