import MetadataGraph.Session.Op

namespace MetadataGraph

/-- Who holds an element, and until when. -/
structure Holder where
  clientId : String
  expiresAt : Nat
  deriving DecidableEq

/-- The map of one session inside `ClaimMap` and `LeaseMap`. -/
abbrev Holders := Dict Holder

namespace Holders

/-- `_prune`. -/
def prune (now : Nat) (held : Holders) : Holders := held.filter fun _ h => now < h.expiresAt

theorem getElem?_prune (now : Nat) (held : Holders) (id : String) :
    (held.prune now)[id]? = held[id]?.filter fun h => now < h.expiresAt := by
  rw [prune, Std.ExtTreeMap.getElem?_filter]
  cases held[id]? with
  | none => rfl
  | some holder => simp [Option.filter]

/-- Every hold of the one map is a hold of the other, until the same time. -/
def Within (fewer more : Holders) : Prop := ∀ (id : String) (holder : Holder),
  fewer[id]? = some holder → more[id]? = some holder

theorem Within.refl (held : Holders) : held.Within held := fun _ _ there => there

theorem Within.trans {few some many : Holders} (first : few.Within some) (second : some.Within many) :
    few.Within many := fun id holder there => second id holder (first id holder there)

theorem prune_within (now : Nat) (held : Holders) : (held.prune now).Within held := by
  intro id holder live
  rw [getElem?_prune, Option.filter_eq_some_iff] at live
  exact live.1

/-- `snapshot`, the holder of every element whose hold is live. -/
def snapshot (now : Nat) (held : Holders) : Dict String := (held.prune now).map fun _ h => h.clientId

/-- `ClaimMap.claim`: the last claim wins. -/
def claim (ttl now : Nat) (client : String) (ids : List String) (held : Holders) : Holders :=
  ids.foldl (fun held id => held.insert id ⟨client, now + ttl⟩) (held.prune now)

/-- `LeaseMap.acquire`: an id that another client holds stays as it is. -/
def acquire (ttl now : Nat) (client : String) (ids : List String) (held : Holders) : Holders :=
  ids.foldl (fun held id =>
    if held[id]?.any (·.clientId ≠ client) then held else held.insert id ⟨client, now + ttl⟩)
    (held.prune now)

/-- The loop of `release` over the pruned map, with the ids released so far. -/
def releaseEach (client : String) : List String → Holders × List String → Holders × List String
  | [], done => done
  | id :: ids, (held, released) =>
    if held[id]?.any (·.clientId = client) then releaseEach client ids (held.erase id, released ++ [id])
    else releaseEach client ids (held, released)

/-- `release`. -/
def release (now : Nat) (client : String) (ids : List String) (held : Holders) :
    Holders × List String :=
  releaseEach client ids (held.prune now, [])

/-- `release_all`, which does not prune. -/
def releaseAll (client : String) (held : Holders) : Holders × List String :=
  (held.filter fun _ h => h.clientId ≠ client, (held.filter fun _ h => h.clientId = client).keys)

theorem releaseAll_within (client : String) (held : Holders) : (held.releaseAll client).1.Within held := by
  intro id holder kept
  rw [releaseAll, Std.ExtTreeMap.getElem?_filter, Option.pfilter_eq_some_iff] at kept
  exact kept.choose

end Holders

/-- What the bus carries. The kinds without a sequence number that nothing looks into
(presence, viewer commands) are notices. -/
inductive Event (α : Type) where
  | op (client : String) (applied : Applied α)
  | elements (client op : String) (ids : List String)
  | notice (kind : String)
  | sessionDeleted
  | resync
  deriving DecidableEq

/-- `Subscription`. -/
structure Subscriber (α : Type) where
  id : Nat
  queue : List (Event α) := []
  deriving DecidableEq

/-- `_publish_to_subscriber`: a full queue is drained and gets the resync marker instead.
A bound of zero means no bound. -/
def Subscriber.put {α : Type} (queueMax : Nat) (event : Event α) (s : Subscriber α) : Subscriber α :=
  if queueMax = 0 ∨ s.queue.length < queueMax then { s with queue := s.queue ++ [event] }
  else { s with queue := [.resync] }

/-- `InProcessEventBus.publish` to every subscriber of the session. -/
def publish {α : Type} (queueMax : Nat) (event : Event α) (subs : List (Subscriber α)) :
    List (Subscriber α) :=
  subs.map (·.put queueMax event)

end MetadataGraph
