import MetadataGraph.Client.Delivery
import MetadataGraph.Session.Batch

namespace MetadataGraph.Client

open Runs

/-- A direct `edit_lease_acquired` POST: unanswered until the server has processed it, then
with the ids that it granted. -/
structure DirectPost where
  ids : List String
  granted : Option (List String) := none
  deriving DecidableEq

/-- A connected client, its direct POSTs and the server's lease map. The queued ops are the
`edit_lease_released` ops; `landed` tells whether the server has processed the batch in flight. -/
structure Editing where
  client : Outbound (List String) := { ready := true }
  editIntent : List String := []
  activeEditIds : List String := []
  direct : List DirectPost := []
  landed : Bool := false
  leases : Dict String := ∅

inductive EditAction where
  | beginEditing (elementIds : List String)
  | endEditing (elementIds : List String)
  | renewTimer
  | serveDirect (i : Nat)
  | answerDirect (i : Nat)
  | flushTimer
  | flush
  | serveBatch
  | answerBatch
  | readBody

namespace Editing

/-- `_commitGranted`. -/
def commitGranted (granted : List String) (σ : Editing) : Editing :=
  let toReleaseAgain := granted.filter (· ∉ σ.editIntent)
  { σ with activeEditIds := union σ.activeEditIds (granted.filter (· ∈ σ.editIntent))
           client := if toReleaseAgain.isEmpty then σ.client else σ.client.enqueue [toReleaseAgain] }

/-- `beginEditing` up to the direct POST. -/
def beginEditing (elementIds : List String) (σ : Editing) : Editing :=
  let ids := (elementIds.filter (· ≠ "")).eraseDups
  if ids.isEmpty then σ
  else { σ with editIntent := union σ.editIntent ids, direct := σ.direct ++ [{ ids := ids }] }

/-- `endEditing`. -/
def endEditing (requested : List String) (σ : Editing) : Editing :=
  let ids := requested.filter (· ∈ σ.activeEditIds)
  let σ := { σ with editIntent := removeAll σ.editIntent requested }
  if ids.isEmpty then σ
  else { σ with activeEditIds := removeAll σ.activeEditIds ids, client := σ.client.enqueue [ids] }

/-- The server on an `edit_lease_acquired` op. -/
def acquire (me : String) (ids : List String) (leases : Dict String) : Dict String × List String :=
  let (leases, granted, _) := grantEach me ids.eraseDups (leases, [], ∅)
  (leases, granted)

/-- The server on a batch of `edit_lease_released` ops. -/
def releaseBatch (me : String) (batch : List (QueuedOp (List String))) (leases : Dict String) : Dict String :=
  batch.foldl (fun leases o => (releaseEach me o.op.eraseDups (leases, [])).1) leases

/-- One step of the client `me` or of the server, when no request fails. -/
def step (size : List String → Nat) (me : String) (σ : Editing) : EditAction → Option (Editing × Unit)
  | .beginEditing elementIds => some (σ.beginEditing elementIds, ())
  | .endEditing elementIds => some (σ.endEditing elementIds, ())
  | .renewTimer => if σ.activeEditIds.isEmpty then none else some (σ.beginEditing σ.activeEditIds, ())
  | .serveDirect i => match σ.direct[i]? with
    | some ⟨ids, none⟩ =>
      let (leases, granted) := acquire me ids σ.leases
      some ({ σ with leases := leases, direct := σ.direct.set i ⟨ids, some granted⟩ }, ())
    | _ => none
  | .answerDirect i => match σ.direct[i]? with
    | some ⟨_, some granted⟩ => some (commitGranted granted { σ with direct := σ.direct.eraseIdx i }, ())
    | _ => none
  | .flushTimer => (σ.client.step size .flushTimer).map fun next => ({ σ with client := next.1 }, ())
  | .flush => (σ.client.step size (.flush true)).map fun next => ({ σ with client := next.1 }, ())
  | .serveBatch => match σ.client.suspended with
    | some (.response batch) =>
      if σ.landed then none
      else some ({ σ with leases := releaseBatch me batch σ.leases, landed := true }, ())
    | _ => none
  | .answerBatch =>
    if σ.landed then (σ.client.step size (.settled (.response 200))).map fun next => ({ σ with client := next.1 }, ())
    else none
  | .readBody => (σ.client.step size (.body true [])).map fun next =>
      ({ σ with client := next.1, landed := false }, ())

/-- The releases that the server has not processed yet. -/
def unserved (σ : Editing) : List (QueuedOp (List String)) :=
  if σ.landed then σ.client.queue else σ.client.pending

/-- A release of the id is on its way. -/
def Releasing (σ : Editing) (id : String) : Prop := ∃ o ∈ σ.unserved, id ∈ o.op

/-- An acquisition of the id is on its way to the server. -/
def Acquiring (σ : Editing) (id : String) : Prop := ∃ post ∈ σ.direct, post.granted = none ∧ id ∈ post.ids

/-- No release of an id that an edit begins with is on its way. -/
def Unhurried (σ : Editing) : EditAction → Prop
  | .beginEditing elementIds => ∀ id ∈ elementIds, ¬σ.Releasing id
  | _ => True

/-- Nothing is queued, and every request has settled. -/
structure Settled (σ : Editing) : Prop where
  direct : σ.direct = []
  queue : σ.client.queue = []
  suspended : σ.client.suspended = none

/-! ### The server's answers -/

variable {me : String}

/-- Only the client itself holds leases. -/
def Own (me : String) (leases : Dict String) : Prop :=
  ∀ id holder : String, leases[id]? = some holder → holder = me

/-- Where only the client itself holds leases, it is granted all it asks for. -/
theorem grantEach_own (ids : List String) {leases : Dict String} (granted : List String) (denied : Dict String)
    (own : Own me leases) :
    ∃ after, grantEach me ids (leases, granted, denied) = (after, granted ++ ids, denied) ∧
      ∀ id : String, after[id]? = if id ∈ ids then some me else leases[id]? := by
  induction ids generalizing leases granted with
  | nil => exact ⟨leases, by simp [grantEach], by simp⟩
  | cons first ids ih =>
    have next : ∀ id : String, (leases.insert first me)[id]? = if first = id then some me else leases[id]? := by
      intro id
      simp only [Std.ExtTreeMap.getElem?_insert, Std.LawfulEqCmp.compare_eq_iff_eq]
    have kept : Own me (leases.insert first me) := by
      intro id holder held
      rw [next] at held
      split at held
      · exact (Option.some.inj held).symm
      · exact own id holder held
    obtain ⟨after, granted, held⟩ := ih (granted ++ [first]) kept
    refine ⟨after, ?_, fun id => ?_⟩
    · rw [List.append_assoc, List.singleton_append] at granted
      rw [grantEach, ← granted]
      cases before : leases[first]? with
      | none => rfl
      | some holder => simp [own first holder before]
    · rw [held, next]
      grind

theorem releaseEach_own (ids : List String) {leases : Dict String} (released : List String)
    (own : Own me leases) (id : String) :
    (releaseEach me ids (leases, released)).1[id]? = if id ∈ ids then none else leases[id]? := by
  induction ids generalizing leases released with
  | nil => simp [releaseEach]
  | cons first ids ih =>
    have next : ∀ id : String, (leases.erase first)[id]? = if first = id then none else leases[id]? := by
      intro id
      simp only [Std.ExtTreeMap.getElem?_erase, Std.LawfulEqCmp.compare_eq_iff_eq]
    rw [releaseEach]
    split
    · rw [ih _ fun other holder held => own other holder (by
        rw [next] at held
        split at held
        · cases held
        · exact held), next]
      grind
    · rename_i unheld
      rw [ih _ own]
      have absent : leases[first]? = none := by
        cases before : leases[first]? with
        | none => rfl
        | some holder => exact absurd (by rw [before, own first holder before]) unheld
      grind

theorem releaseBatch_own (batch : List (QueuedOp (List String))) {leases : Dict String}
    (own : Own me leases) (id : String) :
    (releaseBatch me batch leases)[id]? = if ∃ o ∈ batch, id ∈ o.op then none else leases[id]? := by
  induction batch generalizing leases with
  | nil => simp [releaseBatch]
  | cons o batch ih =>
    have first := releaseEach_own o.op.eraseDups [] own
    rw [releaseBatch, List.foldl_cons]
    change (releaseBatch me batch _)[id]? = _
    rw [ih fun other holder held => own other holder (by
      rw [first] at held
      split at held
      · cases held
      · exact held), first]
    by_cases later : ∃ p ∈ batch, id ∈ p.op
    · simp [later]
    · by_cases here : id ∈ o.op <;> simp [later, here]

/-! ### What holds between the steps -/

/-- What the client wants, what it tracks and what the server holds, against what is on its way. -/
structure Agrees (me : String) (σ : Editing) : Prop where
  own : Own me σ.leases
  consistent : σ.client.Consistent
  waiting : σ.client.suspended = none → σ.landed = false
  answered : ∀ batch, σ.client.suspended = some (.ackBody batch) → σ.landed = true
  undropped : ∀ batch status, σ.client.suspended ≠ some (.dropBody batch status)
  granted : ∀ post ∈ σ.direct, ∀ ids, post.granted = some ids → ∀ id ∈ post.ids, id ∈ ids
  intended : ∀ id ∈ σ.activeEditIds, id ∈ σ.editIntent
  unreleased : ∀ id ∈ σ.editIntent, ¬σ.Releasing id
  acquired : ∀ id ∈ σ.editIntent, σ.leases[id]? = some me ∨ σ.Acquiring id
  known : ∀ id, σ.leases[id]? = some me →
    id ∈ σ.activeEditIds ∨ σ.Releasing id ∨ ∃ post ∈ σ.direct, id ∈ post.ids

variable {size : List String → Nat} {σ τ : Editing}

theorem agrees_start (me : String) : ({} : Editing).Agrees me where
  own := by simp [Own]
  consistent := ⟨rfl, rfl⟩
  waiting _ := rfl
  answered := by simp
  undropped := by simp
  granted := by simp
  intended := by simp
  unreleased := by simp
  acquired := by simp
  known := by simp

/-- Queueing a release makes its ids be released, and nothing else. -/
theorem releasing_enqueue (ids : List String) (id : String) (active intent : List String) (direct : List DirectPost) :
    Releasing { σ with client := σ.client.enqueue [ids], activeEditIds := active, editIntent := intent, direct := direct }
      id ↔ σ.Releasing id ∨ id ∈ ids := by
  have appended : unserved { σ with client := σ.client.enqueue [ids], activeEditIds := active
                                    editIntent := intent, direct := direct } =
      σ.unserved ++ [⟨σ.client.made, ids⟩] := by
    simp only [unserved]
    split
    · rfl
    · simp [Outbound.pending, Outbound.reporting, Outbound.enqueue, Outbound.scheduleFlush, numberFrom]
  simp [Releasing, appended, or_and_right, exists_or]

theorem Agrees.beginEditing (agrees : σ.Agrees me) {elementIds : List String}
    (unhurried : ∀ id ∈ elementIds, ¬σ.Releasing id) : (σ.beginEditing elementIds).Agrees me := by
  unfold Editing.beginEditing
  dsimp only
  split
  · exact agrees
  · generalize asked : (elementIds.filter (· ≠ "")).eraseDups = ids
    have among : ∀ id ∈ ids, id ∈ elementIds := by
      intro id member
      rw [← asked, List.mem_eraseDups] at member
      exact (List.mem_filter.mp member).1
    obtain ⟨own, consistent, waiting, answered, undropped, granted, intended, unreleased, acquired, known⟩ := agrees
    refine ⟨own, consistent, waiting, answered, undropped, ?_, fun id active => ?_, fun id wanted => ?_,
      fun id wanted => ?_, fun id held => ?_⟩
    · intro post member answers answer
      rcases List.mem_append.mp member with old | new
      · exact granted post old answers answer
      · rw [List.mem_singleton.mp new] at answer
        cases answer
    · exact mem_union.mpr (Or.inl (intended id active))
    · rcases mem_union.mp wanted with old | new
      · exact unreleased id old
      · exact unhurried id (among id new)
    · rcases mem_union.mp wanted with old | new
      · rcases acquired id old with held | ⟨post, member, sent⟩
        · exact Or.inl held
        · exact Or.inr ⟨post, List.mem_append_left _ member, sent⟩
      · exact Or.inr ⟨{ ids := ids }, by simp, rfl, new⟩
    · rcases known id held with active | releasing | ⟨post, member, named⟩
      · exact Or.inl active
      · exact Or.inr (Or.inl releasing)
      · exact Or.inr (Or.inr ⟨post, List.mem_append_left _ member, named⟩)

theorem Agrees.endEditing (agrees : σ.Agrees me) (requested : List String) : (σ.endEditing requested).Agrees me := by
  obtain ⟨own, consistent, waiting, answered, undropped, granted, intended, unreleased, acquired, known⟩ := agrees
  unfold Editing.endEditing
  generalize asked : requested.filter (· ∈ σ.activeEditIds) = ids
  have listed : ∀ id, id ∈ ids ↔ id ∈ requested ∧ id ∈ σ.activeEditIds := by
    intro id
    rw [← asked, List.mem_filter, decide_eq_true_eq]
  dsimp only
  split
  · rename_i none
    have idle : ∀ id ∈ σ.activeEditIds, id ∉ requested := by
      intro id active member
      have := (listed id).mpr ⟨member, active⟩
      rw [List.isEmpty_iff.mp none] at this
      cases this
    exact ⟨own, consistent, waiting, answered, undropped, granted,
      fun id active => mem_removeAll.mpr ⟨intended id active, idle id active⟩,
      fun id wanted => unreleased id (mem_removeAll.mp wanted).1,
      fun id wanted => acquired id (mem_removeAll.mp wanted).1, known⟩
  · refine ⟨own, consistent, waiting, answered, undropped, granted, fun id active => ?_, fun id wanted => ?_,
      fun id wanted => acquired id (mem_removeAll.mp wanted).1, fun id held => ?_⟩
    · obtain ⟨active, kept⟩ := mem_removeAll.mp active
      exact mem_removeAll.mpr ⟨intended id active, fun member => kept ((listed id).mpr ⟨member, active⟩)⟩
    · obtain ⟨wanted, kept⟩ := mem_removeAll.mp wanted
      rw [releasing_enqueue, not_or]
      exact ⟨unreleased id wanted, fun member => kept ((listed id).mp member).1⟩
    · rw [releasing_enqueue]
      by_cases ended : id ∈ ids
      · exact Or.inr (Or.inl (Or.inr ended))
      · rcases known id held with active | releasing | unresolved
        · exact Or.inl (mem_removeAll.mpr ⟨active, ended⟩)
        · exact Or.inr (Or.inl (Or.inl releasing))
        · exact Or.inr (Or.inr unresolved)

theorem Agrees.serveDirect (agrees : σ.Agrees me) {i : Nat} {ids : List String} (sent : σ.direct[i]? = some ⟨ids, none⟩) :
    Agrees me { σ with leases := (acquire me ids σ.leases).1
                       direct := σ.direct.set i ⟨ids, some (acquire me ids σ.leases).2⟩ } := by
  obtain ⟨own, consistent, waiting, answered, undropped, granted, intended, unreleased, acquired, known⟩ := agrees
  obtain ⟨after, answer, held⟩ := grantEach_own ids.eraseDups [] ∅ own
  have all : acquire me ids σ.leases = (after, ids.eraseDups) := by simp [acquire, answer]
  simp only [List.mem_eraseDups] at held
  rw [all]
  have changed : ∀ post ∈ σ.direct.set i ⟨ids, some ids.eraseDups⟩,
      post ∈ σ.direct ∨ post = ⟨ids, some ids.eraseDups⟩ := fun post member => List.mem_or_eq_of_mem_set member
  have present : (⟨ids, some ids.eraseDups⟩ : DirectPost) ∈ σ.direct.set i ⟨ids, some ids.eraseDups⟩ := by
    obtain ⟨inside, -⟩ := List.getElem?_eq_some_iff.mp sent
    exact List.mem_set inside _
  have others : ∀ post ∈ σ.direct, post ∈ σ.direct.set i ⟨ids, some ids.eraseDups⟩ ∨ post = ⟨ids, none⟩ := by
    intro post member
    obtain ⟨j, place⟩ := List.mem_iff_getElem?.mp member
    by_cases same : i = j
    · subst same
      exact Or.inr (Option.some.inj (place.symm.trans sent))
    · exact Or.inl (List.mem_iff_getElem?.mpr ⟨j, by rw [List.getElem?_set_ne same, place]⟩)
  refine ⟨fun id holder lease => ?_, consistent, waiting, answered, undropped, fun post member answers answer => ?_,
    intended, unreleased, fun id wanted => ?_, fun id lease => ?_⟩
  · rw [held] at lease
    split at lease
    · exact (Option.some.inj lease).symm
    · exact own id holder lease
  · rcases changed post member with old | rfl
    · exact granted post old answers answer
    · cases answer
      exact fun id named => List.mem_eraseDups.mpr named
  · rw [held]
    by_cases named : id ∈ ids
    · exact Or.inl (if_pos named)
    · rw [if_neg named]
      rcases acquired id wanted with lease | ⟨post, member, unserved, asked⟩
      · exact Or.inl lease
      · rcases others post member with kept | rfl
        · exact Or.inr ⟨post, kept, unserved, asked⟩
        · exact absurd asked named
  · rw [held] at lease
    by_cases named : id ∈ ids
    · exact Or.inr (Or.inr ⟨_, present, named⟩)
    · rw [if_neg named] at lease
      rcases known id lease with active | releasing | ⟨post, member, asked⟩
      · exact Or.inl active
      · exact Or.inr (Or.inl releasing)
      · rcases others post member with kept | rfl
        · exact Or.inr (Or.inr ⟨post, kept, asked⟩)
        · exact absurd asked named

theorem Agrees.commitGranted (agrees : σ.Agrees me) {i : Nat} {ids granted : List String}
    (served : σ.direct[i]? = some ⟨ids, some granted⟩) :
    (Editing.commitGranted granted { σ with direct := σ.direct.eraseIdx i }).Agrees me := by
  obtain ⟨own, consistent, waiting, answered, undropped, faithful, intended, unreleased, acquired, known⟩ := agrees
  have all := faithful _ (List.mem_of_getElem? served) granted rfl
  have others : ∀ post ∈ σ.direct, post ∈ σ.direct.eraseIdx i ∨ post = ⟨ids, some granted⟩ := by
    intro post member
    obtain ⟨j, place⟩ := List.mem_iff_getElem?.mp member
    by_cases same : j = i
    · subst same
      exact Or.inr (Option.some.inj (place.symm.trans served))
    · exact Or.inl (List.mem_eraseIdx_iff_getElem?.mpr ⟨j, same, place⟩)
  have held : ∀ id, σ.leases[id]? = some me → id ∈ granted ∨ id ∈ σ.activeEditIds ∨ σ.Releasing id ∨
      ∃ post ∈ σ.direct.eraseIdx i, id ∈ post.ids := by
    intro id lease
    rcases known id lease with active | releasing | ⟨post, member, named⟩
    · exact Or.inr (Or.inl active)
    · exact Or.inr (Or.inr (Or.inl releasing))
    · rcases others post member with kept | rfl
      · exact Or.inr (Or.inr (Or.inr ⟨post, kept, named⟩))
      · exact Or.inl (all id named)
  have pursued : ∀ id ∈ σ.editIntent, σ.leases[id]? = some me ∨
      ∃ post ∈ σ.direct.eraseIdx i, post.granted = none ∧ id ∈ post.ids := by
    intro id wanted
    rcases acquired id wanted with lease | ⟨post, member, unserved, named⟩
    · exact Or.inl lease
    · rcases others post member with kept | rfl
      · exact Or.inr ⟨post, kept, unserved, named⟩
      · cases unserved
  have tracked : ∀ id ∈ union σ.activeEditIds (granted.filter (· ∈ σ.editIntent)), id ∈ σ.editIntent := by
    intro id active
    rcases mem_union.mp active with old | new
    · exact intended id old
    · simpa using (List.mem_filter.mp new).2
  have answers : ∀ post ∈ σ.direct.eraseIdx i, ∀ ids, post.granted = some ids → ∀ id ∈ post.ids, id ∈ ids :=
    fun post member => faithful post (List.mem_of_mem_eraseIdx member)
  have kept : ∀ id ∈ σ.activeEditIds, id ∈ union σ.activeEditIds (granted.filter (· ∈ σ.editIntent)) :=
    fun id active => mem_union.mpr (Or.inl active)
  have gained : ∀ id ∈ granted, id ∈ σ.editIntent → id ∈ union σ.activeEditIds (granted.filter (· ∈ σ.editIntent)) :=
    fun id member wanted => mem_union.mpr (Or.inr (List.mem_filter.mpr ⟨member, by simpa using wanted⟩))
  unfold Editing.commitGranted
  generalize asked : granted.filter (· ∉ σ.editIntent) = again
  have listed : ∀ id, id ∈ again ↔ id ∈ granted ∧ id ∉ σ.editIntent := by
    intro id
    rw [← asked, List.mem_filter, decide_eq_true_eq]
  dsimp only
  split
  · rename_i none
    refine ⟨own, consistent, waiting, answered, undropped, answers, tracked, unreleased, pursued, fun id lease => ?_⟩
    rcases held id lease with member | active | releasing
    · refine Or.inl (gained id member ?_)
      by_contra unwanted
      have := (listed id).mpr ⟨member, unwanted⟩
      rw [List.isEmpty_iff.mp none] at this
      cases this
    · exact Or.inl (kept id active)
    · exact Or.inr releasing
  · refine ⟨own, consistent, waiting, answered, undropped, answers, tracked, fun id wanted => ?_, pursued,
      fun id lease => ?_⟩
    · rw [releasing_enqueue, not_or]
      exact ⟨unreleased id wanted, fun member => ((listed id).mp member).2 wanted⟩
    · rw [releasing_enqueue]
      rcases held id lease with member | active | releasing | post
      · by_cases wanted : id ∈ σ.editIntent
        · exact Or.inl (gained id member wanted)
        · exact Or.inr (Or.inl (Or.inr ((listed id).mpr ⟨member, wanted⟩)))
      · exact Or.inl (kept id active)
      · exact Or.inr (Or.inl (Or.inl releasing))
      · exact Or.inr (Or.inr post)

/-- A step of the client that moves no release between the client and the server. -/
theorem Agrees.congr (agrees : σ.Agrees me) (same : ∀ id, τ.Releasing id ↔ σ.Releasing id)
    (consistent : τ.client.Consistent) (waiting : τ.client.suspended = none → τ.landed = false)
    (answered : ∀ batch, τ.client.suspended = some (.ackBody batch) → τ.landed = true)
    (undropped : ∀ batch status, τ.client.suspended ≠ some (.dropBody batch status))
    (intent : τ.editIntent = σ.editIntent) (active : τ.activeEditIds = σ.activeEditIds)
    (direct : τ.direct = σ.direct) (leases : τ.leases = σ.leases) : τ.Agrees me := by
  refine ⟨?_, consistent, waiting, answered, undropped, ?_, ?_, ?_, ?_, ?_⟩
  · rw [leases]
    exact agrees.own
  · rw [direct]
    exact agrees.granted
  · rw [active, intent]
    exact agrees.intended
  · intro id
    rw [intent, same]
    exact agrees.unreleased id
  · intro id
    rw [intent, leases, Acquiring, direct]
    exact agrees.acquired id
  · intro id
    rw [leases, active, same, direct]
    exact agrees.known id

theorem Agrees.flush (agrees : σ.Agrees me) {c d : Outbound (List String)} {bypassReady : Bool}
    {effect : Effect (List String)} (consistent : c.Consistent) (queue : c.queue = σ.client.queue)
    (pending : c.pending = σ.client.pending) (suspended : c.suspended = σ.client.suspended)
    (flushed : c.flush size bypassReady = (d, effect)) : Agrees me { σ with client := d } := by
  have moves := Outbound.moves_flush consistent flushed
  unfold Outbound.flush at flushed
  split at flushed
  · cases flushed
    refine agrees.congr (fun id => ?_) consistent ?_ ?_ ?_ rfl rfl rfl rfl
    · simp only [Releasing, unserved, queue, pending]
    · rw [suspended]
      exact agrees.waiting
    · rw [suspended]
      exact agrees.answered
    · rw [suspended]
      exact agrees.undropped
  · rename_i started
    simp only [Bool.or_eq_true, not_or, Bool.not_eq_true] at started
    have idle : σ.client.suspended = none := by
      rw [← suspended]
      simpa [started.1.1] using consistent.1.symm
    obtain ⟨after, -, rest, before, moved⟩ := moves
    have posted : effect.settled = [] ∧ d.suspended = some (.response (c.takeBatch size)) := by
      cases flushed
      exact ⟨rfl, rfl⟩
    have same : d.pending = σ.client.pending := by
      rw [← pending, before, moved, posted.1]
      simp [numberFrom]
    refine agrees.congr (fun id => ?_) after (by simp [posted.2]) (by simp [posted.2]) (by simp [posted.2]) rfl rfl rfl rfl
    simp [Releasing, unserved, agrees.waiting idle, same]

theorem Agrees.serveBatch (agrees : σ.Agrees me) {batch : List (QueuedOp (List String))}
    (awaiting : σ.client.suspended = some (.response batch)) (unserved : σ.landed = false) :
    Agrees me { σ with leases := releaseBatch me batch σ.leases, landed := true } := by
  obtain ⟨own, consistent, waiting, answered, undropped, granted, intended, unreleased, acquired, known⟩ := agrees
  have inFlight : σ.client.inFlightOps = batch := by
    have held := consistent.2
    rw [awaiting] at held
    exact held.1
  have split : ∀ id, σ.Releasing id ↔ (∃ o ∈ batch, id ∈ o.op) ∨ ∃ o ∈ σ.client.queue, id ∈ o.op := by
    intro id
    simp [Releasing, Editing.unserved, unserved, Outbound.pending, Outbound.reporting, awaiting, inFlight,
      or_and_right, exists_or]
  have later : ∀ id, Releasing { σ with leases := releaseBatch me batch σ.leases, landed := true } id ↔
      ∃ o ∈ σ.client.queue, id ∈ o.op := fun id => Iff.rfl
  have held := fun id => releaseBatch_own batch own id
  refine ⟨fun id holder lease => ?_, consistent, by simp [awaiting], fun _ _ => rfl, undropped, granted, intended,
    fun id wanted => ?_, fun id wanted => ?_, fun id lease => ?_⟩
  · rw [held] at lease
    split at lease
    · cases lease
    · exact own id holder lease
  · rw [later]
    exact fun queued => unreleased id wanted ((split id).mpr (Or.inr queued))
  · have unnamed : ¬∃ o ∈ batch, id ∈ o.op := fun named => unreleased id wanted ((split id).mpr (Or.inl named))
    rw [held, if_neg unnamed]
    exact acquired id wanted
  · rw [held] at lease
    split at lease
    · cases lease
    · rename_i unnamed
      rw [later]
      rcases known id lease with active | releasing | post
      · exact Or.inl active
      · exact Or.inr (Or.inl (((split id).mp releasing).resolve_left unnamed))
      · exact Or.inr (Or.inr post)

/-- The answer to a batch that the server has processed. -/
theorem Agrees.answerBatch (agrees : σ.Agrees me) {d : Outbound (List String)} {effect : Effect (List String)}
    (landed : σ.landed = true) (stepped : σ.client.step size (.settled (.response 200)) = some (d, effect)) :
    Agrees me { σ with client := d } := by
  have consistent := (Outbound.step_moves agrees.consistent stepped).consistent
  simp only [Outbound.step] at stepped
  split at stepped
  · rename_i batch awaiting
    have read : d = { σ.client with suspended := some (.ackBody batch) } := by
      simpa [Outbound.settle, isOk] using (congrArg Prod.fst (Option.some.inj stepped)).symm
    subst read
    refine agrees.congr (fun id => ?_) consistent (by simp) (fun _ _ => landed) (by simp) rfl rfl rfl rfl
    simp [Releasing, unserved, landed]
  · cases stepped

theorem Agrees.readBody (agrees : σ.Agrees me) {d : Outbound (List String)} {effect : Effect (List String)}
    (stepped : σ.client.step size (.body true []) = some (d, effect)) :
    Agrees me { σ with client := d, landed := false } := by
  have consistent := (Outbound.step_moves agrees.consistent stepped).consistent
  simp only [Outbound.step] at stepped
  split at stepped
  · rename_i batch awaiting
    have held := agrees.consistent.2
    rw [awaiting] at held
    obtain ⟨single, ended⟩ := Outbound.endSingle_eq σ.client
    obtain ⟨armed, finished⟩ := @Outbound.finish_eq _ σ.client.endSingle batch
      (Or.inl (by rw [ended]; exact held.1))
    have read : d = { σ.client with inFlightOps := [], flushing := false, suspended := none
                                    flushTimer := armed, forceSingle := single } := by
      rw [ended] at finished
      simpa [Outbound.acknowledge, Outbound.handlers, ended, finished] using
        (congrArg Prod.fst (Option.some.inj stepped)).symm
    subst read
    refine agrees.congr (fun id => ?_) consistent (fun _ => rfl) (by simp) (by simp) rfl rfl rfl rfl
    simp [Releasing, unserved, agrees.answered batch awaiting, Outbound.pending, Outbound.reporting]
  · rename_i batch status awaiting
    exact absurd awaiting (agrees.undropped batch status)
  · cases stepped

/-- Every step keeps the agreement, if no edit begins while a release of its id is on its way. -/
theorem step_agrees {action : EditAction} {output : Unit} (agrees : σ.Agrees me) (unhurried : σ.Unhurried action)
    (stepped : σ.step size me action = some (τ, output)) : τ.Agrees me := by
  cases action with
  | beginEditing elementIds =>
    cases stepped
    exact agrees.beginEditing unhurried
  | endEditing elementIds =>
    cases stepped
    exact agrees.endEditing elementIds
  | renewTimer =>
    simp only [step] at stepped
    split at stepped
    · cases stepped
    · cases stepped
      exact agrees.beginEditing fun id active => agrees.unreleased id (agrees.intended id active)
  | serveDirect i =>
    simp only [step] at stepped
    split at stepped
    · rename_i ids sent
      cases stepped
      exact agrees.serveDirect sent
    · cases stepped
  | answerDirect i =>
    simp only [step] at stepped
    split at stepped
    · rename_i ids granted served
      cases stepped
      exact agrees.commitGranted served
    · cases stepped
  | flushTimer =>
    obtain ⟨⟨d, effect⟩, next, same⟩ := Option.map_eq_some_iff.mp stepped
    cases same
    simp only [Outbound.step] at next
    split at next
    · exact agrees.flush (c := { σ.client with flushTimer := false }) agrees.consistent rfl rfl rfl (Option.some.inj next)
    · cases next
  | flush =>
    simp only [step, Option.map_eq_some_iff] at stepped
    obtain ⟨⟨d, effect⟩, next, same⟩ := stepped
    cases same
    exact agrees.flush agrees.consistent rfl rfl rfl (Option.some.inj next)
  | serveBatch =>
    simp only [step] at stepped
    split at stepped
    · rename_i batch awaiting
      split at stepped
      · cases stepped
      · rename_i unserved
        cases stepped
        exact agrees.serveBatch awaiting (by simpa using unserved)
    · cases stepped
  | answerBatch =>
    simp only [step] at stepped
    split at stepped
    · rename_i landed
      obtain ⟨⟨d, effect⟩, next, same⟩ := Option.map_eq_some_iff.mp stepped
      cases same
      exact agrees.answerBatch landed next
    · cases stepped
  | readBody =>
    obtain ⟨⟨d, effect⟩, next, same⟩ := Option.map_eq_some_iff.mp stepped
    cases same
    exact agrees.readBody next

/-- Once every request has settled and nothing is queued, the client tracks exactly the leases
that the server says it holds, if no edit began while a release of its id was on its way. -/
theorem leases_agree (size : List String → Nat) (me : String) {history : List (EditAction × Unit)}
    (run : Run (step size me) (fun _ σ action => σ.Unhurried action) {} history σ) (settled : σ.Settled) (id : String) :
    id ∈ σ.activeEditIds ↔ σ.leases[id]? = some me := by
  have agrees := run.invariant (fun _ σ => σ.Agrees me) (agrees_start me) step_agrees
  have released : ¬σ.Releasing id := by
    have idle : σ.client.inFlightOps = [] := by
      have held := agrees.consistent.2
      rw [settled.suspended] at held
      exact held
    simp [Releasing, unserved, agrees.waiting settled.suspended, Outbound.pending, Outbound.reporting, idle,
      settled.suspended, settled.queue]
  constructor
  · intro active
    rcases agrees.acquired id (agrees.intended id active) with held | ⟨post, member, -⟩
    · exact held
    · rw [settled.direct] at member
      cases member
  · intro held
    rcases agrees.known id held with active | releasing | ⟨post, member, -⟩
    · exact active
    · exact absurd releasing released
    · rw [settled.direct] at member
      cases member

instance (σ : Editing) (action : EditAction) : Decidable (σ.Unhurried action) := by
  unfold Unhurried Releasing
  split <;> infer_instance

/-- An edit of one element begins and ends, with the release flushed. -/
def editOnce : List EditAction :=
  [.beginEditing ["a"], .serveDirect 0, .answerDirect 0, .endEditing ["a"], .flushTimer, .serveBatch, .answerBatch,
    .readBody]

theorem leases_agree_sample : ∃ σ : Editing, σ.activeEditIds = ["b"] ∧
    ("b" ∈ σ.activeEditIds ↔ σ.leases["b"]? = some "ada") ∧ ("a" ∈ σ.activeEditIds ↔ σ.leases["a"]? = some "ada") := by
  have taken : ((trace (step (fun _ => 10) "ada") (fun σ action => σ.Unhurried action) [] {}
      (editOnce ++ [.beginEditing ["b"], .serveDirect 0, .answerDirect 0])).map fun ended =>
      (ended.2.direct.isEmpty, ended.2.client.queue.isEmpty, ended.2.client.suspended.isNone, ended.2.activeEditIds)) =
      some (true, true, true, ["b"]) := by decide +kernel
  obtain ⟨⟨history, σ⟩, traced, facts⟩ := Option.map_eq_some_iff.mp taken
  simp only [Prod.mk.injEq] at facts
  obtain ⟨direct, queue, suspended, active⟩ := facts
  have run : Run (step (fun _ => 10) "ada") (fun _ σ action => σ.Unhurried action) {} history σ :=
    (Run.trace .start traced).mono of_decide_eq_true
  have settled : σ.Settled := ⟨List.isEmpty_iff.mp direct, List.isEmpty_iff.mp queue, Option.isNone_iff_eq_none.mp suspended⟩
  exact ⟨σ, active, leases_agree (fun _ => 10) "ada" run settled "b", leases_agree (fun _ => 10) "ada" run settled "a"⟩

/-- The release of a first edit is queued when a second one of the same element begins. The
direct acquisition overtakes it, and the release then takes the lease that the client tracks. -/
theorem release_overtaken : ∃ history, ∃ σ : Editing,
    Run (step (fun _ => 10) "ada") (fun _ _ _ => True) {} history σ ∧ σ.Settled ∧
      "a" ∈ σ.activeEditIds ∧ σ.leases["a"]? = none := by
  have taken : ((trace (step (fun _ => 10) "ada") (fun _ _ => true) [] {}
      [.beginEditing ["a"], .serveDirect 0, .answerDirect 0, .endEditing ["a"], .beginEditing ["a"], .serveDirect 0,
        .answerDirect 0, .flushTimer, .serveBatch, .answerBatch, .readBody]).map fun ended =>
      (ended.2.direct.isEmpty, ended.2.client.queue.isEmpty, ended.2.client.suspended.isNone, ended.2.activeEditIds,
        ended.2.leases["a"]?)) =
      some (true, true, true, ["a"], none) := by decide +kernel
  obtain ⟨⟨history, σ⟩, traced, facts⟩ := Option.map_eq_some_iff.mp taken
  simp only [Prod.mk.injEq] at facts
  obtain ⟨direct, queue, suspended, active, lost⟩ := facts
  exact ⟨history, σ, Run.of_trace traced,
    ⟨List.isEmpty_iff.mp direct, List.isEmpty_iff.mp queue, Option.isNone_iff_eq_none.mp suspended⟩, by simp [active], lost⟩

end Editing

end MetadataGraph.Client
