import MetadataGraph.Client.Acks

namespace MetadataGraph

open Runs

namespace Client

/-! ### The only writer of the annotations -/

/-- The answer to a POST. -/
inductive Answer where
  | applied (entries : List (AppliedOp (Dict Json)))
  | refused (failure : Failure)

/-- A client that alone writes the annotations of a session, and the session. -/
structure Writing where
  baseline : Mirror
  queue : List LocalOp := []
  forceSingle : Bool := false
  inFlight : List LocalOp := []
  /-- What the server has made of the batch in flight. -/
  answer : Option Answer := none
  /-- The ops of other clients that are on their way. -/
  stream : List (AppliedOp (Dict Json)) := []
  memory : Memory

/-- A state of the canvas. Its annotations have texts for ids, if any. -/
structure Shown where
  mirror : Mirror
  ids : ∀ a ∈ mirror.annotations, (a.get "id").truthy = true → ∃ id, a.get "id" = .str id

/-- What the server has at hand when it processes a batch. -/
structure Served where
  env : Nat → Env
  leases : Dict String := ∅
  admitted : Bool := true
  persists : Bool := true

inductive WriteAction where
  | sync (state : Shown)
  | send (count : Nat)
  | serve (served : Served)
  | read (retried : Bool)
  | other (call : Call)
  | deliver

namespace Writing

variable (cfg : ManagerConfig) (client : String) (number : Json → Option ℚ) (isoformat : Nat → String)

/-- The ops of a batch as the server gets them. -/
def batchOps (env : Nat → Env) : Nat → List LocalOp → List BatchOp
  | _, [] => []
  | i, o :: ops => .state (env i) o.op :: batchOps env (i + 1) ops

/-- `apply_ops` on the batch in flight. -/
def serve (served : Served) (σ : Writing) : Memory × Answer :=
  let saved := σ.memory.view
  if !served.admitted then (σ.memory, .refused .rateLimited)
  else match Walk.run cfg client (batchOps served.env 0 σ.inFlight) { memory := σ.memory, leases := served.leases } with
    | .error (failure, m) => (m.restore saved σ.memory.ring saved.name, .refused failure)
    | .ok w =>
      if served.persists then
        (w.memory, .applied (w.pending.filterMap fun entry =>
          entry.applied?.map fun applied => applied.op.map fun r => wire isoformat (w.memory.heap.read r)))
      else (w.memory.restore saved σ.memory.ring saved.name, .refused .persistFailed)

/-- One step of the client, of the server or of another client, and the answer that the server gives in it. -/
def step (σ : Writing) : WriteAction → Option (Writing × Option Answer)
  | .sync state =>
    let synced := syncState number σ.baseline state.mirror
    some ({ σ with baseline := synced.1, queue := σ.queue ++ synced.2 }, none)
  | .send count =>
    if σ.inFlight = [] ∧ σ.answer.isNone then
      let size := if σ.forceSingle then 1 else count
      some ({ σ with inFlight := σ.queue.take size, queue := σ.queue.drop size }, none)
    else none
  | .serve served =>
    if σ.inFlight ≠ [] ∧ σ.answer.isNone then
      let done := σ.serve cfg client isoformat served
      some ({ σ with memory := done.1, answer := some done.2 }, some done.2)
    else none
  | .read retried => match σ.answer with
    | none => none
    | some (.applied entries) =>
      some ({ σ with
        baseline := foldAcked number σ.baseline entries, inFlight := [], answer := none
        forceSingle := σ.forceSingle && !σ.queue.isEmpty }, none)
    | some (.refused _) =>
      if retried then some ({ σ with queue := σ.inFlight ++ σ.queue, inFlight := [], answer := none }, none)
      else if σ.inFlight.length > 1 then
        some ({ σ with queue := σ.inFlight ++ σ.queue, inFlight := [], answer := none, forceSingle := true }, none)
      else some ({ σ with inFlight := [], answer := none, forceSingle := σ.forceSingle && !σ.queue.isEmpty }, none)
  | .other call =>
    if call.op.annotates then none
    else match σ.memory.applyStateOp cfg.toStoreConfig call with
      | .applied applied after =>
        some ({ σ with memory := after, stream := σ.stream ++ [applied.op.map fun r => wire isoformat (after.heap.read r)] }, none)
      | _ => none
  | .deliver => match σ.stream with
    | [] => none
    | op :: stream => some ({ σ with baseline := applyOpToMirror σ.baseline op, stream }, none)

end Writing

theorem named_syncState (number : Json → Option ℚ) (baseline : Mirror) (state : Shown) :
    ∀ o ∈ (syncState number baseline state.mirror).2, o.Named := by
  intro o member ann carries
  have entry_named : ∀ entry ∈ (annotationsById state.mirror.annotations).entries,
      ∃ id, entry.2.get "id" = .str id ∧ id ≠ "" := by
    intro entry inside
    obtain ⟨held, own, truthy⟩ := id_of_get? (OrderedDict.get?_eq_some.mpr inside)
    rw [← own] at truthy
    obtain ⟨id, same⟩ := state.ids entry.2 held truthy
    refine ⟨id, same, ?_⟩
    rintro rfl
    rw [same] at truthy
    cases truthy
  have silent : ∀ ops : List StateOp, (∀ op ∈ ops, op.annotates = false) → o ∉ ops.map (LocalOp.mk · []) := by
    intro ops quiet inside
    obtain ⟨op, listed, rfl⟩ := List.mem_map.mp inside
    have here := quiet op listed
    rcases carries with same | ⟨base, same⟩
    · rw [show op = _ from same] at here
      cases here
    · rw [show op = _ from same] at here
      cases here
  simp only [syncState, computeOps, List.mem_append] at member
  rcases member with (canvas | annotation) | removal
  · exact (silent _ annotates_canvasOps canvas).elim
  · rw [annotationsOps, List.mem_append] at annotation
    rcases annotation with there | gone
    · obtain ⟨entry, inside, listed⟩ := List.mem_flatMap.mp there
      obtain ⟨id, own, nonempty⟩ := entry_named entry inside
      refine ⟨id, ?_, nonempty⟩
      have updates : ∀ ignore before, o ∈ updateOps ignore before entry.2 → ann.get "id" = .str id := by
        intro ignore before listed
        rw [updateOps] at listed
        split at listed
        · cases listed
        · obtain rfl := List.mem_singleton.mp listed
          rcases carries with same | ⟨base, same⟩
          · cases same
          · obtain ⟨sent, -⟩ := StateOp.annotationUpdated.inj same
            rw [← Option.some.inj sent, get_id_diffAnnotationFields, own]
      rw [annotationOps.eq_def] at listed
      split at listed
      · obtain rfl := List.mem_singleton.mp listed
        rcases carries with same | ⟨base, same⟩
        · obtain rfl := Option.some.inj (StateOp.annotationCreated.inj same)
          exact own
        · cases same
      · split at listed
        · rcases List.mem_append.mp listed with membership | update
          · split at membership
            · cases membership
            · obtain rfl := List.mem_singleton.mp membership
              rcases carries with same | ⟨base, same⟩ <;> cases same
          · exact updates _ _ update
        · exact updates _ _ listed
    · obtain ⟨id, -, rfl⟩ := List.mem_map.mp gone
      rcases carries with same | ⟨base, same⟩ <;> cases same
  · exact (silent _ (annotates_idsOp (fun _ => rfl) _) removal).elim

namespace Writing

variable {cfg : ManagerConfig} {client : String} {env : Nat → Env}

/-- No op of a batch creates under an id that the session remembers as deleted when the op is reached. -/
def Creates (cfg : ManagerConfig) (client : String) (env : Nat → Env) (i : Nat) (ops : List LocalOp) (w : Walk) : Prop :=
  ∀ front o back, ops = front ++ o :: back → ∀ w', Walk.run cfg client (batchOps env i front) w = .ok w' →
    ∀ ann id, o.op = .annotationCreated (some ann) → ann.get "id" = .str id → id ∉ w'.memory.session.deletedAnnotationIds

theorem Creates.tail {i : Nat} {o : LocalOp} {ops : List LocalOp} {w w' : Walk} (creates : Creates cfg client env i (o :: ops) w)
    (stepped : w.next cfg client (.state (env i) o.op) = .ok w') : Creates cfg client env (i + 1) ops w' := by
  rintro front p back rfl v walked
  refine creates (o :: front) p back rfl v ?_
  rw [batchOps, Walk.run, stepped]
  exact walked

/-- How the server takes a batch: never with a conflict, and where it goes through it leaves no version later than the
client knows once the rest has arrived, and every version as the ops are expected to leave it if nothing that is created
is remembered as deleted. -/
structure Arrives (cfg : ManagerConfig) (client : String) (env : Nat → Env) (known : String → Option Json)
    (rest ops : List LocalOp) (i : Nat) (w : Walk) : Prop where
  peaceful : ∀ failure m, Walk.run cfg client (batchOps env i ops) w = .error (failure, m) → failure.isConflict = false
  wf : ∀ w', Walk.run cfg client (batchOps env i ops) w = .ok w' → w'.memory.Wf
  versioned : ∀ w', Walk.run cfg client (batchOps env i ops) w = .ok w' → ∀ a ∈ w'.memory.view.state.annotations, a.Versioned
  covered : ∀ w', Walk.run cfg client (batchOps env i ops) w = .ok w' →
    ∀ id ≠ "", Covered id (w'.memory.view.mark? id) rest (known id)
  exact : ∀ w', Walk.run cfg client (batchOps env i ops) w = .ok w' → Creates cfg client env i ops w →
    ∀ id, w'.memory.view.mark? id = bumps id ops (w.memory.view.mark? id)

theorem walk_arrives {known : String → Option Json} {rest ops : List LocalOp} {i : Nat} {w : Walk} (wf : w.memory.Wf)
    (versioned : ∀ a ∈ w.memory.view.state.annotations, a.Versioned) (named : ∀ o ∈ ops, o.Named)
    (covered : ∀ id ≠ "", Covered id (w.memory.view.mark? id) (ops ++ rest) (known id)) :
    Arrives cfg client env known rest ops i w := by
  induction ops generalizing i w with
  | nil =>
    refine ⟨fun failure m failed => (by cases failed), ?_, ?_, ?_, ?_⟩
    all_goals intro w' walked; cases walked
    · exact wf
    · exact versioned
    · exact covered
    · exact fun _ _ => rfl
  | cons o ops ih =>
    have namedHere := named o List.mem_cons_self
    have namedLater : ∀ p ∈ ops, p.Named := fun p member => named p (List.mem_cons_of_mem _ member)
    have creates : o.op.NamesCreated := fun ann same => (namedHere ann (.inl same)).imp fun _ both => both.1
    have based : w.memory.view.Based o.op := by
      intro patch base id same here j held
      obtain ⟨id', here', nonempty⟩ := namedHere patch (.inr ⟨base, same⟩)
      obtain rfl := Json.str.inj (here.symm.trans here')
      exact (covered id nonempty).1 patch base same here j held
    let call : Call := { env := env i, client, op := o.op }
    have viewed := @Memory.applyStateOp_view cfg.toStoreConfig call w.memory wf
    have stop : ∀ failure m, w.next cfg client (.state (env i) o.op) = .error (failure, m) → failure.isConflict = false →
        Arrives cfg client env known rest (o :: ops) i w := by
      intro failure m failed peaceful
      have ended : Walk.run cfg client (batchOps env i (o :: ops)) w = .error (failure, m) := by
        rw [batchOps, Walk.run, failed]
      refine ⟨fun failure' m' same => ?_, ?_, ?_, ?_, ?_⟩
      · rw [ended] at same
        cases same
        exact peaceful
      all_goals intro w' walked; rw [ended] at walked; cases walked
    have go : ∀ w1 : Walk, w.next cfg client (.state (env i) o.op) = .ok w1 → w1.memory.Wf →
        (∀ a ∈ w1.memory.view.state.annotations, a.Versioned) →
        (∀ id ≠ "", Covered id (w1.memory.view.mark? id) (ops ++ rest) (known id)) →
        (Creates cfg client env i (o :: ops) w → ∀ id, w1.memory.view.mark? id = o.op.bump id (w.memory.view.mark? id)) →
        Arrives cfg client env known rest (o :: ops) i w := by
      intro w1 stepped wf1 versioned1 covered1 exact1
      have later := ih (i := i + 1) wf1 versioned1 namedLater covered1
      have continued : Walk.run cfg client (batchOps env i (o :: ops)) w = Walk.run cfg client (batchOps env (i + 1) ops) w1 := by
        rw [batchOps, Walk.run, stepped]
      refine ⟨?_, ?_, ?_, ?_, ?_⟩
      all_goals rw [continued]
      · exact later.peaceful
      · exact later.wf
      · exact later.versioned
      · exact later.covered
      · intro w' walked recalls id
        rw [later.exact w' walked (recalls.tail stepped) id, exact1 recalls id]
        rfl
    cases conflict : leaseConflict client w.leases w.memory.view.state o.op with
    | some failure =>
      refine stop failure w.memory (by simp only [Walk.next, conflict]) ?_
      obtain ⟨id, -, leased⟩ := Option.bind_eq_some_iff.mp conflict
      obtain ⟨holder, -, refused⟩ := Option.bind_eq_some_iff.mp leased
      split at refused
      · obtain rfl := Option.some.inj refused
        rfl
      · cases refused
    | none => cases done : w.memory.applyStateOp cfg.toStoreConfig call with
      | raised failure after =>
        rw [done] at viewed
        refine stop failure after ?_ (Session.raised_peaceful viewed.symm versioned based)
        simp only [Walk.next, conflict]
        rw [show w.memory.applyStateOp cfg.toStoreConfig { env := env i, client, op := o.op } = .raised failure after from done]
      | dropped =>
        rw [done] at viewed
        have stepped : w.next cfg client (.state (env i) o.op) = .ok w := by
          simp only [Walk.next, conflict]
          rw [show w.memory.applyStateOp cfg.toStoreConfig { env := env i, client, op := o.op } = .dropped from done]
        have kept : ∀ id, Below (w.memory.view.mark? id) (o.op.bump id (w.memory.view.mark? id)) := by
          intro id
          rcases Session.mark_dropped viewed.symm with ⟨ann, other, created, -⟩ | same
          · exact below_bump fun a b no => by rw [show o.op = _ from created] at no; cases no
          · rw [show o.op.bump id (w.memory.view.mark? id) = w.memory.view.mark? id from same id]
            exact Below.refl _
        refine go w stepped wf versioned (fun id nonempty => (covered id nonempty).2.mono (kept id)) fun recalls id => ?_
        rcases Session.mark_dropped viewed.symm with ⟨ann, other, created, own, deleted⟩ | same
        · exact (recalls [] o ops rfl w rfl ann other created own deleted).elim
        · exact (same id).symm
      | applied applied after =>
        rw [done] at viewed
        have stepped : w.next cfg client (.state (env i) o.op) =
            .ok { w with memory := after, pending := w.pending ++ [.state applied] } := by
          simp only [Walk.next, conflict]
          rw [show w.memory.applyStateOp cfg.toStoreConfig { env := env i, client, op := o.op } = .applied applied after from done]
        have marks := Session.mark_applied viewed.symm creates
        refine go _ stepped (Memory.applyStateOp_extends wf (congrArg Outcome.after? done)).wf
          (Session.versioned_applied viewed.symm versioned) (fun id nonempty => ?_) fun _ id => marks id
        have later := (covered id nonempty).2
        rw [show after.view.mark? id = _ from marks id]
        exact later

/-- Every annotation that an entry of a walk names has a version at its end. -/
theorem walk_counted {ops : List BatchOp} {m : Memory} (wf : m.Wf) {leases : Dict String} {w : Walk}
    (walked : Walk.run cfg client ops { memory := m, leases } = .ok w) :
    ∀ entry ∈ w.pending, ∀ applied ∈ entry.applied?, ∀ r ∈ applied.op.shared?, (w.memory.heap.read r).Counted := by
  have both := (@Walk.run_induction cfg client { memory := m, leases } (fun w => w.Sound m.heap.size ∧
      ∀ entry ∈ w.pending, ∀ applied ∈ entry.applied?, ∀ r ∈ applied.op.shared?, (w.memory.heap.read r).Counted)
    (fun _ _ => True) ?_ (fun _ _ => trivial) ops ⟨⟨wf, le_refl _, by simp⟩, by simp⟩).1 w walked
  · exact both.2
  · rintro w op w' ⟨sound, counted⟩ stepped
    refine ⟨sound.next stepped, ?_⟩
    rcases Walk.next_ok stepped with ⟨same, extra, pending, quiet⟩ | ⟨env, stateOp, applied, -, -, accepted, -, pending⟩
    · intro entry member
      rw [pending, List.mem_append] at member
      rcases member with old | new
      · rw [same]
        exact counted entry old
      · rw [quiet entry new]
        rintro applied ⟨⟩
    · intro entry member
      rw [pending, List.mem_append, List.mem_singleton] at member
      rcases member with old | rfl
      · intro earlier named r shared
        exact Memory.read_applied Session.counted_rewrites sound.memory accepted
          (sound.pending entry old earlier named r shared) (counted entry old earlier named r shared)
      · rintro _ ⟨⟩
        exact Memory.counted_applied sound.memory accepted

theorem acks_wire {isoformat : Nat → String} {op : AppliedOp Annotation} (counted : ∀ a ∈ op.shared?, a.Counted) :
    Acks (op.map (wire isoformat)) := by
  intro ann shared
  rw [AppliedOp.shared?_map] at shared
  obtain ⟨a, named, rfl⟩ := Option.mem_map.mp shared
  obtain ⟨v, version⟩ := counted a named
  refine ⟨(v + 1 : Nat), ?_, by exact_mod_cast Nat.succ_pos v⟩
  rw [wire, version]
  simp [Dict.get_insert]

/-- The ops that the server has not processed. -/
def unserved (σ : Writing) : List LocalOp :=
  match σ.answer with
  | some (.applied _) => σ.queue
  | _ => σ.inFlight ++ σ.queue

/-- No deletion of an annotation is given up. -/
def Kept (σ : Writing) : WriteAction → Prop
  | .read retried => ∀ failure, σ.answer = some (.refused failure) → retried = true ∨ 1 < σ.inFlight.length ∨
      ∀ o ∈ σ.inFlight, ∀ a b, o.op ≠ .annotationDeleted a b
  | _ => True

/-- No annotation is created under an id that the session remembers as deleted; an acknowledgement that is folded finds
its annotation in the baseline, at no lower version; and no op that creates, updates or deletes one is given up. -/
def Orderly (cfg : ManagerConfig) (client : String) (σ : Writing) : WriteAction → Prop
  | .serve served => Creates cfg client served.env 0 σ.inFlight { memory := σ.memory, leases := served.leases }
  | .read retried => match σ.answer with
    | some (.applied entries) => ∀ entry ∈ entries, UpToDate σ.baseline entry
    | some (.refused _) => retried = true ∨ 1 < σ.inFlight.length ∨ ∀ o ∈ σ.inFlight, o.op.annotates = false
    | none => True
  | _ => True

/-- The client has read the session, and nothing is on its way. -/
structure Joined (isoformat : Nat → String) (σ : Writing) : Prop where
  baseline : σ.baseline = normalizeMirror (sent isoformat σ.memory.view.state)
  queue : σ.queue = []
  inFlight : σ.inFlight = []
  answer : σ.answer = none
  stream : σ.stream = []
  wf : σ.memory.Wf
  versioned : ∀ a ∈ σ.memory.view.state.annotations, a.Versioned
  clean : ∀ a ∈ σ.memory.view.state.annotations, "version" ∉ a.fields
  distinct : (σ.memory.view.state.annotations.map (·.get "id")).Nodup

/-- Every op has been acknowledged. -/
structure Settled (σ : Writing) : Prop where
  queue : σ.queue = []
  inFlight : σ.inFlight = []
  answer : σ.answer = none

/-- What is on its way is based on versions that the server will not have passed. -/
structure Ahead (σ : Writing) : Prop where
  wf : σ.memory.Wf
  versioned : ∀ a ∈ σ.memory.view.state.annotations, a.Versioned
  named : ∀ o ∈ σ.inFlight ++ σ.queue, o.Named
  sound : ∀ id, Sound (mark? σ.baseline id)
  covered : ∀ id ≠ "", Covered id (σ.memory.view.mark? id) σ.unserved (mark? σ.baseline id)
  acks : ∀ entries, σ.answer = some (.applied entries) → ∀ entry ∈ entries, Acks entry
  stream : ∀ op ∈ σ.stream, op.annotates = false

/-- What is on its way leads to the versions that the client has. -/
def Exact (σ : Writing) : Prop := ∀ id ≠ "", bumps id σ.unserved (σ.memory.view.mark? id) = mark? σ.baseline id

theorem Orderly.kept {σ : Writing} {action : WriteAction} (orderly : σ.Orderly cfg client action) : σ.Kept action := by
  cases action with
  | read retried =>
    intro failure refused
    rw [Orderly, refused] at orderly
    refine orderly.imp_right (Or.imp_right fun quiet o member a b deletes => ?_)
    have := quiet o member
    rw [deletes] at this
    cases this
  | _ => trivial

section Start

variable {isoformat : Nat → String}

theorem get?_wire {annotations : List Annotation} (distinct : (annotations.map (·.get "id")).Nodup) {id : String} (nonempty : id ≠ "") :
    (annotationsById (annotations.map (wire isoformat))).get? (.str id) = (annotations.find? (·.hasId id)).map (wire isoformat) := by
  induction annotations with
  | nil => rfl
  | cons a rest ih =>
    obtain ⟨fresh, distinct⟩ := List.nodup_cons.mp distinct
    have own : (wire isoformat a).get "id" = a.get "id" := get_wire isoformat a (by decide)
    have truthy : (Json.str id).truthy = true := by simpa [Json.truthy] using nonempty
    rw [List.map_cons, ← List.singleton_append, get?_annotationsById_append, ih distinct, get?_annotationsById_singleton, own,
      List.find?_cons]
    cases here : a.hasId id with
    | true =>
      have named := Annotation.hasId_iff.mp here
      have none : rest.find? (·.hasId id) = none := by
        rw [List.find?_eq_none]
        intro b member held
        exact fresh (List.mem_map.mpr ⟨b, member, ( Annotation.hasId_iff.mp held).trans named.symm⟩)
      rw [none, if_pos ⟨named.symm, truthy⟩]
      rfl
    | false =>
      rw [if_neg, Option.or_none]
      rintro ⟨named, -⟩
      rw [ Annotation.hasId_iff.mpr named.symm] at here
      cases here

theorem get_version_wire {a : Annotation} (clean : "version" ∉ a.fields) : (wire isoformat a).get "version" = a.mark := by
  have absent : a.fields["version"]? = none := Std.ExtTreeMap.getElem?_eq_none clean
  rw [wire, Annotation.mark]
  cases a.version with
  | none => cases a.updatedAt <;> simp [Dict.get, absent, Std.ExtTreeMap.getElem?_insert]
  | some v => simp [Dict.get_insert]

theorem Joined.mark {σ : Writing} (joined : σ.Joined isoformat) {id : String} (nonempty : id ≠ "") :
    mark? σ.baseline id = σ.memory.view.mark? id := by
  rw [joined.baseline, mark?, annotation?, Session.mark?]
  rw [show (normalizeMirror (sent isoformat σ.memory.view.state)).annotations =
    σ.memory.view.state.annotations.map (wire isoformat) from rfl, get?_wire joined.distinct nonempty, State.find]
  cases found : σ.memory.view.state.annotations.find? (·.hasId id) with
  | none => rfl
  | some a =>
    rw [Option.map_some, Option.map_some, Option.map_some, get_version_wire (joined.clean a (List.mem_of_find?_eq_some found))]

theorem Joined.ahead {σ : Writing} (joined : σ.Joined isoformat) : σ.Ahead ∧ σ.Exact := by
  have unserved : σ.unserved = [] := by rw [Writing.unserved, joined.answer, joined.inFlight, joined.queue]; rfl
  refine ⟨⟨joined.wf, joined.versioned, ?_, fun id => ?_, fun id nonempty => ?_, ?_, ?_⟩, fun id nonempty => ?_⟩
  · rw [joined.inFlight, joined.queue]
    rintro o ⟨⟩
  · by_cases nonempty : id = ""
    · intro j held
      rw [mark?, annotation?] at held
      obtain ⟨a, known, -⟩ := Option.map_eq_some_iff.mp held
      have truthy := (id_of_get? known).2.2
      rw [nonempty] at truthy
      cases truthy
    · rw [joined.mark nonempty]
      intro j held
      obtain ⟨a, found, rfl⟩ := Option.map_eq_some_iff.mp held
      have positive := (joined.versioned a (State.mem_of_find found)).positive
      rw [ Annotation.mark]
      cases version : a.version with
      | none => exact .inl rfl
      | some v =>
        refine .inr ⟨v, rfl, ?_⟩
        have : v ≠ 0 := by
          rintro rfl
          exact positive version
        exact_mod_cast Nat.one_le_iff_ne_zero.mpr this
  · rw [unserved, joined.mark nonempty]
    exact Below.refl _
  · intro entries none
    rw [joined.answer] at none
    cases none
  · rw [joined.stream]
    rintro op ⟨⟩
  · rw [unserved, joined.mark nonempty]
    rfl

end Start

/-- An op that is not about annotations is none for its readers either. -/
theorem plan_quiet_annotates {s : Session Annotation} {e : Env} {trusted : Bool} {op : StateOp} (quiet : op.annotates = false) :
    (s.plan cfg.toStoreConfig e client trusted op).Satisfies (fun e => e.applied.annotates = false) fun _ _ => True := by
  cases op with
  | annotationCreated _ => cases quiet
  | annotationUpdated _ _ => cases quiet
  | annotationDeleted _ _ => cases quiet
  | groupMembershipChanged _ _ => cases quiet
  | nodesRemoved nodeIds =>
    apply Session.validated_satisfies trivial
    intro removals valid
    dsimp only
    split
    · trivial
    · rfl
  | nodeMoved nodeId position =>
    simp only [Session.plan, Session.planNodeMoved]
    split
    · exact Session.validated_satisfies trivial fun _ _ => rfl
    · trivial
  | sessionRenamed name =>
    simp only [Session.plan, Session.planSessionRenamed]
    split
    · rfl
    · rfl
    · trivial
  | _ => exact Session.validated_satisfies trivial fun _ _ => rfl

theorem annotates_map {α β : Type} (f : α → β) (op : AppliedOp α) : (op.map f).annotates = op.annotates := by
  cases op <;> rfl

theorem applied_quiet {call : Call} {m after : Memory} {applied : Applied ObjectHeap.Ref} (wf : m.Wf)
    (accepted : m.applyStateOp cfg.toStoreConfig call = .applied applied after) (quiet : call.op.annotates = false) :
    applied.op.annotates = false := by
  have planned : (m.view.judge cfg.toStoreConfig call).Satisfies _ _ := plan_quiet_annotates quiet
  have viewed := Memory.view_applied wf accepted
  unfold Session.applyStateOp at viewed
  split at viewed
  · cases viewed
  · cases viewed
  · rename_i e verdict
    rw [verdict] at planned
    have same := congrArg Applied.op (Outcome.applied.inj viewed).1
    rw [← annotates_map after.heap.read, show applied.op.map after.heap.read = (applied.map after.heap.read).op from rfl,
      ← same, AppliedOp.at, annotates_map]
    exact planned

/-- The op of another client that is not about annotations changes no version of the baseline. -/
theorem mark_applyOpToMirror {op : AppliedOp (Dict Json)} (quiet : op.annotates = false) (m : Mirror) (id : String) :
    mark? (applyOpToMirror m op) id = mark? m id := by
  have keeps : ∀ drop (a : Dict Json), (withoutMembers drop a).get "id" = a.get "id" ∧
      (withoutMembers drop a).get "version" = a.get "version" := by
    intro drop a
    rw [withoutMembers]
    split
    · simp [setMembers, Dict.get_insert]
    · exact ⟨rfl, rfl⟩
  cases op with
  | annotationCreated _ => cases quiet
  | annotationUpdated _ => cases quiet
  | annotationDeleted _ => cases quiet
  | groupMembershipChanged _ _ => cases quiet
  | nodesRemoved drop =>
    rw [mark?, mark?, annotation?, annotation?]
    change Option.map _ ((annotationsById (m.annotations.map (withoutMembers drop))).get? (.str id)) = _
    rw [get?_annotationsById_map fun a => (keeps drop a).1, Option.map_map]
    congr 1
    funext a
    exact (keeps drop a).2
  | nodeMoved nodeId position =>
    rw [applyOpToMirror, foldOp]
    split <;> rfl
  | idsAdded set ids => rfl
  | idsDropped set ids => rfl
  | _ => rfl

theorem state_restore {m : Memory} {saved : Session Annotation} {ring : List (Applied ObjectHeap.Ref)} {name : Option String} :
    (m.restore saved ring name).view.state = saved.state := by
  rw [Memory.view_restore]

section Steps

variable {number : Json → Option ℚ} {isoformat : Nat → String} {σ τ : Writing}

/-- What a step leaves: no version is passed, no conflict is reported, and an orderly step keeps every version exact. -/
structure Proceeds (cfg : ManagerConfig) (client : String) (σ : Writing) (action : WriteAction) (τ : Writing)
    (output : Option Answer) : Prop where
  ahead : τ.Ahead
  peaceful : ∀ failure, output = some (.refused failure) → failure.isConflict = false
  exact : σ.Orderly cfg client action → σ.Exact → τ.Exact

/-- A step that changes neither the session nor what is known, and moves what is on its way. -/
theorem Ahead.moved (ahead : σ.Ahead) {action : WriteAction} (memory : τ.memory = σ.memory) (baseline : τ.baseline = σ.baseline)
    (stream : τ.stream = σ.stream) (unserved : τ.unserved = σ.unserved) (named : ∀ o ∈ τ.inFlight ++ τ.queue, o ∈ σ.inFlight ++ σ.queue)
    (answer : ∀ entries, τ.answer ≠ some (.applied entries)) : Proceeds cfg client σ action τ none := by
  refine ⟨⟨?_, ?_, fun o member => ahead.named o (named o member), ?_, ?_, fun entries given => absurd given (answer entries), ?_⟩,
    fun failure no => (by cases no), fun _ exact id nonempty => ?_⟩
  · rw [memory]
    exact ahead.wf
  · rw [memory]
    exact ahead.versioned
  · rw [baseline]
    exact ahead.sound
  · rw [memory, baseline, unserved]
    exact ahead.covered
  · rw [stream]
    exact ahead.stream
  · rw [memory, baseline, unserved]
    exact exact id nonempty

theorem step_sync (numeral : Numeral number) (ahead : σ.Ahead) {state : Shown} {output : Option Answer}
    (taken : σ.step cfg client number isoformat (.sync state) = some (τ, output)) :
    Proceeds cfg client σ (.sync state) τ output := by
  cases taken
  have grown : ({ σ with
      baseline := (syncState number σ.baseline state.mirror).1
      queue := σ.queue ++ (syncState number σ.baseline state.mirror).2 } : Writing).unserved =
      σ.unserved ++ (syncState number σ.baseline state.mirror).2 := by
    rw [unserved, unserved]
    cases σ.answer with
    | none => exact (List.append_assoc ..).symm
    | some answer => cases answer with
      | applied entries => rfl
      | refused failure => exact (List.append_assoc ..).symm
  refine ⟨⟨ahead.wf, ahead.versioned, fun o member => ?_, fun id => ?_, fun id nonempty => ?_, ahead.acks, ahead.stream⟩,
    fun failure no => (by cases no), fun _ exact id nonempty => ?_⟩
  · rw [← List.append_assoc, List.mem_append] at member
    exact member.elim (ahead.named o) (named_syncState number σ.baseline state o)
  · dsimp only
    rw [mark_syncState numeral σ.baseline state.mirror (ahead.sound id), bumps]
    have sound := ahead.sound id
    generalize (syncState number σ.baseline state.mirror).2 = ops
    generalize mark? σ.baseline id = mark at sound ⊢
    induction ops generalizing mark with
    | nil => exact sound
    | cons o ops ih => exact ih _ (sound_bump sound)
  · rw [grown]
    exact (ahead.covered id nonempty).append (covered_syncState numeral state.mirror (ahead.sound id))
  · rw [grown]
    dsimp only
    rw [mark_syncState numeral σ.baseline state.mirror (ahead.sound id), ← exact id nonempty, bumps, bumps, bumps, List.foldl_append]

theorem step_serve (ahead : σ.Ahead) {served : Served} {output : Option Answer}
    (taken : σ.step cfg client number isoformat (.serve served) = some (τ, output)) :
    Proceeds cfg client σ (.serve served) τ output := by
  rw [step] at taken
  split at taken
  swap
  · cases taken
  rename_i waiting
  have unanswered : σ.answer = none := Option.isNone_iff_eq_none.mp waiting.2
  have pending : σ.unserved = σ.inFlight ++ σ.queue := by rw [unserved, unanswered]
  obtain ⟨rfl, rfl⟩ := Prod.mk.inj (Option.some.inj taken)
  -- A refusal leaves the annotations as they were.
  have refused : ∀ (m : Memory) failure, m.Wf → m.view.state = σ.memory.view.state → failure.isConflict = false →
      σ.serve cfg client isoformat served = (m, .refused failure) →
      Proceeds cfg client σ (.serve served) { σ with
        memory := (σ.serve cfg client isoformat served).1, answer := some (σ.serve cfg client isoformat served).2 }
        (some (σ.serve cfg client isoformat served).2) := by
    intro m failure wf same peaceful result
    rw [result]
    have marks : ∀ id, m.view.mark? id = σ.memory.view.mark? id := fun id => by rw [Session.mark?, same, Session.mark?]
    refine ⟨⟨wf, ?_, ahead.named, ahead.sound, fun id nonempty => ?_, fun entries no => (by cases no), ahead.stream⟩,
      fun failure' given => ?_, fun _ exact id nonempty => ?_⟩
    · dsimp only
      rw [same]
      exact ahead.versioned
    · have covered := ahead.covered id nonempty
      rw [pending] at covered
      exact (marks id).symm ▸ covered
    · cases given
      exact peaceful
    · have before := exact id nonempty
      rw [pending] at before
      exact (marks id).symm ▸ before
  have arrives : Arrives cfg client served.env (mark? σ.baseline) σ.queue σ.inFlight 0 { memory := σ.memory, leases := served.leases } := by
    refine walk_arrives ahead.wf ahead.versioned (fun o member => ahead.named o (List.mem_append_left _ member)) fun id nonempty => ?_
    have covered := ahead.covered id nonempty
    rw [pending] at covered
    exact covered
  obtain ⟨passed, failed⟩ := Walk.run_sound cfg client ahead.wf served.leases (batchOps served.env 0 σ.inFlight)
  have restored : ∀ m : Memory, σ.memory.heap.size ≤ m.heap.size →
      (m.restore σ.memory.view σ.memory.ring σ.memory.view.name).Wf := fun m grown =>
    Memory.restore_wf _ _ fun entry inRing => (ahead.wf.ringValid entry inRing).mono grown
  by_cases admitted : served.admitted = true
  swap
  · refine refused σ.memory .rateLimited ahead.wf rfl rfl ?_
    rw [serve, if_pos (by simpa using admitted)]
  cases walked : Walk.run cfg client (batchOps served.env 0 σ.inFlight) { memory := σ.memory, leases := served.leases } with
  | error ended =>
    obtain ⟨failure, m⟩ := ended
    refine refused _ failure (restored m (failed failure m walked)) state_restore (arrives.peaceful failure m walked) ?_
    rw [serve, if_neg (by simpa using admitted), walked]
  | ok w =>
    by_cases persists : served.persists = true
    swap
    · refine refused _ .persistFailed (restored w.memory (passed w walked).grown) state_restore rfl ?_
      rw [serve, if_neg (by simpa using admitted), walked]
      dsimp only
      rw [if_neg persists]
    have result : σ.serve cfg client isoformat served = (w.memory, .applied (w.pending.filterMap fun entry =>
        entry.applied?.map fun applied => applied.op.map fun r => wire isoformat (w.memory.heap.read r))) := by
      rw [serve, if_neg (by simpa using admitted), walked]
      dsimp only
      rw [if_pos persists]
    rw [result]
    refine ⟨⟨arrives.wf w walked, arrives.versioned w walked, ahead.named, ahead.sound, arrives.covered w walked, ?_, ahead.stream⟩,
      fun failure no => (by cases no), fun orderly exact id nonempty => ?_⟩
    · intro entries given entry member
      cases given
      obtain ⟨pendingEntry, listed, made⟩ := List.mem_filterMap.mp member
      obtain ⟨applied, isApplied, rfl⟩ := Option.map_eq_some_iff.mp made
      have counted := walk_counted ahead.wf walked pendingEntry listed applied isApplied
      have wired := @acks_wire isoformat (applied.op.map w.memory.heap.read) (by
        intro a shared
        rw [AppliedOp.shared?_map] at shared
        obtain ⟨r, named, rfl⟩ := Option.mem_map.mp shared
        exact counted r named)
      rw [AppliedOp.map_map] at wired
      exact wired
    · have before := exact id nonempty
      rw [pending, bumps, List.foldl_append, ← bumps, ← bumps] at before
      rw [← before, ← arrives.exact w walked orderly id]
      rfl

theorem step_read (numeral : Numeral number) (ahead : σ.Ahead) {retried : Bool} (kept : σ.Kept (.read retried))
    {output : Option Answer} (taken : σ.step cfg client number isoformat (.read retried) = some (τ, output)) :
    Proceeds cfg client σ (.read retried) τ output := by
  rw [step] at taken
  split at taken
  · cases taken
  · rename_i entries given
    cases taken
    have processed : σ.unserved = σ.queue := by rw [unserved, given]
    obtain ⟨sound, below, same⟩ := foldAcked_spec numeral (ahead.acks entries given) ahead.sound
    refine ⟨⟨ahead.wf, ahead.versioned, fun o member => ahead.named o (List.mem_append_right _ member), sound,
      fun id nonempty => ?_, fun entries no => (by cases no), ahead.stream⟩, fun failure no => (by cases no),
      fun orderly exact id nonempty => ?_⟩
    · have covered := ahead.covered id nonempty
      rw [processed] at covered
      exact covered.learn (below id)
    · rw [Orderly, given] at orderly
      have before := exact id nonempty
      rw [processed] at before
      exact before.trans (same orderly id nonempty).symm
  · rename_i failure given
    have pending : σ.unserved = σ.inFlight ++ σ.queue := by rw [unserved, given]
    split at taken
    · cases taken
      exact ahead.moved rfl rfl rfl pending.symm (fun o member => member) fun entries no => (by cases no)
    · rename_i dropped
      split at taken
      · cases taken
        exact ahead.moved rfl rfl rfl pending.symm (fun o member => member) fun entries no => (by cases no)
      · rename_i lone
        cases taken
        -- The one op that was refused is given up.
        cases batch : σ.inFlight with
        | nil =>
          rw [batch, List.nil_append] at pending
          refine ahead.moved rfl rfl rfl pending.symm (fun o member => ?_) fun entries no => (by cases no)
          exact List.mem_append_right _ member
        | cons o rest =>
          obtain rfl : rest = [] := by
            rw [batch, List.length_cons] at lone
            exact List.eq_nil_of_length_eq_zero (by omega)
          rw [batch, List.singleton_append] at pending
          refine ⟨⟨ahead.wf, ahead.versioned, fun p member => ahead.named p (List.mem_append_right _ member), ahead.sound,
            fun id nonempty => ?_, fun entries no => (by cases no), ahead.stream⟩, fun failure no => (by cases no),
            fun orderly exact id nonempty => ?_⟩
          · have covered := ahead.covered id nonempty
            rw [pending] at covered
            refine covered.2.mono (below_bump ?_)
            rcases kept failure given with retry | many | keeps
            · exact absurd retry dropped
            · exact absurd many lone
            · exact keeps o (by rw [batch]; exact List.mem_cons_self)
          · rw [Orderly, given] at orderly
            have before := exact id nonempty
            rw [pending, bumps, List.foldl_cons] at before
            rcases orderly with retry | many | quiet
            · exact absurd retry dropped
            · exact absurd many lone
            · rw [StateOp.bump_of_not (StateOp.versions_of_annotates (quiet o (by rw [batch]; exact List.mem_cons_self)) id)]
                at before
              exact before

theorem step_other (ahead : σ.Ahead) {call : Call} {output : Option Answer}
    (taken : σ.step cfg client number isoformat (.other call) = some (τ, output)) :
    Proceeds cfg client σ (.other call) τ output := by
  rw [step] at taken
  split at taken
  · cases taken
  · rename_i silent
    have quiet : call.op.annotates = false := Bool.not_eq_true _ ▸ silent
    split at taken
    · rename_i applied after accepted
      cases taken
      have viewed := Memory.view_applied ahead.wf accepted
      have creates : call.op.NamesCreated := by
        intro ann created
        rw [created] at quiet
        cases quiet
      have marks : ∀ id, after.view.mark? id = σ.memory.view.mark? id := by
        intro id
        rw [Session.mark_applied viewed creates id, StateOp.bump_of_not (StateOp.versions_of_annotates quiet id)]
      refine ⟨⟨(Memory.applyStateOp_extends ahead.wf (congrArg Outcome.after? accepted)).wf,
        Session.versioned_applied viewed ahead.versioned, ahead.named, ahead.sound, fun id nonempty => ?_, ahead.acks, ?_⟩,
        fun failure no => (by cases no), fun _ exact id nonempty => ?_⟩
      · exact (marks id).symm ▸ ahead.covered id nonempty
      · intro op member
        rcases List.mem_append.mp member with old | new
        · exact ahead.stream op old
        · rw [List.mem_singleton.mp new, annotates_map]
          exact applied_quiet ahead.wf accepted quiet
      · exact (marks id).symm ▸ exact id nonempty
    · cases taken

theorem step_proceeds (numeral : Numeral number) (ahead : σ.Ahead) {action : WriteAction} (kept : σ.Kept action)
    {output : Option Answer} (taken : σ.step cfg client number isoformat action = some (τ, output)) :
    Proceeds cfg client σ action τ output := by
  cases action with
  | sync state => exact step_sync numeral ahead taken
  | serve served => exact step_serve ahead taken
  | read retried => exact step_read numeral ahead kept taken
  | other call => exact step_other ahead taken
  | send count =>
    rw [step] at taken
    split at taken
    · rename_i idle
      have unanswered : σ.answer = none := Option.isNone_iff_eq_none.mp idle.2
      cases taken
      refine ahead.moved rfl rfl rfl ?_ (fun o member => ?_) fun entries => ?_
      · rw [unserved, unserved, unanswered]
        dsimp only
        rw [idle.1, List.take_append_drop, List.nil_append]
      · rw [List.take_append_drop] at member
        exact List.mem_append_right _ member
      · dsimp only
        rw [unanswered]
        exact fun no => (by cases no)
    · cases taken
  | deliver =>
    rw [step] at taken
    split at taken
    · cases taken
    · rename_i op stream arrived
      cases taken
      have quiet := ahead.stream op (by rw [arrived]; exact List.mem_cons_self)
      have marks := mark_applyOpToMirror quiet σ.baseline
      refine ⟨⟨ahead.wf, ahead.versioned, ahead.named, fun id => (marks id).symm ▸ ahead.sound id, fun id nonempty => ?_, ahead.acks,
        fun later member => ahead.stream later (by rw [arrived]; exact List.mem_cons_of_mem _ member)⟩,
        fun failure no => (by cases no), fun _ exact id nonempty => ?_⟩
      · exact (marks id).symm ▸ ahead.covered id nonempty
      · exact (exact id nonempty).trans (marks id).symm

/-- No batch is refused for a conflict as long as no deletion is given up; and when everything has been acknowledged, the
client has the version of every annotation, as long as every step was orderly. -/
theorem sole_writer (numeral : Numeral number) {start : Writing} (joined : start.Joined isoformat)
    {history : List (WriteAction × Option Answer)} :
    (Run (step cfg client number isoformat) (fun _ σ action => σ.Kept action) start history σ →
      ∀ entry ∈ history, ∀ failure, entry.2 = some (.refused failure) → failure.isConflict = false) ∧
    (Run (step cfg client number isoformat) (fun _ σ action => σ.Orderly cfg client action) start history σ → σ.Settled →
      ∀ id ≠ "", mark? σ.baseline id = σ.memory.view.mark? id) := by
  constructor
  · intro run
    refine (Run.invariant (fun history σ => σ.Ahead ∧
      ∀ entry ∈ history, ∀ failure, entry.2 = some (.refused failure) → failure.isConflict = false)
      ⟨joined.ahead.1, fun entry no => (by cases no)⟩ ?_ run).2
    rintro history σ action τ output ⟨ahead, peaceful⟩ kept taken
    have proceeds := step_proceeds numeral ahead kept taken
    refine ⟨proceeds.ahead, fun entry member => ?_⟩
    rcases List.mem_append.mp member with old | new
    · exact peaceful entry old
    · rw [List.mem_singleton.mp new]
      exact proceeds.peaceful
  · intro run settled id nonempty
    have exact : σ.Exact := by
      refine (Run.invariant (fun _ σ => σ.Ahead ∧ σ.Exact) joined.ahead ?_ run).2
      rintro history σ action τ output ⟨ahead, exact⟩ orderly taken
      have proceeds := step_proceeds numeral ahead orderly.kept taken
      exact ⟨proceeds.ahead, proceeds.exact orderly exact⟩
    have nothing : σ.unserved = [] := by rw [unserved, settled.answer, settled.inFlight, settled.queue]; rfl
    have same := exact id nonempty
    rw [nothing] at same
    exact same.symm

end Steps

/-! ### An annotation that is deleted before its creation is acknowledged -/

def blank : Writing where
  baseline := {}
  memory := {}

theorem blank_joined : blank.Joined Nat.repr where
  baseline := by decide +kernel
  queue := rfl
  inFlight := rfl
  answer := rfl
  stream := rfl
  wf := ⟨List.nodup_nil, fun r no => (by cases no), fun entry no => (by cases no)⟩
  versioned _ no := (by cases no)
  clean _ no := (by cases no)
  distinct := List.nodup_nil

theorem numeral_number? : Numeral Json.number? := ⟨fun _ => rfl, rfl⟩

/-- The canvas shows a note. -/
def noteShown : Shown where
  mirror := { annotations := [Dict.of [("id", .str "a"), ("type", .str "note")]] }
  ids a member _ := by
    obtain rfl := List.mem_singleton.mp member
    exact ⟨"a", rfl⟩

def noneShown : Shown where
  mirror := {}
  ids _ no := (by cases no)

def served : Served where
  env i := { now := i, freshId := "new" }

def createOnly : List WriteAction := [.sync noteShown, .send 1, .serve served, .read false]

def deleteInFlight : List WriteAction :=
  [.sync noteShown, .send 1, .serve served, .sync noneShown, .read false, .send 1, .serve served, .read false]

/-- A check that is enough for a step to be orderly. -/
def plainly (σ : Writing) : WriteAction → Bool
  | .serve _ => σ.inFlight.length ≤ 1 && σ.memory.session.deletedAnnotationIds = []
  | .read _ => match σ.answer with
    | some (.applied entries) => entries.all fun entry => match entry.shared? with
      | some ann => match ann.get "id", ann.get "version" with
        | .str id, .num q => 1 ≤ q && mark? σ.baseline id = some (.num q)
        | _, _ => false
      | none => true
    | _ => false
  | _ => true

theorem orderly_of_plainly {σ : Writing} {action : WriteAction} (plain : σ.plainly action = true) :
    σ.Orderly {} "ada" action := by
  cases action with
  | serve served =>
    simp only [plainly, Bool.and_eq_true, decide_eq_true_eq] at plain
    rintro front o back split w' walked ann id - -
    obtain rfl : front = [] := by
      have lengths := congrArg List.length split
      rw [List.length_append, List.length_cons] at lengths
      exact List.eq_nil_of_length_eq_zero (by omega)
    cases walked
    dsimp only
    rw [plain.2]
    exact List.not_mem_nil
  | read retried =>
    rw [Orderly]
    rw [plainly] at plain
    split at plain
    · rename_i entries given
      rw [given]
      intro entry member ann shared id named nonempty
      have checked := List.all_eq_true.mp plain entry member
      rw [shared] at checked
      dsimp only at checked
      rw [named] at checked
      split at checked
      · rename_i other q same version
        obtain rfl := Json.str.inj same
        rw [Bool.and_eq_true, decide_eq_true_eq, decide_eq_true_eq] at checked
        exact ⟨q, checked.2, by rw [version, rank_num checked.1]⟩
      · cases checked
    · cases plain
  | _ => trivial

/-- How a list of actions ends that are all allowed: whether everything has been acknowledged and no batch refused, and the
two versions of the note. -/
def summary (allowed : Writing → WriteAction → Bool) (actions : List WriteAction) : Option (Bool × Option Json × Option Json) :=
  (trace (step {} "ada" Json.number? Nat.repr) allowed [] blank actions).map fun ended =>
    (ended.2.queue.isEmpty && ended.2.inFlight.isEmpty && ended.2.answer.isNone && ended.1.all fun entry => match entry.2 with
      | some (.refused _) => false
      | _ => true, mark? ended.2.baseline "a", ended.2.memory.view.mark? "a")

private theorem summary_facts : summary plainly createOnly = some (true, some (.num 1), some (.num 1)) ∧
    summary (fun _ _ => true) deleteInFlight = some (true, some (.num 1), none) := by
  decide +kernel

theorem sole_writer_sample : ∃ history σ,
    Run (step {} "ada" Json.number? Nat.repr) (fun _ σ action => σ.Orderly {} "ada" action) blank history σ ∧
      (∀ entry ∈ history, ∀ failure, entry.2 = some (.refused failure) → failure.isConflict = false) ∧
      σ.Settled ∧ mark? σ.baseline "a" = σ.memory.view.mark? "a" := by
  obtain ⟨ended, traced, facts⟩ := Option.map_eq_some_iff.mp summary_facts.1
  simp only [Prod.mk.injEq, Bool.and_eq_true, List.isEmpty_iff, Option.isNone_iff_eq_none] at facts
  have settled : ended.2.Settled := ⟨facts.1.1.1.1, facts.1.1.1.2, facts.1.1.2⟩
  have run : Run (step {} "ada" Json.number? Nat.repr) (fun _ σ action => σ.Orderly {} "ada" action) blank ended.1 ended.2 :=
    (Run.trace .start traced).mono fun plain => orderly_of_plainly plain
  have both := @sole_writer {} "ada" Json.number? Nat.repr ended.2 numeral_number? blank blank_joined ended.1
  exact ⟨ended.1, ended.2, run, both.1 (run.mono Orderly.kept), settled, both.2 run settled "a" (by decide)⟩

/-- A note is deleted while its creation is in flight. The acknowledgement brings it back to the baseline, and when
everything has been acknowledged the client has a version of a note that the session does not have. -/
theorem deleted_in_flight_returns : Numeral Json.number? ∧ blank.Joined Nat.repr ∧ ∃ history σ,
    Run (step {} "ada" Json.number? Nat.repr) (fun _ _ _ => True) blank history σ ∧ σ.Settled ∧
      (∀ entry ∈ history, ∀ failure, entry.2 ≠ some (.refused failure)) ∧
      mark? σ.baseline "a" = some (.num 1) ∧ σ.memory.view.mark? "a" = none := by
  obtain ⟨ended, traced, facts⟩ := Option.map_eq_some_iff.mp summary_facts.2
  simp only [Prod.mk.injEq, Bool.and_eq_true, List.isEmpty_iff, Option.isNone_iff_eq_none] at facts
  obtain ⟨⟨⟨⟨queue, inFlight⟩, answer⟩, accepted⟩, client, server⟩ := facts
  refine ⟨numeral_number?, blank_joined, ended.1, ended.2, Run.of_trace traced, ⟨queue, inFlight, answer⟩, ?_, client, server⟩
  intro entry member failure refused
  have checked := List.all_eq_true.mp accepted entry member
  rw [refused] at checked
  cases checked

end Writing

end Client

end MetadataGraph
