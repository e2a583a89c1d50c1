import MetadataGraph.Lib.ObjectHeap
import MetadataGraph.Session.Effects

namespace MetadataGraph

open ObjectHeap

/-- One session in memory with its recent-ops ring. The ring, the published ops and
`session.state` hold the same annotation objects. -/
structure Memory where
  heap : Heap Annotation := {}
  session : Session Ref := {}
  ring : List (Applied Ref) := []
  deriving DecidableEq

namespace Memory

/-- The annotation objects of `session.state`. -/
def refs (m : Memory) : List Ref := m.session.state.annotations

/-- The session as a reader sees it now. -/
def view (m : Memory) : Session Annotation := m.session.map m.heap.read

/-- The ring as a reader sees it now. -/
def entries (m : Memory) : List (Applied Annotation) := m.ring.map (Applied.map m.heap.read)

/-- The objects after an edit, with the annotation list over them. -/
def edit (m : Memory) : AnnotationEdit → Heap Annotation × List Ref
  | .rewrite contents => (m.heap.writeAll m.refs contents, m.refs)
  | .append ann =>
    ((m.heap.allocAll [ann]).1, m.refs ++ (m.heap.allocAll [ann]).2)
  | .remove id => (m.heap, m.refs.filter fun r => !(m.heap.read r).hasId id)

/-- `apply_state_op`. -/
def applyStateOp (cfg : StoreConfig) (call : Call) (m : Memory) : Outcome Ref Memory :=
  match m.view.judge cfg call with
  | .drop => .dropped
  | .reject failure canvas contents =>
    .raised failure { m with
      heap := m.heap.writeAll m.refs contents
      session := { m.session with state := { m.session.state with toCanvas := canvas } } }
  | .accept e =>
    let edited := m.edit e.edit
    let applied : Applied Ref := ⟨m.session.seq + 1, e.applied.at edited.2⟩
    .applied applied
      { heap := edited.1, session := m.session.commit cfg call e edited.2
        ring := boundedAppend cfg.ringSize m.ring applied }

/-- `ops_since`. -/
def opsSince (m : Memory) (sinceSeq : Int) : Option (List (Applied Ref)) :=
  if sinceSeq ≥ m.session.seq then some []
  else match m.ring with
  | [] => none
  | oldest :: _ =>
    if (oldest.seq : Int) > sinceSeq + 1 then none
    else some (m.ring.filter fun op => (op.seq : Int) > sinceSeq)

end Memory

/-- What a caller that reads the objects sees of an outcome. -/
def Outcome.view : Outcome Ref Memory → Outcome Annotation (Session Annotation)
  | .applied op after => .applied (op.map after.heap.read) after.view
  | .dropped => .dropped
  | .raised failure after => .raised failure after.view

/-- The session that a call leaves, whether it succeeds or raises. -/
def Outcome.after? {α σ : Type} : Outcome α σ → Option σ
  | .applied _ after | .raised _ after => some after
  | .dropped => none

namespace Memory

end Memory

/-- The annotation object that an op names is allocated. -/
def Applied.Below (size : Nat) (entry : Applied Ref) : Prop :=
  ∀ r : Nat, r ∈ entry.op.shared? → r < size

theorem Applied.Below.mono {size larger : Nat} {entry : Applied Ref} (below : entry.Below size)
    (grown : size ≤ larger) : entry.Below larger := fun r named => (below r named).trans_le grown

namespace Memory

/-- The objects of the session are distinct, and what it and the ring hold is allocated. -/
structure Wf (m : Memory) : Prop where
  distinct : m.refs.Nodup
  stateValid : m.heap.Valid m.refs
  ringValid : ∀ entry ∈ m.ring, entry.Below m.heap.size

variable {cfg : StoreConfig} {call : Call} {m : Memory}

theorem view_annotations (m : Memory) : m.view.state.annotations = m.refs.map m.heap.read := rfl

/-- The contents behind the list an edit leaves are the contents the edit describes. -/
theorem map_read_edit (wf : m.Wf) {e : Effect} {op : StateOp} (fits : e.Fits op m.view.state.annotations) :
    (m.edit e.edit).2.map (m.edit e.edit).1.read = e.edit.contents m.view.state.annotations := by
  cases kind : e.edit with
  | rewrite contents =>
    have same := (fits.rewritten contents kind).length_eq
    rw [view_annotations, List.length_map] at same
    exact Heap.map_read_writeAll wf.distinct wf.stateValid same
  | append ann =>
    rw [AnnotationEdit.contents, edit, List.map_append, Heap.map_read_allocAll]
    congr 1
    exact List.map_congr_left fun r member => Heap.read_allocAll_of_lt (wf.stateValid r member) _
  | remove id =>
    simp only [AnnotationEdit.contents, edit, view_annotations, List.filter_map]
    rfl

theorem map_read_rejected (wf : m.Wf) {contents : List Annotation}
    (rewritten : List.Forall₂ call.op.Rewritten m.view.state.annotations contents) :
    m.refs.map (m.heap.writeAll m.refs contents).read = contents := by
  have same := rewritten.length_eq
  rw [view_annotations, List.length_map] at same
  exact Heap.map_read_writeAll wf.distinct wf.stateValid same

/-- On the objects `apply_state_op` does what it does on their contents. -/
theorem applyStateOp_view (wf : m.Wf) :
    (m.applyStateOp cfg call).view = m.view.applyStateOp cfg call := by
  have fits : (m.view.judge cfg call).Satisfies _ _ := Session.judge_fits call
  unfold applyStateOp Session.applyStateOp
  cases verdict : m.view.judge cfg call with
  | drop => rfl
  | reject failure canvas contents =>
    rw [verdict] at fits
    simp only [Outcome.view, view, Session.map, State.map]
    rw [show m.session.state.annotations = m.refs from rfl, map_read_rejected wf fits]
  | accept e =>
    rw [verdict] at fits
    have contents := map_read_edit wf fits
    simp only [Outcome.view, view, Session.map, State.map, Session.commit, contents]
    congr 1
    simp only [Applied.map, AppliedOp.at, AppliedOp.map_map]
    congr 1
    apply AppliedOp.map_congr
    intro i member
    have inside := fits.position i member
    change _ = (e.edit.contents m.view.state.annotations).getD i default
    rw [← contents] at inside ⊢
    rw [List.length_map] at inside
    simp only [Function.comp_apply, List.getD_eq_getElem?_getD, List.getElem?_map,
      List.getElem?_eq_getElem inside, Option.map_some, Option.getD_some]

/-- Assigning the rewritten contents changes only objects that the op may rewrite. -/
theorem read_writeAll_rewritten (wf : m.Wf) {op : StateOp} {contents : List Annotation}
    (rewritten : List.Forall₂ op.Rewritten m.view.state.annotations contents) {r : Ref}
    (untouched : r ∈ m.refs → op.rewrites (m.heap.read r) = false) :
    (m.heap.writeAll m.refs contents).read r = m.heap.read r := by
  rw [view_annotations, List.forall₂_map_left_iff] at rewritten
  by_cases member : r ∈ m.refs
  · apply Heap.read_writeAll_of_same wf.distinct wf.stateValid
    intro a pair
    rcases List.forall₂_zip rewritten pair with same | ⟨rewrites, -⟩
    · exact same
    · rw [untouched member] at rewrites
      cases rewrites
  · exact Heap.read_writeAll_of_notMem member _

theorem size_edit (e : AnnotationEdit) : m.heap.size ≤ (m.edit e).1.size := by
  cases e with
  | rewrite contents => exact (Heap.size_writeAll _ _ _).ge
  | append ann =>
    rw [edit, Heap.size_allocAll]
    omega
  | remove id => exact le_refl _

theorem read_edit (wf : m.Wf) {e : Effect} {op : StateOp} (fits : e.Fits op m.view.state.annotations)
    {r : Ref} (valid : r < m.heap.size)
    (untouched : r ∈ m.refs → op.rewrites (m.heap.read r) = false) :
    (m.edit e.edit).1.read r = m.heap.read r := by
  cases kind : e.edit with
  | rewrite contents => exact read_writeAll_rewritten wf (fits.rewritten contents kind) untouched
  | append ann => exact Heap.read_allocAll_of_lt valid _
  | remove id => rfl

theorem edit_refs (wf : m.Wf) (e : AnnotationEdit) :
    (m.edit e).2.Nodup ∧ (m.edit e).1.Valid (m.edit e).2 := by
  cases e with
  | rewrite contents =>
    refine ⟨wf.distinct, fun r member => ?_⟩
    rw [edit, Heap.size_writeAll]
    exact wf.stateValid r member
  | append ann =>
    constructor
    · refine List.nodup_append'.mpr ⟨wf.distinct, Heap.allocAll_nodup _ _, ?_⟩
      intro r old fresh
      have := (Heap.allocAll_fresh fresh).1
      have := wf.stateValid r old
      omega
    · intro r member
      rw [edit, Heap.size_allocAll]
      rcases List.mem_append.mp member with old | fresh
      · have := wf.stateValid r old
        omega
      · exact (Heap.allocAll_fresh fresh).2
  | remove id =>
    exact ⟨wf.distinct.filter _, fun r member => wf.stateValid r (List.mem_filter.mp member).1⟩

/-- What a call leaves: no object is lost, the objects the op may not rewrite keep their
contents, and the ring has at most the new op more. -/
structure Extends (op : StateOp) (m after : Memory) : Prop where
  size : m.heap.size ≤ after.heap.size
  frame : ∀ r < m.heap.size, (r ∈ m.refs → op.rewrites (m.heap.read r) = false) →
    after.heap.read r = m.heap.read r
  wf : after.Wf

theorem at_below (wf : m.Wf) {e : Effect} {op : StateOp} (fits : e.Fits op m.view.state.annotations)
    (seq : Nat) : Applied.Below (m.edit e.edit).1.size ⟨seq, e.applied.at (m.edit e.edit).2⟩ := by
  intro r named
  obtain ⟨i, member, rfl⟩ : ∃ i ∈ e.applied.shared?, (m.edit e.edit).2.getD i default = r := by
    simpa [AppliedOp.at] using named
  have inside := fits.position i member
  rw [← map_read_edit wf fits, List.length_map] at inside
  apply (edit_refs wf e.edit).2
  rw [List.getD_eq_getElem?_getD, List.getElem?_eq_getElem inside, Option.getD_some]
  exact List.getElem_mem inside

theorem applyStateOp_extends (wf : m.Wf) {after : Memory}
    (left : (m.applyStateOp cfg call).after? = some after) : Extends call.op m after := by
  have fits : (m.view.judge cfg call).Satisfies _ _ := Session.judge_fits call
  unfold applyStateOp at left
  cases verdict : m.view.judge cfg call with
  | drop =>
    rw [verdict] at left
    cases left
  | reject failure canvas contents =>
    rw [verdict] at left fits
    cases left
    have size := Heap.size_writeAll m.heap m.refs contents
    refine ⟨size.ge, fun r valid untouched => read_writeAll_rewritten wf fits untouched, ?_⟩
    exact ⟨wf.distinct, fun r member => size ▸ wf.stateValid r member,
      fun entry inRing => (wf.ringValid entry inRing).mono size.ge⟩
  | accept e =>
    rw [verdict] at left fits
    cases left
    obtain ⟨distinct, valid⟩ := edit_refs wf e.edit
    have size := m.size_edit e.edit
    refine ⟨size, fun r valid untouched => read_edit wf fits valid untouched, distinct, valid, ?_⟩
    intro entry inRing
    rcases List.mem_append.mp (List.mem_of_mem_drop inRing) with old | new
    · exact (wf.ringValid entry old).mono size
    · rw [List.mem_singleton] at new
      subst new
      exact at_below wf fits _

/-- What an accepted call does besides its effect on the contents: it numbers the op and
appends it to the ring. -/
theorem applyStateOp_applied (wf : m.Wf) {applied : Applied Ref} {after : Memory}
    (accepted : m.applyStateOp cfg call = .applied applied after) :
    applied.seq = m.session.seq + 1 ∧ after.session.seq = m.session.seq + 1 ∧
      after.ring = boundedAppend cfg.ringSize m.ring applied ∧ applied.Below after.heap.size := by
  have fits : (m.view.judge cfg call).Satisfies _ _ := Session.judge_fits call
  unfold applyStateOp at accepted
  cases verdict : m.view.judge cfg call with
  | drop =>
    rw [verdict] at accepted
    cases accepted
  | reject failure canvas contents =>
    rw [verdict] at accepted
    cases accepted
  | accept e =>
    rw [verdict] at accepted fits
    cases accepted
    exact ⟨rfl, rfl, rfl, at_below wf fits _⟩

/-- A call that raises changes no field of the session outside `state`. -/
theorem applyStateOp_raised {failure : Failure} {after : Memory}
    (raised : m.applyStateOp cfg call = .raised failure after) :
    after.session = { m.session with state := after.session.state } ∧ after.ring = m.ring ∧
      after.heap.size = m.heap.size := by
  unfold applyStateOp at raised
  split at raised
  · cases raised
  · cases raised
    exact ⟨rfl, rfl, Heap.size_writeAll _ _ _⟩
  · cases raised

end Memory

end MetadataGraph
