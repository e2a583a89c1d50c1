import MetadataGraph.Session.Integrity

namespace MetadataGraph

open Runs

/-! ### Annotations as the store keeps them -/

/-- The keys of an annotation that only the store writes. -/
def bookkeeping : List String := ["version", "field_versions", "updated_at"]

/-- A property of annotations that every branch of the store keeps. -/
structure Annotation.Upheld (P : Annotation → Prop) : Prop where
  fresh : ∀ {env client payload ann}, validatePayload payload false = .ok ann →
    P (Session.freshAnnotation env client ann)
  merge : ∀ {stamp target payload requireId incoming id}, P target →
    validatePayload payload requireId = .ok incoming → target.hasId id = true → incoming.get "id" = .str id →
      P (target.merge stamp incoming)
  members : ∀ {a} members, P a → P (a.withMembers members)
  stamped : ∀ {a} stamp, P a → P { a with updatedAt := stamp }

theorem replaceFirst_mem {p : Annotation → Bool} {replacement b : Annotation} {old : List Annotation}
    (member : b ∈ replaceFirst p replacement old) : b = replacement ∨ b ∈ old := by
  induction old with
  | nil => cases member
  | cons a old ih =>
    rw [replaceFirst] at member
    split at member
    · rcases List.mem_cons.mp member with same | later
      · exact Or.inl same
      · exact Or.inr (List.mem_cons_of_mem _ later)
    · rcases List.mem_cons.mp member with rfl | later
      · exact Or.inr List.mem_cons_self
      · exact (ih later).imp_right (List.mem_cons_of_mem _)

theorem getD_replaceFirst {p : Annotation → Bool} {old : List Annotation} {target replacement : Annotation}
    (found : old.find? p = some target) :
    (replaceFirst p replacement old).getD (old.findIdx p) default = replacement := by
  induction old with
  | nil => cases found
  | cons a old ih =>
    rw [List.find?_cons] at found
    rw [replaceFirst, List.findIdx_cons]
    split at found
    · rename_i here
      rw [if_pos here, here]
      rfl
    · rename_i apart
      rw [apart, if_neg Bool.false_ne_true]
      exact ih found

namespace Session

variable {cfg : StoreConfig} {env : Env} {client : String} {trusted : Bool} {s : Session Annotation}
variable {P : Annotation → Prop}

theorem mergeEffect_upholds (upheld : Annotation.Upheld P) (holds : ∀ a ∈ s.state.annotations, P a)
    {payload : Option (Dict Json)} {requireId : Bool} {ann : Dict Json} {id : String} {target : Annotation}
    (valid : validatePayload payload requireId = .ok ann) (sent : (ann.get "id").string? = some id)
    (found : s.state.find id = some target) :
    ∀ a ∈ replaceFirst (·.hasId id) (target.merge env.stamp ann) s.state.annotations, P a := by
  intro a member
  rcases replaceFirst_mem member with rfl | old
  · exact upheld.merge (holds _ (State.mem_of_find found)) valid (State.hasId_of_find found)
      (Json.string?_eq_some.mp sent)
  · exact holds a old

/-- Every branch keeps such a property of all annotations. -/
theorem plan_upholds (upheld : Annotation.Upheld P) (holds : ∀ a ∈ s.state.annotations, P a) (op : StateOp) :
    (s.plan cfg env client trusted op).Satisfies (fun e => ∀ a ∈ e.edit.contents s.state.annotations, P a)
      fun _ _ => True := by
  cases op with
  | nodesRemoved nodeIds =>
    apply validated_satisfies trivial
    intro removals valid
    dsimp only
    split
    · trivial
    · rename_i contents filtered
      have kept : List.Forall₂ (fun a b : Annotation => P a → P b) s.state.annotations contents := by
        refine dropMembers_forall₂ (fun a b filtered holdsA => ?_) filtered
        unfold Annotation.withoutMembers at filtered
        split at filtered
        · cases filtered
          exact holdsA
        · split at filtered
          · cases filtered
            exact upheld.members _ holdsA
          · cases filtered
      intro b member
      obtain ⟨i, inside, rfl⟩ := List.getElem_of_mem member
      have lengths := kept.length_eq
      change i < contents.length at inside
      exact List.Forall₂.get kept (by omega) inside (holds _ (List.getElem_mem (by omega)))
  | annotationCreated payload =>
    apply validated_satisfies trivial
    intro ann valid
    dsimp only
    split
    · trivial
    · split
      · trivial
      · split
        · rename_i id target sent found
          split
          · trivial
          · rw [sent, Option.bind_some] at found
            exact mergeEffect_upholds upheld holds valid sent found
        · split
          · trivial
          · intro a member
            rcases List.mem_append.mp member with old | new
            · exact holds a old
            · rw [List.mem_singleton.mp new]
              exact upheld.fresh valid
  | annotationUpdated payload baseVersion =>
    apply validated_satisfies trivial
    intro incoming valid
    dsimp only
    split
    · trivial
    · rename_i id sent
      split
      · trivial
      · rename_i target found
        have merged : ∀ a ∈ replaceFirst (·.hasId id) (target.merge env.stamp incoming) s.state.annotations, P a :=
          mergeEffect_upholds upheld holds valid sent found
        repeat' split
        all_goals first | exact merged | trivial
  | annotationDeleted annotationId id =>
    simp only [plan, planAnnotationDeleted]
    split
    · exact fun a member => holds a (List.mem_filter.mp member).1
    · trivial
  | groupMembershipChanged groupId members =>
    simp only [plan, planGroupMembershipChanged]
    split
    · apply validated_satisfies trivial
      intro members valid
      split
      · trivial
      · rename_i group found
        intro a member
        rcases replaceFirst_mem member with rfl | old
        · exact upheld.stamped _ (upheld.members _ (holds _ (List.mem_of_find?_eq_some found)))
        · exact holds a old
    · trivial
  | nodeMoved nodeId position =>
    simp only [plan, planNodeMoved]
    split
    · exact validated_satisfies trivial fun _ _ => holds
    · trivial
  | sessionRenamed name =>
    simp only [plan, planSessionRenamed]
    split
    · exact holds
    · exact holds
    · trivial
  | _ => exact validated_satisfies trivial fun _ _ => holds

end Session

/-- An annotation as the store keeps it: typed, with a creator and a valid position, and without
the server's bookkeeping among its other keys. -/
structure Annotation.Canonical (a : Annotation) : Prop extends a.Typed where
  created : "created_by" ∈ a.fields
  positioned : a.get "position" = .null ∨ (a.get "position").position?.isSome
  clean : ∀ key ∈ bookkeeping, key ∉ a.fields

theorem mem_canonicalPayload {ann : Dict Json} {annType key : String} :
    key ∈ canonicalPayload ann annType ↔ key ∉ bookkeeping ∧ (key = "type" ∨ key = "kind" ∨ key ∈ ann) := by
  simp only [canonicalPayload, bookkeeping, Std.ExtTreeMap.mem_erase, Std.ExtTreeMap.mem_insert, ne_eq,
    Std.LawfulEqCmp.compare_eq_iff_eq, List.mem_cons, List.not_mem_nil, or_false, not_or]
  constructor
  · rintro ⟨updated, fieldVersions, version, kind | type | sent⟩
    · exact ⟨⟨Ne.symm version, Ne.symm fieldVersions, Ne.symm updated⟩, Or.inr (Or.inl kind.symm)⟩
    · exact ⟨⟨Ne.symm version, Ne.symm fieldVersions, Ne.symm updated⟩, Or.inl type.symm⟩
    · exact ⟨⟨Ne.symm version, Ne.symm fieldVersions, Ne.symm updated⟩, Or.inr (Or.inr sent)⟩
  · rintro ⟨⟨version, fieldVersions, updated⟩, type | kind | sent⟩
    · exact ⟨Ne.symm updated, Ne.symm fieldVersions, Ne.symm version, Or.inr (Or.inl type.symm)⟩
    · exact ⟨Ne.symm updated, Ne.symm fieldVersions, Ne.symm version, Or.inl kind.symm⟩
    · exact ⟨Ne.symm updated, Ne.symm fieldVersions, Ne.symm version, Or.inr (Or.inr sent)⟩

theorem validatePayload_clean {payload : Option (Dict Json)} {requireId : Bool} {ann : Dict Json}
    (valid : validatePayload payload requireId = .ok ann) :
    (ann.get "position" = .null ∨ (ann.get "position").position?.isSome) ∧ ∀ key ∈ bookkeeping, key ∉ ann := by
  obtain ⟨sent, raw, -, -, -, -, positioned, rfl⟩ := validatePayload_eq_ok.mp valid
  refine ⟨?_, fun key own member => (mem_canonicalPayload.mp member).1 own⟩
  have same : (canonicalPayload sent (canonicalType raw)).get "position" = sent.get "position" := by
    simp [canonicalPayload, Dict.get_insert, Dict.get_erase]
  rw [same]
  exact positioned

theorem Dict.erase_eq_self {d : Dict Json} {key : String} (absent : key ∉ d) : d.erase key = d := by
  apply Std.ExtTreeMap.ext_getElem?
  intro other
  rw [Std.ExtTreeMap.getElem?_erase]
  split
  · rename_i same
    rw [← Std.LawfulEqCmp.compare_eq_iff_eq.mp same, Std.ExtTreeMap.getElem?_eq_none absent]
  · rfl

theorem Annotation.get_withMembers (a : Annotation) (members : List Json) {key : String}
    (other : key ≠ "member_node_ids") : (a.withMembers members).get key = a.get key := by
  rw [withMembers, Annotation.get, Dict.get_insert, if_neg (Ne.symm other)]
  rfl

theorem Annotation.canonical_upheld : Upheld Canonical where
  fresh := by
    intro env client payload ann valid
    obtain ⟨t, listed, type, kind, -⟩ := validatePayload_typed valid
    obtain ⟨positioned, clean⟩ := validatePayload_clean valid
    obtain ⟨typed, -⟩ := freshAnnotation_typed env client listed type kind
    have position : (Session.freshAnnotation env client ann).get "position" = ann.get "position" := by
      simp only [Session.freshAnnotation, Annotation.get]
      repeat' split
      all_goals simp [Dict.get_insert]
    refine { toTyped := typed, created := ?_, positioned := position ▸ positioned, clean := ?_ }
    · have named : ∀ named : Dict Json,
          "created_by" ∈ if "created_by" ∈ named then named else named.insert "created_by" (.str client) := by
        intro named
        split
        · rename_i given
          exact given
        · exact Std.ExtTreeMap.mem_insert_self
      exact named _
    · intro key own member
      have apart : key ≠ "id" ∧ key ≠ "created_by" := by
        simp only [bookkeeping, List.mem_cons, List.not_mem_nil, or_false] at own
        rcases own with rfl | rfl | rfl <;> decide
      apply clean key own
      simp only [Session.freshAnnotation] at member
      repeat' split at member
      all_goals simpa [Std.ExtTreeMap.mem_insert, Ne.symm apart.1, Ne.symm apart.2] using member
  merge := by
    intro stamp target payload requireId incoming id canonical valid held sent
    obtain ⟨t, listed, type, kind, hasType, hasKind⟩ := validatePayload_typed valid
    obtain ⟨positioned, clean⟩ := validatePayload_clean valid
    refine { toTyped := typed_merge held sent listed type kind hasType hasKind, created := ?_, positioned := ?_, clean := ?_ }
    · exact Std.ExtTreeMap.mem_union_iff.mpr (Or.inl canonical.created)
    · rw [ Annotation.get, merge, Dict.get_union]
      split
      · exact positioned
      · exact canonical.positioned
    · intro key own member
      rcases Std.ExtTreeMap.mem_union_iff.mp member with old | new
      · exact canonical.clean key own old
      · exact clean key own new
  members := by
    intro a members canonical
    refine { toTyped := typed_withMembers canonical.toTyped members, created := ?_, positioned := ?_, clean := ?_ }
    · exact Std.ExtTreeMap.mem_insert.mpr (Or.inr canonical.created)
    · rw [a.get_withMembers members (by decide)]
      exact canonical.positioned
    · intro key own member
      rcases Std.ExtTreeMap.mem_insert.mp member with same | old
      · rw [← Std.LawfulEqCmp.compare_eq_iff_eq.mp same] at own
        exact absurd own (by decide)
      · exact canonical.clean key own old
  stamped := fun _ canonical =>
    { toTyped := canonical.toTyped.of_fields rfl, created := canonical.created
      positioned := canonical.positioned, clean := canonical.clean }

/-- The store takes the fields of an annotation that it keeps as they are. -/
theorem Annotation.Canonical.validatePayload_fields {a : Annotation} (canonical : a.Canonical) (requireId : Bool) :
    validatePayload (some a.fields) requireId = .ok a.fields := by
  obtain ⟨⟨⟨id, named⟩, t, listed, type, kind⟩, -, positioned, clean⟩ := canonical
  have asked : canonicalType t = t := by
    rw [canonicalType, if_neg]
    rintro rfl
    exact absurd listed (by decide)
  have nonempty : t ≠ "" := by
    rintro rfl
    exact absurd listed (by decide)
  have present : ∀ key, a.get key = .str t → a.fields[key]? = some (.str t) := fun key stored => by
    rw [← stored]
    exact Dict.getElem?_of_get_ne_null (by rw [show a.fields.get key = _ from stored]; simp)
  refine validatePayload_eq_ok.mpr ⟨a.fields, t, rfl, ?_, asked.symm ▸ listed, ?_, positioned, ?_⟩
  · rw [show a.fields.get "type" = _ from type, Json.orElse, if_pos (by simpa [Json.truthy] using nonempty), Json.string?_str]
  · rw [show a.fields.get "id" = _ from named]
    exact fun _ => rfl
  · rw [asked, canonicalPayload, Dict.insert_eq_self (present "type" type), Dict.insert_eq_self (present "kind" kind),
      Dict.erase_eq_self (clean "version" (by decide)),
      Dict.erase_eq_self (clean "field_versions" (by decide)),
      Dict.erase_eq_self (clean "updated_at" (by decide))]

/-! ### Sessions up to the server's bookkeeping -/

/-- Two states with the same contents: the lists up to order, the annotations up to `version`,
`field_versions` and `updated_at`. -/
structure State.Alike (s t : State Annotation) : Prop where
  nodeRefs : s.nodeRefs.Perm t.nodeRefs
  positions : s.positions = t.positions
  sets : ∀ set, (s.toCanvas.ids set).Perm (t.toCanvas.ids set)
  intensity : s.edgeIntensity = t.edgeIntensity
  annotations : (s.annotations.map (·.fields)).Perm (t.annotations.map (·.fields))

theorem State.Alike.refl (s : State Annotation) : s.Alike s :=
  ⟨.refl _, rfl, fun _ => .refl _, rfl, .refl _⟩

theorem State.Alike.symm {s t : State Annotation} (alike : s.Alike t) : t.Alike s :=
  ⟨alike.nodeRefs.symm, alike.positions.symm, fun set => (alike.sets set).symm, alike.intensity.symm,
    alike.annotations.symm⟩

theorem State.Alike.trans {s t u : State Annotation} (first : s.Alike t) (second : t.Alike u) : s.Alike u :=
  ⟨first.nodeRefs.trans second.nodeRefs, first.positions.trans second.positions,
    fun set => (first.sets set).trans (second.sets set), first.intensity.trans second.intensity,
    first.annotations.trans second.annotations⟩

/-- The state that an effect leads to. -/
def Effect.state (e : Effect) (old : List Annotation) : State Annotation :=
  { toCanvas := e.canvas, annotations := e.edit.contents old }

/-- A well-formed session whose annotations are as the store keeps them. -/
structure Session.Steady (cfg : StoreConfig) (s : Session Annotation) : Prop extends s.WellFormed cfg where
  canonical : ∀ a ∈ s.state.annotations, a.Canonical

namespace Session

variable {cfg : StoreConfig} {s after : Session Annotation}

theorem steady_empty (cfg : StoreConfig) (name : Option String) (now : Nat) :
    Steady cfg { name := name, updatedAt := now } :=
  { toWellFormed := wellFormed_empty cfg name now, canonical := by simp }

theorem Steady.applied_of_draws {call : Call} {op : Applied Annotation} (steady : s.Steady cfg)
    (fresh : call.op.draws = true → s.Fresh call.env) (accepted : s.applyStateOp cfg call = .applied op after) :
    after.Steady cfg := by
  refine { toWellFormed := steady.toWellFormed.applied_of_draws fresh accepted, canonical := ?_ }
  obtain ⟨e, verdict, -, rfl⟩ := applyStateOp_applied accepted
  have upheld : (s.judge cfg call).Satisfies (fun e => ∀ a ∈ e.edit.contents s.state.annotations, a.Canonical)
      fun _ _ => True := plan_upholds Annotation.canonical_upheld steady.canonical call.op
  rw [verdict] at upheld
  exact upheld

theorem Steady.applied {call : Call} {op : Applied Annotation} (steady : s.Steady cfg) (fresh : s.Fresh call.env)
    (accepted : s.applyStateOp cfg call = .applied op after) : after.Steady cfg :=
  steady.applied_of_draws (fun _ => fresh) accepted

theorem Steady.forget (steady : s.Steady cfg) (deleted : List String) :
    Steady cfg { s with deletedAnnotationIds := deleted } :=
  { canvas := steady.canvas, annotations := steady.annotations, log := steady.log, canonical := steady.canonical }

theorem Steady.edit {edit : Edit} {op : Applied Annotation} (steady : s.Steady cfg) (fresh : s.Fresh edit.env)
    (edited : s.edit cfg edit = some (after, op)) : after.Steady cfg := by
  cases edit with
  | op call => exact steady.applied fresh (edit_op.mp edited)
  | undo env actor =>
    obtain ⟨record, inverse, replayed, -, -, -, accepted, rfl⟩ := undoLast_applied (edit_undo.mp edited)
    have later : replayed.Steady cfg := by
      refine (steady.forget _).applied ?_ accepted
      exact fresh
    exact { canvas := later.canvas, annotations := later.annotations, log := later.log.markUndone _ _
            canonical := later.canonical }

/-- Every session that edits lead to from an empty one is steady. -/
theorem run_steady {name : Option String} {now : Nat} {history : List (Edit × Applied Annotation)}
    (run : Run (Session.edit cfg) (fun _ s edit => s.Fresh edit.env) { name := name, updatedAt := now } history s) :
    s.Steady cfg :=
  run.invariant (fun _ s => s.Steady cfg) (steady_empty cfg name now)
    fun steady fresh edited => steady.edit fresh edited

end Session

end MetadataGraph
