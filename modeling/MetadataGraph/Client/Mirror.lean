import Mathlib.Data.Rat.Floor
import MetadataGraph.Session.Content

namespace MetadataGraph.Client

/-- `Array.from(new Set(ids))`. -/
def uniqueIds (ids : List String) : List String := union [] ids

def roundTo (q : ℚ) : ℚ := ⌊q * 100 + 1 / 2⌋ / 100

/-- `roundPos`. -/
def roundPos (p : Position) : Position := ⟨roundTo p.x, roundTo p.y⟩

/-- The baseline mirror of a session, its annotations as the objects that came over the wire. -/
abbrev Mirror := State (Dict Json)

def normalizeMirror (s : Mirror) : Mirror where
  nodeRefs := uniqueIds s.nodeRefs
  positions := s.positions.map fun _ p => roundPos p
  hiddenNodeIds := uniqueIds s.hiddenNodeIds
  hiddenEdgeIds := uniqueIds s.hiddenEdgeIds
  dimmedNodeIds := uniqueIds s.dimmedNodeIds
  dimmedEdgeIds := uniqueIds s.dimmedEdgeIds
  edgeIntensity := max 0 (min 1 s.edgeIntensity)
  annotations := s.annotations

/-- `{ ...a, member_node_ids: members }`. -/
def setMembers (members : List Json) (ann : Dict Json) : Dict Json := ann.insert "member_node_ids" (.arr members)

def withoutMembers (drop : List String) (ann : Dict Json) : Dict Json :=
  match ann.get "member_node_ids" with
  | .arr members => setMembers (members.filter fun m => !m.isIdIn drop) ann
  | _ => ann

/-- The merge of an annotation onto the first one with its id, `{ ...a, ...ann }`. -/
def mergeFirst (ann : Dict Json) : List (Dict Json) → List (Dict Json)
  | [] => []
  | a :: rest => if a.get "id" = ann.get "id" then (a ∪ ann) :: rest else a :: mergeFirst ann rest

/-- `annotation_created` and `annotation_updated`; an annotation without an id is ignored. -/
def putAnnotation (ann : Dict Json) (annotations : List (Dict Json)) : List (Dict Json) :=
  if (ann.get "id").truthy then
    if annotations.any fun a => a.get "id" = ann.get "id" then mergeFirst ann annotations
    else annotations ++ [ann]
  else annotations

/-- The branches of `applyOpToMirror`. -/
def foldOp (m : Mirror) : AppliedOp (Dict Json) → Mirror
  | .nodesAdded ids => { m with nodeRefs := uniqueIds (m.nodeRefs ++ ids) }
  | .nodesRemoved drop => { m with
      nodeRefs := removeAll m.nodeRefs drop
      positions := m.positions.filter fun id _ => id ∉ drop
      hiddenNodeIds := removeAll m.hiddenNodeIds drop
      dimmedNodeIds := removeAll m.dimmedNodeIds drop
      annotations := m.annotations.map (withoutMembers drop) }
  | .nodeMoved id position => if id = "" then m else { m with positions := m.positions.insert id (roundPos position) }
  | .layoutApplied positions => { m with positions := m.positions ∪ positions.map fun _ p => roundPos p }
  | .idsAdded set ids => { m with toCanvas := m.toCanvas.setIds set (uniqueIds (m.toCanvas.ids set ++ ids)) }
  | .idsDropped set drop => { m with toCanvas := m.toCanvas.setIds set (removeAll (m.toCanvas.ids set) drop) }
  | .edgeIntensitySet value => { m with edgeIntensity := max 0 (min 1 value) }
  | .annotationCreated ann | .annotationUpdated ann => { m with annotations := putAnnotation ann m.annotations }
  | .annotationDeleted id => { m with annotations := m.annotations.filter fun a => a.get "id" ≠ .str id }
  | .groupMembershipChanged id members => { m with
      annotations := m.annotations.map fun a =>
        if a.get "id" = .str id ∧ a.get "kind" = .str "group" then setMembers (members.map .str) a else a }
  | .edgesAdded _ | .edgesRemoved _ | .edgesUpdated _ | .sessionRenamed _ => m

def applyOpToMirror (mirror : Mirror) (op : AppliedOp (Dict Json)) : Mirror := foldOp (normalizeMirror mirror) op

/-- An annotation as it is written to the wire. The store sets `version` and `field_versions`
together. -/
def wire (isoformat : Nat → String) (a : Annotation) : Dict Json :=
  let stamped := match a.updatedAt with
    | none => a.fields
    | some stamp => a.fields.insert "updated_at" (.str (isoformat stamp))
  match a.version with
  | none => stamped
  | some version => (stamped.insert "version" (.num version)).insert "field_versions"
    (.obj (a.fieldVersions.toList.map fun entry => (entry.1, .num entry.2)))

/-- The mirror without the annotations' `updated_at`, which no diff looks at. -/
def unstamped (m : Mirror) : Mirror := m.map (·.erase "updated_at")

theorem uniqueIds_append (l ids : List String) : uniqueIds (l ++ ids) = union (uniqueIds l) ids := by
  rw [uniqueIds, union, List.foldl_append]
  rfl

theorem union_of_new {l ids : List String} (distinct : ids.Nodup) (outside : ∀ i ∈ ids, i ∉ l) :
    union l ids = l ++ ids := by
  unfold union
  induction ids generalizing l with
  | nil => rw [List.foldl_nil, List.append_nil]
  | cons i ids ih =>
    obtain ⟨fresh, distinct⟩ := List.nodup_cons.mp distinct
    rw [List.foldl_cons, if_neg (outside i List.mem_cons_self), ih distinct, List.append_assoc, List.singleton_append]
    intro j member
    rw [List.mem_append, List.mem_singleton, not_or]
    exact ⟨outside j (List.mem_cons_of_mem _ member), fun same => fresh (same ▸ member)⟩

/-- A list of distinct ids is what a set makes of it. -/
theorem uniqueIds_of_nodup {ids : List String} (distinct : ids.Nodup) : uniqueIds ids = ids := by
  rw [uniqueIds, union_of_new distinct fun _ _ => List.not_mem_nil, List.nil_append]

theorem roundTo_roundTo (q : ℚ) : roundTo (roundTo q) = roundTo q := by
  have half : ⌊(1 / 2 : ℚ)⌋ = 0 := by
    rw [Int.floor_eq_iff]
    constructor <;> norm_num
  have whole : ⌊(⌊q * 100 + 1 / 2⌋ : ℚ) / 100 * 100 + 1 / 2⌋ = ⌊q * 100 + 1 / 2⌋ := by
    rw [div_mul_cancel₀ _ (by norm_num), Int.floor_intCast_add, half, add_zero]
  rw [roundTo, roundTo, whole]

theorem roundPos_roundPos (p : Position) : roundPos (roundPos p) = roundPos p := by
  rw [roundPos, roundPos, roundTo_roundTo, roundTo_roundTo]

theorem getElem?_map {α β : Type} (f : α → β) (d : Dict α) (key : String) :
    (d.map fun _ => f)[key]? = d[key]?.map f :=
  Std.ExtTreeMap.getElem?_map

theorem map_insert {α β : Type} (f : α → β) (d : Dict α) (key : String) (value : α) :
    (d.insert key value).map (fun _ => f) = (d.map fun _ => f).insert key (f value) := by
  apply Std.ExtTreeMap.ext_getElem?
  intro other
  rw [getElem?_map, Std.ExtTreeMap.getElem?_insert, Std.ExtTreeMap.getElem?_insert, getElem?_map]
  split <;> rfl

theorem map_union {α β : Type} (f : α → β) (d e : Dict α) :
    (d ∪ e).map (fun _ => f) = (d.map fun _ => f) ∪ e.map fun _ => f := by
  apply Std.ExtTreeMap.ext_getElem?
  intro other
  rw [getElem?_map, Std.ExtTreeMap.getElem?_union, Std.ExtTreeMap.getElem?_union, getElem?_map, getElem?_map]
  cases e[other]? <;> rfl

theorem map_filter {α β : Type} (f : α → β) (keep : String → Bool) (d : Dict α) :
    (d.filter fun key _ => keep key).map (fun _ => f) = (d.map fun _ => f).filter fun key _ => keep key := by
  apply Std.ExtTreeMap.ext_getElem?
  intro other
  rw [getElem?_map, Std.ExtTreeMap.getElem?_filter', Std.ExtTreeMap.getElem?_filter', getElem?_map]
  cases d[other]? with
  | none => rfl
  | some value =>
    rw [Option.map_some, Option.filter_some, Option.filter_some]
    split <;> rfl

/-- The mirror that the client reads from a tidy state. -/
def rounded (s : Mirror) : Mirror := { s with positions := s.positions.map fun _ => roundPos }

theorem rounded_rounded (s : Mirror) : rounded (rounded s) = rounded s := by
  have positions : (s.positions.map fun _ => roundPos).map (fun _ => roundPos) = s.positions.map fun _ => roundPos := by
    apply Std.ExtTreeMap.ext_getElem?
    intro key
    rw [getElem?_map, getElem?_map, Option.map_map]
    congr 1
    funext p
    exact roundPos_roundPos p
  rw [rounded, rounded]
  dsimp only
  rw [positions]

theorem normalizeMirror_of_tidy {s : Mirror} (tidy : s.toCanvas.Tidy) : normalizeMirror s = rounded s := by
  have bounds := tidy.intensity
  have hiddenNodes : uniqueIds s.hiddenNodeIds = s.hiddenNodeIds := uniqueIds_of_nodup (tidy.sets .hiddenNodes)
  have hiddenEdges : uniqueIds s.hiddenEdgeIds = s.hiddenEdgeIds := uniqueIds_of_nodup (tidy.sets .hiddenEdges)
  have dimmedNodes : uniqueIds s.dimmedNodeIds = s.dimmedNodeIds := uniqueIds_of_nodup (tidy.sets .dimmedNodes)
  have dimmedEdges : uniqueIds s.dimmedEdgeIds = s.dimmedEdgeIds := uniqueIds_of_nodup (tidy.sets .dimmedEdges)
  rw [normalizeMirror, uniqueIds_of_nodup tidy.nodeRefs, hiddenNodes, hiddenEdges, dimmedNodes, dimmedEdges,
    min_eq_right bounds.2, max_eq_right bounds.1]
  rfl

theorem normalizeMirror_rounded {s : Mirror} (tidy : s.toCanvas.Tidy) : normalizeMirror (rounded s) = rounded s := by
  have kept : (rounded s).toCanvas.Tidy := by
    refine ⟨tidy.nodeRefs, fun set => ?_, tidy.intensity⟩
    have distinct := tidy.sets set
    cases set <;> exact distinct
  rw [normalizeMirror_of_tidy kept, rounded_rounded]

/-! ### Annotations on the wire -/

section Wire

variable (isoformat : Nat → String)

/-- The keys that only the store writes. -/
def storeKeys : List String := ["version", "field_versions", "updated_at"]

theorem getElem?_wire (a : Annotation) {key : String} (content : key ∉ storeKeys) :
    (wire isoformat a)[key]? = a.fields[key]? := by
  simp only [storeKeys, List.mem_cons, List.not_mem_nil, or_false, not_or] at content
  obtain ⟨version, fieldVersions, updatedAt⟩ := content
  rw [wire]
  cases a.updatedAt <;> cases a.version <;>
    simp only [Std.ExtTreeMap.getElem?_insert, Std.LawfulEqCmp.compare_eq_iff_eq, Ne.symm version,
      Ne.symm fieldVersions, Ne.symm updatedAt, if_false]

theorem get_wire (a : Annotation) {key : String} (content : key ∉ storeKeys) :
    (wire isoformat a).get key = a.get key := by
  rw [Dict.get, getElem?_wire isoformat a content]
  rfl

theorem wire_withMembers (a : Annotation) (members : List Json) :
    wire isoformat (a.withMembers members) = setMembers members (wire isoformat a) := by
  apply Std.ExtTreeMap.ext_getElem?
  intro key
  rw [setMembers, Std.ExtTreeMap.getElem?_insert]
  split
  · rename_i here
    obtain rfl := Std.LawfulEqCmp.compare_eq_iff_eq.mp here
    rw [getElem?_wire isoformat _ (by decide), Annotation.withMembers, Std.ExtTreeMap.getElem?_insert_self]
  · rename_i apart
    rw [wire, wire, Annotation.withMembers]
    cases a.updatedAt <;> cases a.version <;> simp only [Std.ExtTreeMap.getElem?_insert, apart, if_false]

/-- A merged annotation has every key of the one it was merged onto. -/
theorem wire_union_merge (stamp : Nat) (a : Annotation) (incoming : Dict Json) :
    wire isoformat a ∪ wire isoformat (a.merge stamp incoming) = wire isoformat (a.merge stamp incoming) := by
  apply Std.ExtTreeMap.ext_getElem?
  intro key
  rw [Std.ExtTreeMap.getElem?_union]
  by_cases content : key ∈ storeKeys
  · have held : (wire isoformat (a.merge stamp incoming))[key]?.isSome = true := by
      simp only [storeKeys, List.mem_cons, List.not_mem_nil, or_false] at content
      rw [wire, Annotation.merge]
      rcases content with rfl | rfl | rfl <;> simp
    obtain ⟨value, held⟩ := Option.isSome_iff_exists.mp held
    rw [held, Option.some_or]
  · rw [getElem?_wire isoformat _ content, getElem?_wire isoformat _ content, Annotation.merge,
      Std.ExtTreeMap.getElem?_union]
    cases incoming[key]? <;> cases a.fields[key]? <;> rfl

/-- The stamp is all that `updated_at` changes. -/
theorem erase_wire (a : Annotation) (stamp : Option Nat) :
    (wire isoformat { a with updatedAt := stamp }).erase "updated_at" = (wire isoformat a).erase "updated_at" := by
  apply Std.ExtTreeMap.ext_getElem?
  intro key
  rw [Std.ExtTreeMap.getElem?_erase, Std.ExtTreeMap.getElem?_erase]
  split
  · rfl
  · rename_i apart
    rw [wire, wire]
    cases stamp <;> cases a.updatedAt <;> cases a.version <;> simp only [Std.ExtTreeMap.getElem?_insert, apart, if_false]

theorem hasId_wire (a : Annotation) (id : String) : (wire isoformat a).get "id" = .str id ↔ a.hasId id = true := by
  rw [get_wire isoformat a (by decide), Annotation.hasId_iff]

/-- The merge onto the first annotation with an id, in the store and in the mirror. -/
theorem map_wire_replaceFirst {old : List Annotation} {id : String} {target merged : Annotation}
    (found : old.find? (·.hasId id) = some target) (named : merged.hasId id = true)
    (whole : wire isoformat target ∪ wire isoformat merged = wire isoformat merged) :
    mergeFirst (wire isoformat merged) (old.map (wire isoformat)) =
      (replaceFirst (·.hasId id) merged old).map (wire isoformat) := by
  have key := (hasId_wire isoformat merged id).mpr named
  induction old with
  | nil => cases found
  | cons a old ih =>
    rw [List.map_cons, mergeFirst, replaceFirst, key]
    by_cases here : a.hasId id = true
    · rw [List.find?_cons, here] at found
      have same : a = target := Option.some.inj found
      rw [if_pos ((hasId_wire isoformat a id).mpr here), if_pos here, same, whole, List.map_cons]
    · rw [List.find?_cons, Bool.eq_false_iff.mpr here] at found
      rw [if_neg fun same => here ((hasId_wire isoformat a id).mp same), if_neg here, List.map_cons, ih found]

theorem putAnnotation_merge {old : List Annotation} {id : String} {target merged : Annotation} (given : id ≠ "")
    (found : old.find? (·.hasId id) = some target) (named : merged.hasId id = true)
    (whole : wire isoformat target ∪ wire isoformat merged = wire isoformat merged) :
    putAnnotation (wire isoformat merged) (old.map (wire isoformat)) =
      (replaceFirst (·.hasId id) merged old).map (wire isoformat) := by
  have key := (hasId_wire isoformat merged id).mpr named
  have present : (old.map (wire isoformat)).any fun a => a.get "id" = (wire isoformat merged).get "id" := by
    rw [key]
    refine List.any_eq_true.mpr ⟨_, List.mem_map_of_mem (List.mem_of_find?_eq_some found), ?_⟩
    have held := List.find?_some found
    exact decide_eq_true ((hasId_wire isoformat target id).mpr held)
  rw [ putAnnotation, if_pos present, if_pos, map_wire_replaceFirst isoformat found named whole]
  rw [key]
  exact decide_eq_true given

theorem putAnnotation_append {old : List Annotation} {id : String} {fresh : Annotation} (given : id ≠ "")
    (new : ∀ a ∈ old, a.get "id" ≠ .str id) (named : fresh.hasId id = true) :
    putAnnotation (wire isoformat fresh) (old.map (wire isoformat)) = (old ++ [fresh]).map (wire isoformat) := by
  have key := (hasId_wire isoformat fresh id).mpr named
  have absent : ¬ (old.map (wire isoformat)).any fun a => a.get "id" = (wire isoformat fresh).get "id" := by
    rw [key, List.any_eq_true]
    rintro ⟨_, member, same⟩
    obtain ⟨a, inOld, rfl⟩ := List.mem_map.mp member
    rw [decide_eq_true_eq, get_wire isoformat a (by decide)] at same
    exact new a inOld same
  rw [ putAnnotation, if_neg absent, if_pos, List.map_append]
  · rfl
  · rw [key]
    exact decide_eq_true given

theorem filter_wire (old : List Annotation) (id : String) :
    (old.map (wire isoformat)).filter (fun a => a.get "id" ≠ .str id) =
      (old.filter fun a => !a.hasId id).map (wire isoformat) := by
  rw [List.filter_map]
  congr 1
  apply List.filter_congr
  intro a _
  rw [Function.comp_apply, Bool.eq_iff_iff, decide_eq_true_eq, Bool.not_eq_true', ne_eq, hasId_wire, Bool.not_eq_true]

theorem isGroup_wire {a : Annotation} (typed : a.Typed) (id : String) :
    ((wire isoformat a).get "id" = .str id ∧ (wire isoformat a).get "kind" = .str "group") ↔
      Session.isGroup id a = true := by
  obtain ⟨t, listed, type, kind⟩ := typed.typed
  have given : (Json.str t).truthy = true := by
    refine decide_eq_true fun empty => ?_
    subst empty
    revert listed
    decide
  rw [hasId_wire, get_wire isoformat a (by decide), kind, Session.isGroup, Bool.and_eq_true, decide_eq_true_eq,
    Annotation.rawType, type, kind, Json.orElse, if_pos given]

/-- Only the group with the id gets the members, and it is stamped besides by the store. -/
theorem map_wire_group {old : List Annotation} {id : String} {group : Annotation} (members : List Json) (stamp : Nat)
    (unique : (old.map (·.get "id")).Nodup) (typed : ∀ a ∈ old, a.Typed)
    (found : old.find? (Session.isGroup id) = some group) :
    ((old.map (wire isoformat)).map fun a =>
        if a.get "id" = .str id ∧ a.get "kind" = .str "group" then setMembers members a else a).map
        (·.erase "updated_at") =
      ((replaceFirst (Session.isGroup id) { group.withMembers members with updatedAt := some stamp } old).map
        (wire isoformat)).map (·.erase "updated_at") := by
  induction old with
  | nil => cases found
  | cons a old ih =>
    rw [List.map_cons, List.nodup_cons] at unique
    have first := isGroup_wire isoformat (typed a List.mem_cons_self) id
    rw [List.map_cons, List.map_cons, List.map_cons, replaceFirst]
    by_cases here : Session.isGroup id a = true
    · rw [List.find?_cons, here] at found
      have same : a = group := Option.some.inj found
      rw [if_pos (first.mpr here), if_pos here, List.map_cons, List.map_cons, erase_wire, same, wire_withMembers]
      have rest : (old.map (wire isoformat)).map (fun b =>
          if b.get "id" = .str id ∧ b.get "kind" = .str "group" then setMembers members b else b) =
          old.map (wire isoformat) := by
        rw [List.map_map]
        apply List.map_congr_left
        intro b member
        rw [Function.comp_apply, if_neg]
        rintro ⟨sameId, _⟩
        apply unique.1
        rw [( Annotation.hasId_iff.mp (Bool.and_eq_true_iff.mp here).1), ← sameId, get_wire isoformat b (by decide)]
        exact List.mem_map_of_mem member
      rw [rest]
    · rw [List.find?_cons, Bool.eq_false_iff.mpr here] at found
      rw [if_neg fun same => here (first.mp same), if_neg here, List.map_cons, List.map_cons,
        ih unique.2 (fun b member => typed b (List.mem_cons_of_mem _ member)) found]

theorem withoutMembers_wire {drop : List String} {a b : Annotation} (filtered : a.withoutMembers drop = some b) :
    wire isoformat b = withoutMembers drop (wire isoformat a) := by
  rw [withoutMembers, get_wire isoformat a (by decide)]
  rw [ Annotation.withoutMembers] at filtered
  split at filtered
  · rename_i unlisted
    cases filtered
    split
    · rename_i members listed
      rw [ Annotation.members?_eq_some.mpr listed] at unlisted
      cases unlisted
    · rfl
  · rename_i members listed
    split at filtered
    · cases filtered
      rw [ Annotation.members?_eq_some.mp listed]
      exact wire_withMembers isoformat a _
    · cases filtered

theorem map_wire_dropMembers {drop : List String} {old contents : List Annotation}
    (filtered : dropMembers drop old = .ok contents) :
    (old.map (wire isoformat)).map (withoutMembers drop) = contents.map (wire isoformat) := by
  have related := dropMembers_forall₂ (R := fun a b => wire isoformat b = withoutMembers drop (wire isoformat a))
    (fun _ _ step => withoutMembers_wire isoformat step) filtered
  clear filtered
  induction related with
  | nil => rfl
  | cons step _ ih => rw [List.map_cons, List.map_cons, List.map_cons, ih, step]

end Wire

/-- Whether an op names its node or annotation by an id that is not empty. -/
def Named : AppliedOp Annotation → Prop
  | .nodeMoved id _ => id ≠ ""
  | .annotationCreated ann | .annotationUpdated ann => ann.get "id" ≠ .str ""
  | _ => True

instance (op : AppliedOp Annotation) : Decidable (Named op) := by
  unfold Named
  split <;> infer_instance

section Follows

variable {cfg : StoreConfig} {env : Env} {client : String} {trusted : Bool} {s after : Session Annotation}
variable (isoformat : Nat → String)

/-- The state as a client gets it. -/
def sent (s : State Annotation) : Mirror := s.map (wire isoformat)

/-- The op with the annotations it leaves is folded into the mirror as the store applies it. -/
def Follows (s : Session Annotation) (e : MetadataGraph.Effect) : Prop :=
  Named (e.applied.at (e.edit.contents s.state.annotations)) →
    foldOp (rounded (sent isoformat s.state)) ((e.applied.at (e.edit.contents s.state.annotations)).map (wire isoformat)) =
      rounded (sent isoformat { toCanvas := e.canvas, annotations := e.edit.contents s.state.annotations })

theorem nodesAdded_follows (tidy : s.state.toCanvas.Tidy) (nodeIds : Json) :
    (s.planNodesAdded nodeIds).Satisfies (Follows isoformat s) fun _ _ => True := by
  refine Session.validated_satisfies trivial fun ids _ _ => ?_
  show ({ rounded (sent isoformat s.state) with nodeRefs := uniqueIds (s.state.nodeRefs ++ ids) } : Mirror) = _
  rw [uniqueIds_append, uniqueIds_of_nodup tidy.nodeRefs]
  rfl

theorem nodesRemoved_follows (nodeIds : Json) :
    (s.planNodesRemoved nodeIds).Satisfies (Follows isoformat s) fun _ _ => True := by
  refine Session.validated_satisfies trivial fun drop _ => ?_
  dsimp only
  split
  · trivial
  · rename_i contents filtered
    intro _
    show ({ nodeRefs := _, positions := (s.state.positions.map fun _ => roundPos).filter fun id _ => id ∉ drop
            hiddenNodeIds := _, hiddenEdgeIds := _, dimmedNodeIds := _, dimmedEdgeIds := _, edgeIntensity := _
            annotations := (s.state.annotations.map (wire isoformat)).map (withoutMembers drop) } : Mirror) = _
    rw [map_wire_dropMembers isoformat filtered, ← map_filter]
    rfl

theorem nodeMoved_follows (nodeId position : Json) :
    (s.planNodeMoved nodeId position).Satisfies (Follows isoformat s) fun _ _ => True := by
  cases nodeId with
  | str id =>
    refine Session.validated_satisfies trivial fun p _ => ?_
    intro (named : id ≠ "")
    show (if id = "" then rounded (sent isoformat s.state) else
      { rounded (sent isoformat s.state) with
        positions := (s.state.positions.map fun _ => roundPos).insert id (roundPos p) }) = _
    rw [if_neg named, ← map_insert]
    rfl
  | _ => trivial

theorem layoutApplied_follows (positions : Option (Dict Json)) :
    (s.planLayoutApplied positions).Satisfies (Follows isoformat s) fun _ _ => True := by
  refine Session.validated_satisfies trivial fun normalised _ _ => ?_
  show ({ rounded (sent isoformat s.state) with
      positions := (s.state.positions.map fun _ => roundPos) ∪ normalised.map fun _ => roundPos } : Mirror) = _
  rw [← map_union]
  rfl

theorem rounded_setIds (s : Mirror) (set : IdSet) (ids : List String) :
    ({ rounded s with toCanvas := (rounded s).toCanvas.setIds set ids } : Mirror) =
      rounded { s with toCanvas := s.toCanvas.setIds set ids } := by
  cases set <;> rfl

theorem ids_rounded (s : Mirror) (set : IdSet) : (rounded s).toCanvas.ids set = s.toCanvas.ids set := by
  cases set <;> rfl

theorem idsAdded_follows (tidy : s.state.toCanvas.Tidy) (set : IdSet) (ids : Json) :
    (s.planIdsAdded set ids).Satisfies (Follows isoformat s) fun _ _ => True := by
  refine Session.validated_satisfies trivial fun requested _ _ => ?_
  show ({ rounded (sent isoformat s.state) with
      toCanvas := (rounded (sent isoformat s.state)).toCanvas.setIds set
        (uniqueIds ((rounded (sent isoformat s.state)).toCanvas.ids set ++ requested)) } : Mirror) = _
  rw [rounded_setIds, ids_rounded, uniqueIds_append]
  rw [show (sent isoformat s.state).toCanvas = s.state.toCanvas from rfl, uniqueIds_of_nodup (tidy.sets set)]
  rfl

theorem idsDropped_follows (set : IdSet) (ids : Json) :
    (s.planIdsDropped set ids).Satisfies (Follows isoformat s) fun _ _ => True := by
  refine Session.validated_satisfies trivial fun requested _ _ => ?_
  show ({ rounded (sent isoformat s.state) with
      toCanvas := (rounded (sent isoformat s.state)).toCanvas.setIds set
        (removeAll ((rounded (sent isoformat s.state)).toCanvas.ids set) requested) } : Mirror) = _
  rw [rounded_setIds, ids_rounded]
  rfl

theorem edgeIntensitySet_follows (value : Json) :
    (s.planEdgeIntensitySet value).Satisfies (Follows isoformat s) fun _ _ => True := by
  refine Session.validated_satisfies trivial fun value valid _ => ?_
  obtain ⟨lower, upper⟩ := validateIntensity_bounds valid
  show ({ rounded (sent isoformat s.state) with edgeIntensity := max 0 (min 1 value) } : Mirror) = _
  rw [min_eq_right upper, max_eq_right lower]
  rfl

/-- A merge is folded in, whichever op it comes from. -/
theorem mergeEffect_follows {id : String} {target : Annotation} {incoming : Dict Json} {applied : Nat → AppliedOp Nat}
    (found : s.state.find id = some target) (given : incoming.get "id" = .str id)
    (shape : applied = .annotationCreated ∨ applied = .annotationUpdated) :
    Follows isoformat s (s.mergeEffect env id target incoming applied) := by
  have same := Annotation.get_id_merge (State.hasId_of_find found) given env.stamp
  rw [ Annotation.hasId_iff.mp (State.hasId_of_find found)] at same
  have whole := wire_union_merge isoformat env.stamp target incoming
  have read := @getD_replaceFirst (·.hasId id) s.state.annotations target (target.merge env.stamp incoming) found
  have put (named : (target.merge env.stamp incoming).get "id" ≠ .str "") :=
    putAnnotation_merge isoformat (fun empty => named (by rw [same, empty])) found ( Annotation.hasId_iff.mpr same) whole
  rcases shape with rfl | rfl
  all_goals
    intro named
    have named : ((replaceFirst (·.hasId id) (target.merge env.stamp incoming) s.state.annotations).getD
        (s.state.annotations.findIdx (·.hasId id)) default).get "id" ≠ .str "" := named
    show ({ rounded (sent isoformat s.state) with
        annotations := putAnnotation (wire isoformat ((replaceFirst (·.hasId id) (target.merge env.stamp incoming)
          s.state.annotations).getD (s.state.annotations.findIdx (·.hasId id)) default))
          (s.state.annotations.map (wire isoformat)) } : Mirror) = _
    rw [read] at named
    rw [read, put named]
    rfl

theorem annotationUpdated_follows (payload : Option (Dict Json)) (baseVersion : Json) :
    (s.planAnnotationUpdated env trusted payload baseVersion).Satisfies (Follows isoformat s) fun _ _ => True := by
  refine Session.validated_satisfies trivial fun incoming _ => ?_
  dsimp only
  split
  · trivial
  · rename_i id named
    split
    · trivial
    · rename_i target found
      have merged : Follows isoformat s (s.mergeEffect env id target incoming .annotationUpdated) :=
        mergeEffect_follows isoformat found (Json.string?_eq_some.mp named) (.inr rfl)
      repeat' split
      all_goals first | exact merged | trivial

theorem annotationCreated_follows (fresh : s.Fresh env) (payload : Option (Dict Json)) :
    (s.planAnnotationCreated cfg env client trusted payload).Satisfies (Follows isoformat s) fun _ _ => True := by
  refine Session.validated_satisfies trivial fun ann valid => ?_
  obtain ⟨t, listed, type, kind, -⟩ := validatePayload_typed valid
  obtain ⟨-, freshId⟩ := freshAnnotation_typed env client listed type kind
  dsimp only
  split
  · trivial
  · split
    · trivial
    · split
      · rename_i id target incoming found
        split
        · trivial
        · rw [incoming, Option.bind_some] at found
          exact mergeEffect_follows isoformat found (Json.string?_eq_some.mp incoming) (.inl rfl)
      · rename_i unmatched
        split
        · trivial
        · have new : ∀ a ∈ s.state.annotations, a.get "id" ≠ .str ((ann.get "id").string?.getD env.freshId) := by
            cases sent : (ann.get "id").string? with
            | none => exact fresh
            | some id =>
              cases found : s.state.find id with
              | none => exact Session.id_ne_of_find_none found
              | some target => exact absurd (by rw [sent, Option.bind_some, found]) (unmatched id target sent)
          have last : (s.state.annotations ++ [Session.freshAnnotation env client ann]).getD s.state.annotations.length
              default = Session.freshAnnotation env client ann := by simp
          intro named
          have named : ((s.state.annotations ++ [Session.freshAnnotation env client ann]).getD
              s.state.annotations.length default).get "id" ≠ .str "" := named
          show ({ rounded (sent isoformat s.state) with
              annotations := putAnnotation (wire isoformat ((s.state.annotations ++
                [Session.freshAnnotation env client ann]).getD s.state.annotations.length default))
                (s.state.annotations.map (wire isoformat)) } : Mirror) = _
          rw [last, freshId] at named
          rw [last, putAnnotation_append isoformat (fun empty => named (by rw [empty])) new
            ( Annotation.hasId_iff.mpr freshId)]
          rfl

theorem annotationDeleted_follows (annotationId id : Json) :
    (s.planAnnotationDeleted annotationId id).Satisfies (Follows isoformat s) fun _ _ => True := by
  unfold Session.planAnnotationDeleted
  split
  · rename_i id _
    intro _
    show ({ rounded (sent isoformat s.state) with
        annotations := (s.state.annotations.map (wire isoformat)).filter fun a => a.get "id" ≠ .str id } : Mirror) = _
    rw [filter_wire]
    rfl
  · trivial

/-- What an op that is no change of a group's members makes of the mirror. -/
theorem plan_follows (tidy : s.state.toCanvas.Tidy) (fresh : s.Fresh env) (op : StateOp)
    (other : ∀ id members, op ≠ .groupMembershipChanged id members) :
    (s.plan cfg env client trusted op).Satisfies (Follows isoformat s) fun _ _ => True := by
  cases op with
  | nodesAdded nodeIds => exact nodesAdded_follows isoformat tidy nodeIds
  | nodesRemoved nodeIds => exact nodesRemoved_follows isoformat nodeIds
  | nodeMoved nodeId position => exact nodeMoved_follows isoformat nodeId position
  | idsAdded set ids => exact idsAdded_follows isoformat tidy set ids
  | idsDropped set ids => exact idsDropped_follows isoformat set ids
  | edgeIntensitySet value => exact edgeIntensitySet_follows isoformat value
  | annotationCreated payload => exact annotationCreated_follows isoformat fresh payload
  | annotationUpdated payload baseVersion => exact annotationUpdated_follows isoformat payload baseVersion
  | annotationDeleted annotationId id => exact annotationDeleted_follows isoformat annotationId id
  | groupMembershipChanged id members => exact absurd rfl (other id members)
  | layoutApplied positions => exact layoutApplied_follows isoformat positions
  | sessionRenamed name =>
    simp only [Session.plan, Session.planSessionRenamed]
    split
    · exact fun _ => rfl
    · exact fun _ => rfl
    · trivial
  | _ => exact Session.validated_satisfies trivial fun _ _ _ => rfl

/-- A change of a group's members is folded in but for the stamp. -/
theorem groupMembershipChanged_follows (sound : AnnotationsSound cfg.maxAnnotations s.state.annotations)
    (groupId members : Json) :
    (s.planGroupMembershipChanged env groupId members).Satisfies
      (fun e => unstamped (foldOp (rounded (sent isoformat s.state))
          ((e.applied.at (e.edit.contents s.state.annotations)).map (wire isoformat))) =
        unstamped (rounded (sent isoformat { toCanvas := e.canvas, annotations := e.edit.contents s.state.annotations })))
      fun _ _ => True := by
  cases groupId with
  | str id =>
    refine Session.validated_satisfies trivial fun members _ => ?_
    dsimp only
    split
    · trivial
    · rename_i group found
      have folded := map_wire_group isoformat (members.map .str) env.stamp sound.unique sound.typed found
      show ({ (rounded (sent isoformat s.state)) with
        annotations := ((s.state.annotations.map (wire isoformat)).map fun a =>
          if a.get "id" = .str id ∧ a.get "kind" = .str "group" then setMembers (members.map .str) a else a).map
          (·.erase "updated_at") } : Mirror) = _
      rw [folded]
      rfl
  | _ => trivial

end Follows

/-- A call of this op at a time in seconds. -/
def sampleCall (second : Nat) (op : StateOp) : Call :=
  { env := { now := second * 1000000, freshId := "new" }, client := "ada", op := op }

/-- The creation of a group. -/
def groupCreated : Edit :=
  .op (sampleCall 1 (.annotationCreated (some (.of [("type", .str "group"), ("id", .str "g")]))))

end MetadataGraph.Client
