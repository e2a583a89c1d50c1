import MetadataGraph.Graph.Representation

namespace MetadataGraph.Graph

open ObjectHeap

namespace Storage

variable {cfg : StorageConfig} {σ τ : Storage}

/-- The loop over the new nodes, when it comes to its end. -/
def putNodes (cfg : StorageConfig) (refs : List Ref) (σ : Storage) : Storage :=
  refs.foldl (fun σ ref => σ.putNode cfg ref) σ

/-- Objects whose ids are new, and differ from each other. -/
structure New (ids known : List String) : Prop where
  distinct : ids.Nodup
  fresh : ∀ id ∈ ids, id ∉ known

theorem new_cons {id : String} {ids known : List String} :
    New (id :: ids) known ↔ id ∉ known ∧ id ∉ ids ∧ New ids known := by
  constructor
  · rintro ⟨distinct, fresh⟩
    obtain ⟨apart, distinct⟩ := List.nodup_cons.mp distinct
    exact ⟨fresh id List.mem_cons_self, apart, distinct, fun other member => fresh other (List.mem_cons_of_mem _ member)⟩
  · rintro ⟨new, apart, distinct, fresh⟩
    refine ⟨List.nodup_cons.mpr ⟨apart, distinct⟩, fun other member => ?_⟩
    rcases List.mem_cons.mp member with rfl | later
    · exact new
    · exact fresh other later

/-- After a first object the others are still new if they are not filed under its id. -/
theorem new_of_set {id : String} {ids known known' : List String} (same : ∀ other, other ∈ known' ↔ other = id ∨ other ∈ known) :
    New ids known' ↔ id ∉ ids ∧ New ids known := by
  constructor
  · rintro ⟨distinct, fresh⟩
    refine ⟨fun member => fresh id member ((same id).mpr (.inl rfl)), distinct, fun other member held => ?_⟩
    exact fresh other member ((same other).mpr (.inr held))
  · rintro ⟨apart, distinct, fresh⟩
    refine ⟨distinct, fun other member held => ?_⟩
    rcases (same other).mp held with rfl | before
    · exact apart member
    · exact fresh other member before

theorem mem_keys_putNode {ref : Ref} {id : String} :
    id ∈ (σ.putNode cfg ref).nodes.keys ↔ id = (σ.node ref).id ∨ id ∈ σ.nodes.keys :=
  OrderedDict.mem_keys_set

theorem addEach_of_new {refs : List Ref} {σ : Storage} (new : New (refs.map fun ref => (σ.node ref).id) σ.nodes.keys) :
    σ.addEach cfg refs = (σ.putNodes cfg refs, none) := by
  induction refs generalizing σ with
  | nil => rfl
  | cons ref refs ih =>
    obtain ⟨fresh, apart, rest⟩ := new_cons.mp new
    rw [addEach, if_neg fresh]
    exact ih ((new_of_set fun _ => mem_keys_putNode).mpr ⟨apart, rest⟩)

/-- The loop over the new nodes stops at a node that is not new, with the nodes before it added. -/
theorem addEach_of_not_new (cfg : StorageConfig) {refs : List Ref} {σ : Storage}
    (old : ¬ New (refs.map fun ref => (σ.node ref).id) σ.nodes.keys) :
    ∃ added ref rest, refs = added ++ ref :: rest ∧ σ.addEach cfg refs = (σ.putNodes cfg added, some (σ.node ref).id) ∧
      New (added.map fun ref => (σ.node ref).id) σ.nodes.keys ∧ (σ.node ref).id ∈ (σ.putNodes cfg added).nodes.keys := by
  induction refs generalizing σ with
  | nil => exact absurd ⟨List.nodup_nil, fun _ none => (nomatch none)⟩ old
  | cons ref refs ih =>
    by_cases known : (σ.node ref).id ∈ σ.nodes.keys
    · refine ⟨[], ref, refs, rfl, ?_, ⟨List.nodup_nil, fun _ none => (nomatch none)⟩, known⟩
      rw [addEach, if_pos known]
      rfl
    · have later : ¬ New (refs.map fun ref => (σ.node ref).id) (σ.putNode cfg ref).nodes.keys := fun new => by
        obtain ⟨apart, rest⟩ := (new_of_set fun _ => mem_keys_putNode).mp new
        exact old (new_cons.mpr ⟨known, apart, rest⟩)
      obtain ⟨added, stop, rest, split, stopped, new, here⟩ := @ih (σ.putNode cfg ref) later
      refine ⟨ref :: added, stop, rest, by rw [split]; rfl, ?_, ?_, here⟩
      · rw [addEach, if_neg known, stopped]
        rfl
      · obtain ⟨apart, rest⟩ := (new_of_set fun _ => mem_keys_putNode).mp new
        exact new_cons.mpr ⟨known, apart, rest⟩

/-- What the loop over the new edges looks at in the nodes. -/
structure SameNodes (σ τ : Storage) : Prop where
  nodes : τ.nodes = σ.nodes
  names : ∀ ref, (τ.node ref).name = (σ.node ref).name
  types : ∀ ref, (τ.node ref).typeName = (σ.node ref).typeName

theorem SameNodes.refl (σ : Storage) : SameNodes σ σ := ⟨rfl, fun _ => rfl, fun _ => rfl⟩

theorem SameNodes.trans {υ : Storage} (first : SameNodes σ τ) (second : SameNodes τ υ) : SameNodes σ υ :=
  ⟨second.nodes.trans first.nodes, fun ref => (second.names ref).trans (first.names ref),
    fun ref => (second.types ref).trans (first.types ref)⟩

theorem SameNodes.nameToId (same : SameNodes σ τ) : τ.nameToId = σ.nameToId := by
  rw [Storage.nameToId, Storage.nameToId, same.nodes]
  congr 1
  exact List.map_congr_left fun entry _ => by rw [same.names]

theorem SameNodes.resolve (same : SameNodes σ τ) (names : OrderedDict String String) (value : String) :
    τ.resolve names value = σ.resolve names value := by
  rw [Storage.resolve, Storage.resolve, same.nodes]

theorem SameNodes.validate (same : SameNodes σ τ) (cfg : StorageConfig) (edge : Edge) :
    τ.validateEdgeApplicability cfg edge = σ.validateEdgeApplicability cfg edge := by
  have types : ∀ ref, (τ.node ref).typeStr = (σ.node ref).typeStr := fun ref => by
    rw [Node.typeStr, Node.typeStr, Node.type, Node.type, same.types]
  rw [validateEdgeApplicability, validateEdgeApplicability, same.nodes]
  simp only [types]

theorem node_setEmbedding (embedded : Ref × List ℚ) (σ : Storage) (ref : Ref) :
    ∃ embedding, (σ.setEmbedding embedded).node ref = { σ.node ref with embedding } := by
  by_cases here : embedded.1 = ref
  · obtain rfl := here
    by_cases inside : embedded.1 < σ.nodeObjects.size
    · exact ⟨some embedded.2, Heap.read_write_self inside _⟩
    · refine ⟨(σ.node embedded.1).embedding, ?_⟩
      rw [Storage.node, setEmbedding, setNode, Heap.write, Heap.read,
        List.set_eq_of_length_le (by simpa [Heap.size] using inside)]
      rfl
  · exact ⟨(σ.node ref).embedding, Heap.read_write_of_ne here _⟩

theorem SameNodes.setEmbeddings (pairs : List (Ref × List ℚ)) (σ : Storage) :
    SameNodes σ (pairs.foldl Storage.setEmbedding σ) := by
  induction pairs generalizing σ with
  | nil => exact .refl σ
  | cons pair pairs ih =>
    have first : SameNodes σ (σ.setEmbedding pair) := by
      refine ⟨rfl, fun ref => ?_, fun ref => ?_⟩
      · obtain ⟨_, read⟩ := node_setEmbedding pair σ ref
        have name := congrArg Node.name read
        exact name
      · obtain ⟨_, read⟩ := node_setEmbedding pair σ ref
        have type := congrArg Node.typeName read
        exact type
    exact first.trans (ih (σ.setEmbedding pair))

theorem SameNodes.updateNodesEmbeddings (refs : List Ref) (encoded : Option (List (List ℚ))) (σ : Storage) :
    SameNodes σ (σ.updateNodesEmbeddings refs encoded) := by
  cases encoded with
  | none => exact .refl σ
  | some vectors =>
    rw [Storage.updateNodesEmbeddings]
    split
    · exact .refl σ
    · exact (SameNodes.setEmbeddings (refs.zip vectors) σ).trans ⟨rfl, fun _ => rfl, fun _ => rfl⟩

/-- An edge whose ends are found, and whose type may connect them. -/
def Linkable (cfg : StorageConfig) (names : OrderedDict String String) (σ : Storage) (edge : Edge) : Prop :=
  ∃ source target, σ.resolve names edge.source = some source ∧ σ.resolve names edge.target = some target ∧
    σ.validateEdgeApplicability cfg { edge with source, target } = none

theorem SameNodes.linkable (same : SameNodes σ τ) {names : OrderedDict String String} {edge : Edge} :
    Linkable cfg names τ edge ↔ Linkable cfg names σ edge := by
  rw [Linkable, Linkable]
  simp only [same.resolve, same.validate]

theorem sameNodes_putEdge (ref : Ref) (edge : Edge) (σ : Storage) : SameNodes σ ((σ.setEdge ref edge).putEdge ref) :=
  ⟨rfl, fun _ => rfl, fun _ => rfl⟩

theorem mem_keys_putEdge {ref : Ref} (inside : ref < σ.edgeObjects.size) (edge : Edge) {id : String} :
    id ∈ ((σ.setEdge ref edge).putEdge ref).edges.keys ↔ id = edge.id ∨ id ∈ σ.edges.keys := by
  rw [Storage.putEdge, edge_setEdge inside]
  exact OrderedDict.mem_keys_set

/-- The loop over the new edges comes to its end exactly if every edge is new and can be linked. -/
theorem linkEach_eq_none_iff {names : OrderedDict String String} {refs : List Ref} {σ : Storage}
    (inside : ∀ ref ∈ refs, ref < σ.edgeObjects.size) :
    (σ.linkEach cfg names refs).2 = none ↔
      New (refs.map fun ref => (σ.edge ref).id) σ.edges.keys ∧ ∀ ref ∈ refs, Linkable cfg names σ (σ.edge ref) := by
  induction refs generalizing σ with
  | nil => exact ⟨fun _ => ⟨⟨List.nodup_nil, fun _ none => (by cases none)⟩, fun _ none => (by cases none)⟩, fun _ => rfl⟩
  | cons ref refs ih =>
    have here := inside ref List.mem_cons_self
    rw [List.map_cons, new_cons, List.forall_mem_cons, linkEach]
    dsimp only
    cases atSource : σ.resolve names (σ.edge ref).source with
    | none =>
      refine ⟨fun no => (by cases no), ?_⟩
      rintro ⟨_, ⟨_, _, found, _⟩, _⟩
      rw [atSource] at found
      cases found
    | some source =>
      cases atTarget : σ.resolve names (σ.edge ref).target with
      | none =>
        refine ⟨fun no => (by cases no), ?_⟩
        rintro ⟨_, ⟨_, target, _, found, _⟩, _⟩
        rw [atTarget] at found
        cases found
      | some target =>
        dsimp only
        have read := edge_setEdge here { σ.edge ref with source, target }
        have linked : Linkable cfg names σ (σ.edge ref) ↔
            σ.validateEdgeApplicability cfg { σ.edge ref with source, target } = none := by
          constructor
          · rintro ⟨source', target', found, found', valid⟩
            cases atSource.symm.trans found
            cases atTarget.symm.trans found'
            exact valid
          · exact fun valid => ⟨source, target, atSource, atTarget, valid⟩
        rw [linked]
        by_cases known : (σ.edge ref).id ∈ σ.edges.keys
        · rw [if_pos (show (σ.edge ref).id ∈ (σ.setEdge ref _).edges.keys from known)]
          exact ⟨fun no => (by cases no), fun new => absurd known new.1.1⟩
        · rw [if_neg (show (σ.edge ref).id ∉ (σ.setEdge ref _).edges.keys from known), read]
          have validated : (σ.setEdge ref { σ.edge ref with source, target }).validateEdgeApplicability cfg
              { σ.edge ref with source, target } = σ.validateEdgeApplicability cfg { σ.edge ref with source, target } :=
            rfl
          rw [validated]
          cases valid : σ.validateEdgeApplicability cfg { σ.edge ref with source, target } with
          | some message => exact ⟨fun no => (by cases no), fun both => (by cases both.2.1)⟩
          | none =>
            dsimp only
            have size : ((σ.setEdge ref { σ.edge ref with source, target }).putEdge ref).edgeObjects.size =
                σ.edgeObjects.size := by
              rw [Storage.putEdge, Storage.setEdge, Heap.size_write]
            have ids : ∀ other, (((σ.setEdge ref { σ.edge ref with source, target }).putEdge ref).edge other).id =
                (σ.edge other).id := by
              intro other
              by_cases same : ref = other
              · rw [← same]
                have id := congrArg Edge.id read
                exact id
              · exact congrArg Edge.id (Heap.read_write_of_ne same _)
            rw [ih fun other member => by rw [size]; exact inside other (List.mem_cons_of_mem _ member)]
            simp only [ids]
            rw [new_of_set fun _ => mem_keys_putEdge here _]
            have others : (σ.edge ref).id ∉ refs.map (fun ref => (σ.edge ref).id) →
                ∀ other ∈ refs, ((σ.setEdge ref { σ.edge ref with source, target }).putEdge ref).edge other =
                  σ.edge other := fun apart other member => by
              refine Heap.read_write_of_ne (fun same => apart ?_) _
              rw [same]
              exact List.mem_map_of_mem member
            constructor
            · rintro ⟨⟨apart, new⟩, rest⟩
              refine ⟨⟨known, apart, new⟩, trivial, fun other member => ?_⟩
              have linkable := rest other member
              rwa [others apart other member, (sameNodes_putEdge ref _ σ).linkable] at linkable
            · rintro ⟨⟨_, apart, new⟩, _, rest⟩
              refine ⟨⟨apart, new⟩, fun other member => ?_⟩
              rw [others apart other member, (sameNodes_putEdge ref _ σ).linkable]
              exact rest other member

theorem objects_putNodes (cfg : StorageConfig) (refs : List Ref) (σ : Storage) :
    (σ.putNodes cfg refs).nodeObjects = σ.nodeObjects ∧ (σ.putNodes cfg refs).edgeObjects = σ.edgeObjects ∧
      (σ.putNodes cfg refs).edges = σ.edges := by
  induction refs generalizing σ with
  | nil => exact ⟨rfl, rfl, rfl⟩
  | cons ref refs ih => exact ih (σ.putNode cfg ref)

theorem edges_updateNodesEmbeddings (refs : List Ref) (encoded : Option (List (List ℚ))) (σ : Storage) :
    (σ.updateNodesEmbeddings refs encoded).edges = σ.edges := by
  have setEach : ∀ (pairs : List (Ref × List ℚ)) (σ : Storage), (pairs.foldl Storage.setEmbedding σ).edges = σ.edges := by
    intro pairs
    induction pairs with
    | nil => exact fun _ => rfl
    | cons pair pairs ih => exact fun σ => ih (σ.setEmbedding pair)
  cases encoded with
  | none => rfl
  | some vectors =>
    rw [updateNodesEmbeddings]
    split
    · rfl
    · exact setEach _ σ

/-- The nodes and edges that `add_nodes` adds without an error. -/
structure Addable (cfg : StorageConfig) (nodes edges : List Ref) (σ : Storage) : Prop where
  newNodes : New (nodes.map fun ref => (σ.node ref).id) σ.nodes.keys
  newEdges : New (edges.map fun ref => (σ.edge ref).id) σ.edges.keys
  linkable : ∀ ref ∈ edges, Linkable cfg (σ.putNodes cfg nodes).nameToId (σ.putNodes cfg nodes) (σ.edge ref)

/-- The storage when `add_nodes` turns to the edges. -/
def withNodes (cfg : StorageConfig) (nodes : List Ref) (encoded : Option (List (List ℚ))) (σ : Storage) : Storage :=
  ((σ.putNodes cfg nodes).updateNodesEmbeddings nodes encoded).save

theorem sameNodes_withNodes (nodes : List Ref) (encoded : Option (List (List ℚ))) (σ : Storage) :
    SameNodes (σ.putNodes cfg nodes) (σ.withNodes cfg nodes encoded) :=
  (SameNodes.updateNodesEmbeddings nodes encoded (σ.putNodes cfg nodes)).trans ⟨rfl, fun _ => rfl, fun _ => rfl⟩

theorem edges_withNodes (cfg : StorageConfig) (nodes : List Ref) (encoded : Option (List (List ℚ))) (σ : Storage) :
    (σ.withNodes cfg nodes encoded).edges = σ.edges ∧ (σ.withNodes cfg nodes encoded).edgeObjects = σ.edgeObjects := by
  obtain ⟨_, objects, edges⟩ := objects_putNodes cfg nodes σ
  exact ⟨(edges_updateNodesEmbeddings nodes encoded _).trans edges,
    (edgeObjects_updateNodesEmbeddings nodes encoded _).trans objects⟩

/-- New nodes are added, and then the edges are linked until one fails. -/
theorem addNodes_of_new {nodes edges : List Ref} {encoded : Option (List (List ℚ))}
    (new : New (nodes.map fun ref => (σ.node ref).id) σ.nodes.keys) :
    σ.addNodes cfg nodes edges encoded = match (σ.withNodes cfg nodes encoded).linkEach cfg (σ.putNodes cfg nodes).nameToId edges with
      | (τ, some message) => (τ, { success := false, message })
      | (τ, none) => (τ.save, {
          addedNodeIds := nodes.map fun ref => (τ.node ref).id
          addedEdgeIds := edges.map fun ref => (τ.edge ref).id
          success := true
          message := s!"Added {nodes.length} nodes and {edges.length} edges" }) := by
  rw [addNodes, addEach_of_new new]
  dsimp only
  rw [← (sameNodes_withNodes nodes encoded σ).nameToId]
  rfl

theorem linkEach_withNodes (cfg : StorageConfig) (nodes : List Ref) (encoded : Option (List (List ℚ))) {edges : List Ref}
    (inside : ∀ ref ∈ edges, ref < σ.edgeObjects.size) :
    ((σ.withNodes cfg nodes encoded).linkEach cfg (σ.putNodes cfg nodes).nameToId edges).2 = none ↔
      New (edges.map fun ref => (σ.edge ref).id) σ.edges.keys ∧
        ∀ ref ∈ edges, Linkable cfg (σ.putNodes cfg nodes).nameToId (σ.putNodes cfg nodes) (σ.edge ref) := by
  obtain ⟨sameEdges, sameObjects⟩ := edges_withNodes cfg nodes encoded σ
  have objects : ∀ ref, (σ.withNodes cfg nodes encoded).edge ref = σ.edge ref := fun ref => by
    rw [Storage.edge, sameObjects]
    rfl
  rw [linkEach_eq_none_iff fun ref member => by rw [sameObjects]; exact inside ref member, sameEdges]
  simp only [objects, (sameNodes_withNodes nodes encoded σ).linkable]

theorem addNodes_success_iff (cfg : StorageConfig) (nodes : List Ref) {edges : List Ref}
    (encoded : Option (List (List ℚ))) (inside : ∀ ref ∈ edges, ref < σ.edgeObjects.size) :
    (σ.addNodes cfg nodes edges encoded).2.success = true ↔ σ.Addable cfg nodes edges := by
  by_cases new : New (nodes.map fun ref => (σ.node ref).id) σ.nodes.keys
  · have linked := linkEach_withNodes cfg nodes encoded inside
    rw [addNodes_of_new new]
    generalize (σ.withNodes cfg nodes encoded).linkEach cfg (σ.putNodes cfg nodes).nameToId edges = done at linked
    obtain ⟨τ, outcome⟩ := done
    cases outcome with
    | none => exact ⟨fun _ => ⟨new, (linked.mp rfl).1, (linked.mp rfl).2⟩, fun _ => rfl⟩
    | some message =>
      refine ⟨fun no => (by cases no), fun addable => ?_⟩
      cases linked.mpr ⟨addable.newEdges, addable.linkable⟩
  · obtain ⟨added, ref, rest, _, stopped, _⟩ := addEach_of_not_new cfg new
    rw [addNodes, stopped]
    exact ⟨fun no => (by cases no), fun addable => absurd addable.newNodes new⟩

theorem nodes_dropEdges (ids : List String) (σ : Storage) : (σ.dropEdges ids).1.nodes = σ.nodes := by
  induction ids generalizing σ with
  | nil => rfl
  | cons id ids ih =>
    rw [dropEdges]
    split
    · rfl
    · dsimp only
      split
      · rfl
      · exact ih _

theorem nodes_dropNode {id : String} (dropped : σ.dropNode id = (τ, none)) : τ.nodes = σ.nodes.erase id := by
  have nodes := nodes_dropEdges (σ.edgesAt id) σ
  rw [dropNode] at dropped
  generalize σ.dropEdges (σ.edgesAt id) = done at nodes dropped
  obtain ⟨υ, failed⟩ := done
  cases failed with
  | some error => cases dropped
  | none =>
    dsimp only at dropped nodes
    split at dropped
    · cases dropped
    · cases dropped
      dsimp only
      rw [nodes]

/-- What a deletion that comes to its end has deleted. -/
theorem mem_deleteEach {ids : List String} {deleted : List (String × List String)} {σ : Storage}
    (looped : σ.deleteEach ids = (τ, .ok deleted)) {id : String} :
    id ∈ deleted.map Prod.fst ↔ id ∈ ids ∧ id ∈ σ.nodes.keys := by
  induction ids generalizing σ deleted with
  | nil =>
    cases looped
    simp
  | cons first ids ih =>
    rw [deleteEach] at looped
    split at looped
    · rename_i present
      generalize step : σ.dropNode first = done at looped
      obtain ⟨υ, failed⟩ := done
      cases failed with
      | some error => cases looped
      | none =>
        dsimp only at looped
        generalize rest : υ.deleteEach ids = done at looped
        obtain ⟨ω, outcome⟩ := done
        cases outcome with
        | error error => cases looped
        | ok later =>
          cases looped
          rw [List.map_cons, List.mem_cons, ih rest, nodes_dropNode step, OrderedDict.mem_keys_erase, List.mem_cons]
          dsimp only
          constructor
          · rintro (rfl | ⟨member, _, here⟩)
            · exact ⟨.inl rfl, present⟩
            · exact ⟨.inr member, here⟩
          · rintro ⟨rfl | member, here⟩
            · exact .inl rfl
            · by_cases same : id = first
              · exact .inl same
              · exact .inr ⟨member, same, here⟩
    · rename_i absent
      rw [ih looped, List.mem_cons]
      refine and_congr_left fun here => (or_iff_right fun same => absent ?_).symm
      rw [← same]
      exact here

/-- The embeddings that are left when some are removed are of one length. -/
def Stackable (ids : List String) (v : VectorStore) : Prop :=
  (∃ id ∈ ids, id ∈ v.embeddings.keys) →
    ∀ a ∈ (v.embeddings.filterKeys (· ∉ ids)).values, ∀ b ∈ (v.embeddings.filterKeys (· ∉ ids)).values, a.length = b.length

theorem vstack_isSome_iff {rows : List (List ℚ)} :
    (VectorStore.vstack rows).isSome = true ↔ ∀ a ∈ rows, ∀ b ∈ rows, a.length = b.length := by
  rw [VectorStore.vstack]
  split
  · rename_i same
    exact ⟨fun _ a inA b inB => (same a inA).trans (same b inB).symm, fun _ => rfl⟩
  · rename_i differ
    refine ⟨fun no => (nomatch no), fun same => absurd (fun row member => ?_) differ⟩
    cases rows with
    | nil => cases member
    | cons first rows => exact same row member first List.mem_cons_self

theorem updateMatrix_ok_iff {v : VectorStore} :
    v.updateMatrix.2 = true ↔ ∀ a ∈ v.embeddings.values, ∀ b ∈ v.embeddings.values, a.length = b.length := by
  rw [← vstack_isSome_iff, VectorStore.updateMatrix]
  split
  · rename_i empty
    rw [OrderedDict.values, empty]
    exact ⟨fun _ => rfl, fun _ => rfl⟩
  · dsimp only
    split
    · rename_i stacked
      rw [stacked]
      exact ⟨fun _ => rfl, fun _ => rfl⟩
    · rename_i unstacked
      rw [unstacked]
      exact ⟨fun no => (by cases no), fun no => (by cases no)⟩

theorem removeNodesEmbeddings_ok_iff {ids : List String} {v : VectorStore} :
    (v.removeNodesEmbeddings ids).2 = true ↔ Stackable ids v := by
  rw [VectorStore.removeNodesEmbeddings, Stackable]
  split
  · rename_i known
    rw [updateMatrix_ok_iff, List.any_eq_true] at *
    obtain ⟨id, member, here⟩ := known
    exact ⟨fun same _ => same, fun same => same ⟨id, member, of_decide_eq_true here⟩⟩
  · rename_i unknown
    refine ⟨fun _ some_known => absurd ?_ unknown, fun _ => rfl⟩
    obtain ⟨id, member, here⟩ := some_known
    exact List.any_eq_true.mpr ⟨id, member, decide_eq_true here⟩

/-- An id that has no embedding may be removed with the others or not. -/
theorem removeNodesEmbeddings_congr {ids ids' : List String} {v : VectorStore}
    (same : ∀ id ∈ v.embeddings.keys, id ∈ ids ↔ id ∈ ids') :
    v.removeNodesEmbeddings ids = v.removeNodesEmbeddings ids' := by
  have kept : v.embeddings.filterKeys (· ∉ ids) = v.embeddings.filterKeys (· ∉ ids') := by
    rw [OrderedDict.filterKeys, OrderedDict.filterKeys]
    congr 1
    refine List.filter_congr fun entry member => ?_
    rw [decide_eq_decide, same entry.1 (List.mem_map_of_mem member)]
  have known : ids.any (· ∈ v.embeddings.keys) = ids'.any (· ∈ v.embeddings.keys) := by
    rw [Bool.eq_iff_iff, List.any_eq_true, List.any_eq_true]
    simp only [decide_eq_true_eq]
    constructor
    · rintro ⟨id, member, here⟩
      exact ⟨id, (same id here).mp member, here⟩
    · rintro ⟨id, member, here⟩
      exact ⟨id, (same id here).mpr member, here⟩
  rw [VectorStore.removeNodesEmbeddings, VectorStore.removeNodesEmbeddings, kept, known]

theorem vectorStore_dropEdges (ids : List String) (σ : Storage) : (σ.dropEdges ids).1.vectorStore = σ.vectorStore := by
  induction ids generalizing σ with
  | nil => rfl
  | cons id ids ih =>
    rw [dropEdges]
    split
    · rfl
    · dsimp only
      split
      · rfl
      · exact ih _

theorem vectorStore_dropNode (id : String) (σ : Storage) : (σ.dropNode id).1.vectorStore = σ.vectorStore := by
  have kept := vectorStore_dropEdges (σ.edgesAt id) σ
  rw [dropNode]
  generalize σ.dropEdges (σ.edgesAt id) = done at kept
  obtain ⟨υ, failed⟩ := done
  cases failed with
  | some error => exact kept
  | none =>
    dsimp only
    split <;> exact kept

theorem vectorStore_deleteEach (ids : List String) (σ : Storage) : (σ.deleteEach ids).1.vectorStore = σ.vectorStore := by
  induction ids generalizing σ with
  | nil => rfl
  | cons id ids ih =>
    rw [deleteEach]
    split
    · have kept := vectorStore_dropNode id σ
      generalize σ.dropNode id = done at kept
      obtain ⟨υ, failed⟩ := done
      cases failed with
      | some error => exact kept
      | none => exact (ih υ).trans kept
    · exact ih σ

/-- The loop of a deletion comes to its end; in a sound storage it always does. -/
def Ends (ids : List String) (σ : Storage) : Prop := ∃ deleted, (σ.deleteEach ids).2 = .ok deleted

theorem Sound.ends (sound : σ.Sound cfg) (ids : List String) : σ.Ends ids := by
  obtain ⟨τ, deleted, looped, _⟩ := sound.deleteEach ids
  exact ⟨deleted, by rw [looped]⟩

/-- The ids of a list that are ids of nodes. -/
def known (ids : List String) (σ : Storage) : List String := ids.filter (· ∈ σ.nodes.keys)

theorem removed_known {ids : List String} {deleted : List (String × List String)}
    (looped : σ.deleteEach ids = (τ, .ok deleted)) :
    τ.vectorStore.removeNodesEmbeddings (deleted.map Prod.fst) = σ.vectorStore.removeNodesEmbeddings (σ.known ids) := by
  have kept := vectorStore_deleteEach ids σ
  rw [looped] at kept
  dsimp only at kept
  rw [kept]
  refine removeNodesEmbeddings_congr fun id _ => ?_
  rw [mem_deleteEach looped, known, List.mem_filter, decide_eq_true_eq]

theorem deleteNodes_success_iff (cfg : StorageConfig) (ids : List String) (confirmed : Bool) (σ : Storage) :
    (σ.deleteNodes cfg ids confirmed).2.success = true ↔
      ids.length ≤ 10 ∧ confirmed = true ∧ σ.Ends ids ∧ Stackable (σ.known ids) σ.vectorStore := by
  rw [deleteNodes]
  dsimp only
  split
  · rename_i long
    exact ⟨fun no => (by cases no), fun held => absurd held.1 (Nat.not_le.mpr long)⟩
  · rename_i short
    split
    · rename_i unconfirmed
      exact ⟨fun no => (by cases no), fun held => absurd held.2.1 unconfirmed⟩
    · rename_i given
      generalize looped : σ.deleteEach ids = done
      obtain ⟨τ, outcome⟩ := done
      rw [Ends, looped]
      cases outcome with
      | error error => exact ⟨fun no => (by cases no), fun held => (by cases held.2.2.1.choose_spec)⟩
      | ok deleted =>
        dsimp only
        rw [removed_known looped, ← removeNodesEmbeddings_ok_iff]
        split
        · rename_i ok
          exact ⟨fun _ => ⟨Nat.not_lt.mp short, not_not.mp given, ⟨deleted, rfl⟩, ok⟩, fun _ => rfl⟩
        · rename_i failed
          exact ⟨fun no => (by cases no), fun held => absurd held.2.2.2 failed⟩

end Storage

end MetadataGraph.Graph
