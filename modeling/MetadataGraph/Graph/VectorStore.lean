import MetadataGraph.Lib.OrderedDict
import MetadataGraph.Graph.Models

namespace MetadataGraph.Graph

/-- The index of embeddings by node id, with the matrix that a search multiplies. -/
structure VectorStore where
  embeddings : OrderedDict String (List ℚ) := {}
  nodeIds : List String := []
  embeddingMatrix : Option (List (List ℚ)) := none

namespace VectorStore

/-- `np.vstack`, which raises for rows of different lengths. -/
def vstack (rows : List (List ℚ)) : Option (List (List ℚ)) :=
  if ∀ row ∈ rows, row.length = (rows.headD []).length then some rows else none

/-- `_update_matrix`, and whether it came to its end. The ids are set before the rows are stacked. -/
def updateMatrix (v : VectorStore) : VectorStore × Bool :=
  if v.embeddings.entries = [] then ({ v with nodeIds := [], embeddingMatrix := none }, true)
  else
    let v := { v with nodeIds := v.embeddings.keys }
    match vstack v.embeddings.values with
    | some matrix => ({ v with embeddingMatrix := some matrix }, true)
    | none => (v, false)

def indexNode (embeddings : OrderedDict String (List ℚ)) (node : Node) : OrderedDict String (List ℚ) :=
  match node.embedding with
  | some vector => embeddings.set node.id vector
  | none => embeddings

def rebuildIndex (nodes : List Node) (v : VectorStore) : VectorStore × Bool :=
  { v with embeddings := nodes.foldl indexNode {} }.updateMatrix

/-- `remove_nodes_embeddings`: the matrix is made anew only if an id was there. -/
def removeNodesEmbeddings (ids : List String) (v : VectorStore) : VectorStore × Bool :=
  let removed := { v with embeddings := v.embeddings.filterKeys (· ∉ ids) }
  if ids.any (· ∈ v.embeddings.keys) then removed.updateMatrix else (v, true)

/-- Every id that has an embedding passes a test, and a search meets only ids that have one. -/
structure Within (v : VectorStore) (present : String → Prop) : Prop where
  embedded : ∀ id ∈ v.embeddings.keys, present id
  listed : ∀ id ∈ v.nodeIds, id ∈ v.embeddings.keys

theorem embeddings_updateMatrix (v : VectorStore) : v.updateMatrix.1.embeddings = v.embeddings := by
  rw [updateMatrix]
  split
  · rfl
  · dsimp only
    split <;> rfl

theorem Within.updateMatrix {v : VectorStore} {present : String → Prop}
    (embedded : ∀ id ∈ v.embeddings.keys, present id) : v.updateMatrix.1.Within present := by
  refine ⟨by rw [embeddings_updateMatrix]; exact embedded, fun id member => ?_⟩
  rw [embeddings_updateMatrix]
  rw [VectorStore.updateMatrix] at member
  split at member
  · cases member
  · dsimp only at member
    split at member <;> exact member

theorem mem_keys_indexNode {embeddings : OrderedDict String (List ℚ)} {node : Node} {id : String}
    (member : id ∈ (indexNode embeddings node).keys) : id = node.id ∨ id ∈ embeddings.keys := by
  rw [indexNode] at member
  split at member
  · exact OrderedDict.mem_keys_set.mp member
  · exact .inr member

theorem mem_keys_indexNodes {nodes : List Node} {embeddings : OrderedDict String (List ℚ)} {id : String}
    (member : id ∈ (nodes.foldl indexNode embeddings).keys) :
    (∃ node ∈ nodes, node.id = id) ∨ id ∈ embeddings.keys := by
  induction nodes generalizing embeddings with
  | nil => exact .inr member
  | cons node nodes ih =>
    rcases ih member with ⟨later, inTail, same⟩ | earlier
    · exact .inl ⟨later, List.mem_cons_of_mem _ inTail, same⟩
    · rcases mem_keys_indexNode earlier with rfl | before
      · exact .inl ⟨node, List.mem_cons_self, rfl⟩
      · exact .inr before

theorem Within.rebuildIndex {nodes : List Node} {present : String → Prop} (here : ∀ node ∈ nodes, present node.id)
    (v : VectorStore) : (v.rebuildIndex nodes).1.Within present := by
  rw [VectorStore.rebuildIndex]
  apply Within.updateMatrix
  intro id member
  rcases mem_keys_indexNodes member with ⟨node, inNodes, rfl⟩ | none
  · exact here node inNodes
  · cases none

/-- What was removed from the index is not in it, and nothing has come in. -/
theorem Within.removeNodesEmbeddings {v : VectorStore} {before after : String → Prop} {ids : List String}
    (within : v.Within before) (kept : ∀ id, before id → id ∉ ids → after id) :
    (v.removeNodesEmbeddings ids).1.Within after := by
  rw [VectorStore.removeNodesEmbeddings]
  split
  · apply Within.updateMatrix
    intro id member
    simp only [OrderedDict.mem_keys, OrderedDict.get?_filterKeys, decide_eq_true_eq] at member
    obtain ⟨vector, found⟩ := member
    split at found
    · rename_i outside
      exact kept id (within.embedded id (OrderedDict.mem_keys.mpr ⟨vector, found⟩)) outside
    · cases found
  · rename_i unchanged
    refine ⟨fun id member => kept id (within.embedded id member) fun inIds => ?_, within.listed⟩
    exact unchanged (List.any_eq_true.mpr ⟨id, inIds, decide_eq_true member⟩)

end VectorStore

end MetadataGraph.Graph
