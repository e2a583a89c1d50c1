import Mathlib.Data.List.Nodup
import Mathlib.Data.List.Perm.Basic

namespace LayeredSearch

variable {κ ε : Type}

/-- A walk along the arcs that a node offers, with the number of its steps. -/
inductive Walk (arcs : κ → List (ε × κ)) (start : κ) : ℕ → κ → Prop
  | start : Walk arcs start 0 start
  | next {n a e b} : Walk arcs start n a → (e, b) ∈ arcs a → Walk arcs start (n + 1) b

/-- What a breadth-first search has collected, and the nodes that are new in the current round. -/
structure Collected (κ ε : Type) where
  nodes : List κ := []
  arcs : List ε := []
  layer : List κ := []

variable [DecidableEq κ] [DecidableEq ε]

/-- One arc is followed to its far end. -/
def follow (c : Collected κ ε) (arc : ε × κ) : Collected κ ε where
  nodes := c.nodes.insert arc.2
  arcs := c.arcs.insert arc.1
  layer := if arc.2 ∈ c.nodes then c.layer else c.layer.insert arc.2

/-- All arcs of the layer are followed, in the order in which the set of its nodes is listed. -/
def round (order : List κ → List κ) (arcs : κ → List (ε × κ)) (c : Collected κ ε) : Collected κ ε :=
  ((order c.layer).flatMap arcs).foldl follow { c with layer := [] }

def rounds (order : List κ → List κ) (arcs : κ → List (ε × κ)) (start : κ) : ℕ → Collected κ ε
  | 0 => { nodes := [start], layer := [start] }
  | n + 1 => round order arcs (rounds order arcs start n)

section Follow

variable {c : Collected κ ε} {followed : List (ε × κ)}

theorem mem_nodes_foldl {b : κ} : b ∈ (followed.foldl follow c).nodes ↔ b ∈ c.nodes ∨ ∃ arc ∈ followed, arc.2 = b := by
  induction followed generalizing c with
  | nil => simp
  | cons arc followed ih =>
    rw [List.foldl_cons, ih, follow, List.mem_insert_iff]
    simp only [List.mem_cons, exists_eq_or_imp, eq_comm (a := b)]
    tauto

theorem mem_arcs_foldl {e : ε} : e ∈ (followed.foldl follow c).arcs ↔ e ∈ c.arcs ∨ ∃ arc ∈ followed, arc.1 = e := by
  induction followed generalizing c with
  | nil => simp
  | cons arc followed ih =>
    rw [List.foldl_cons, ih, follow, List.mem_insert_iff]
    simp only [List.mem_cons, exists_eq_or_imp, eq_comm (a := e)]
    tauto

/-- The layer takes the nodes that are new since `before`. -/
theorem mem_layer_foldl (before : List κ) (new : ∀ b, b ∈ c.layer ↔ b ∈ c.nodes ∧ b ∉ before)
    (known : ∀ b ∈ before, b ∈ c.nodes) (b : κ) :
    b ∈ (followed.foldl follow c).layer ↔ b ∈ (followed.foldl follow c).nodes ∧ b ∉ before := by
  induction followed generalizing c with
  | nil => exact new b
  | cons arc followed ih =>
    refine ih (fun a => ?_) fun a member => List.mem_insert_of_mem (known a member)
    simp only [follow, List.mem_insert_iff]
    split
    · rename_i seen
      rw [new]
      refine and_congr_left fun _ => ⟨.inr, ?_⟩
      rintro (rfl | kept)
      · exact seen
      · exact kept
    · rename_i unseen
      rw [List.mem_insert_iff, new]
      constructor
      · rintro (rfl | ⟨kept, fresh⟩)
        · exact ⟨.inl rfl, fun member => unseen (known _ member)⟩
        · exact ⟨.inr kept, fresh⟩
      · rintro ⟨rfl | kept, fresh⟩
        · exact .inl rfl
        · exact .inr ⟨kept, fresh⟩

theorem nodup_foldl (nodes : c.nodes.Nodup) (arcs : c.arcs.Nodup) :
    (followed.foldl follow c).nodes.Nodup ∧ (followed.foldl follow c).arcs.Nodup := by
  induction followed generalizing c with
  | nil => exact ⟨nodes, arcs⟩
  | cons arc followed ih => exact ih nodes.insert arcs.insert

end Follow

variable {order : List κ → List κ} {arcs : κ → List (ε × κ)} {start : κ}

theorem nodup_rounds (n : ℕ) : (rounds order arcs start n).nodes.Nodup ∧ (rounds order arcs start n).arcs.Nodup := by
  induction n with
  | zero => exact ⟨List.nodup_singleton start, List.nodup_nil⟩
  | succ n ih => exact nodup_foldl ih.1 ih.2

section Order

variable (listed : ∀ l, (order l).Perm l)

include listed

omit [DecidableEq κ] [DecidableEq ε] in
theorem mem_followed {c : Collected κ ε} {arc : ε × κ} :
    arc ∈ (order c.layer).flatMap arcs ↔ ∃ a ∈ c.layer, arc ∈ arcs a := by
  simp only [List.mem_flatMap, (listed c.layer).mem_iff]

theorem mem_nodes_succ (n : ℕ) (b : κ) : b ∈ (rounds order arcs start (n + 1)).nodes ↔
    b ∈ (rounds order arcs start n).nodes ∨ ∃ a ∈ (rounds order arcs start n).layer, ∃ e, (e, b) ∈ arcs a := by
  rw [rounds, round, mem_nodes_foldl]
  refine or_congr_right ⟨?_, ?_⟩
  · rintro ⟨⟨e, b⟩, member, rfl⟩
    obtain ⟨a, layer, offered⟩ := (mem_followed listed).mp member
    exact ⟨a, layer, e, offered⟩
  · rintro ⟨a, layer, e, offered⟩
    exact ⟨(e, b), (mem_followed listed).mpr ⟨a, layer, offered⟩, rfl⟩

theorem mem_arcs_succ (n : ℕ) (e : ε) : e ∈ (rounds order arcs start (n + 1)).arcs ↔
    e ∈ (rounds order arcs start n).arcs ∨ ∃ a ∈ (rounds order arcs start n).layer, ∃ b, (e, b) ∈ arcs a := by
  rw [rounds, round, mem_arcs_foldl]
  refine or_congr_right ⟨?_, ?_⟩
  · rintro ⟨⟨e, b⟩, member, rfl⟩
    obtain ⟨a, layer, offered⟩ := (mem_followed listed).mp member
    exact ⟨a, layer, b, offered⟩
  · rintro ⟨a, layer, b, offered⟩
    exact ⟨(e, b), (mem_followed listed).mpr ⟨a, layer, offered⟩, rfl⟩

omit listed in
theorem mem_layer_succ (n : ℕ) (b : κ) : b ∈ (rounds order arcs start (n + 1)).layer ↔
    b ∈ (rounds order arcs start (n + 1)).nodes ∧ b ∉ (rounds order arcs start n).nodes := by
  rw [rounds, round]
  have nothing : ∀ a, a ∈ ([] : List κ) ↔ a ∈ (rounds order arcs start n).nodes ∧ a ∉ (rounds order arcs start n).nodes :=
    fun a => by simp
  exact mem_layer_foldl (c := { rounds order arcs start n with layer := [] }) _ nothing (fun a member => member) b

/-- The nodes of a layer are those that no shorter walk reaches. -/
theorem rounds_spec (n : ℕ) :
    (∀ b, b ∈ (rounds order arcs start n).nodes ↔ ∃ m ≤ n, Walk arcs start m b) ∧
      ∀ b, b ∈ (rounds order arcs start n).layer ↔ Walk arcs start n b ∧ ∀ m < n, ¬ Walk arcs start m b := by
  induction n with
  | zero =>
    refine ⟨fun b => ?_, fun b => ?_⟩
    · rw [rounds, List.mem_singleton]
      constructor
      · rintro rfl
        exact ⟨0, Nat.le_refl 0, .start⟩
      · rintro ⟨m, bound, walk⟩
        obtain rfl := Nat.le_zero.mp bound
        cases walk
        rfl
    · rw [rounds, List.mem_singleton]
      constructor
      · rintro rfl
        exact ⟨.start, fun m below => absurd below (Nat.not_lt_zero m)⟩
      · rintro ⟨walk, _⟩
        cases walk
        rfl
  | succ n ih =>
    have nodes : ∀ b, b ∈ (rounds order arcs start (n + 1)).nodes ↔ ∃ m ≤ n + 1, Walk arcs start m b := by
      intro b
      rw [mem_nodes_succ listed, ih.1]
      constructor
      · rintro (⟨m, bound, walk⟩ | ⟨a, layer, e, offered⟩)
        · exact ⟨m, by omega, walk⟩
        · exact ⟨n + 1, Nat.le_refl (n + 1), .next ((ih.2 a).mp layer).1 offered⟩
      · rintro ⟨m, bound, walk⟩
        rcases Nat.lt_or_ge n m with last | before
        · obtain rfl : m = n + 1 := by omega
          cases walk with
          | @next _ a e _ walk offered =>
            by_cases shorter : ∃ m < n, Walk arcs start m a
            · obtain ⟨m, below, short⟩ := shorter
              exact .inl ⟨m + 1, below, short.next offered⟩
            · exact .inr ⟨a, (ih.2 a).mpr ⟨walk, fun m below short => shorter ⟨m, below, short⟩⟩, e, offered⟩
        · exact .inl ⟨m, before, walk⟩
    refine ⟨nodes, fun b => ?_⟩
    rw [mem_layer_succ, nodes, ih.1]
    constructor
    · rintro ⟨⟨m, bound, walk⟩, new⟩
      have none_before : ∀ m < n + 1, ¬ Walk arcs start m b := fun m below short => new ⟨m, by omega, short⟩
      obtain rfl : m = n + 1 := by
        by_contra other
        exact none_before m (by omega) walk
      exact ⟨walk, none_before⟩
    · rintro ⟨walk, new⟩
      exact ⟨⟨n + 1, Nat.le_refl (n + 1), walk⟩, fun ⟨m, bound, short⟩ => new m (by omega) short⟩

/-- The nodes that are collected are those within reach. -/
theorem mem_nodes_rounds (n : ℕ) (b : κ) : b ∈ (rounds order arcs start n).nodes ↔ ∃ m ≤ n, Walk arcs start m b :=
  (rounds_spec listed n).1 b

/-- The arcs that are collected are those that a node within fewer steps offers, whether or not their far end is new. -/
theorem mem_arcs_rounds (n : ℕ) (e : ε) : e ∈ (rounds order arcs start n).arcs ↔
    ∃ m < n, ∃ a b, Walk arcs start m a ∧ (e, b) ∈ arcs a := by
  induction n with
  | zero => simp [rounds]
  | succ n ih =>
    rw [mem_arcs_succ listed, ih]
    constructor
    · rintro (⟨m, below, a, b, walk, offered⟩ | ⟨a, layer, b, offered⟩)
      · exact ⟨m, by omega, a, b, walk, offered⟩
      · exact ⟨n, Nat.lt_succ_self n, a, b, (((rounds_spec listed n).2 a).mp layer).1, offered⟩
    · rintro ⟨m, below, a, b, walk, offered⟩
      rcases Nat.lt_or_ge m n with before | last
      · exact .inl ⟨m, before, a, b, walk, offered⟩
      · obtain rfl : m = n := by omega
        by_cases shorter : ∃ k < m, Walk arcs start k a
        · obtain ⟨k, below, short⟩ := shorter
          exact .inl ⟨k, below, a, b, short, offered⟩
        · refine .inr ⟨a, ((rounds_spec listed m).2 a).mpr ⟨walk, fun k below short => shorter ⟨k, below, short⟩⟩, b, offered⟩

end Order

end LayeredSearch
