import Mathlib.Algebra.Order.BigOperators.Group.List
import Mathlib.Algebra.Order.Ring.Nat
import MetadataGraph.Client.Delivery
import MetadataGraph.Client.Encoding
import MetadataGraph.Session.Batch

namespace MetadataGraph

/-! ### The token bucket -/

/-- `_TokenBucket`: a budget for each client that refills over time. -/
structure TokenBucket where
  capacity : ℚ := 200
  refill : ℚ := 100
  idleTtl : ℚ := 3600
  sweepInterval : ℚ := 300
  tokens : Dict ℚ := ∅
  last : Dict ℚ := ∅
  lastSweep : ℚ := 0

namespace TokenBucket

/-- `_evict`. -/
def evict (b : TokenBucket) (now : ℚ) : TokenBucket :=
  let stale := b.last.keys.filter fun key => b.last[key]?.any (· < now - b.idleTtl)
  { b with tokens := stale.foldl (fun tokens key => tokens.erase key) b.tokens
           last := stale.foldl (fun last key => last.erase key) b.last, lastSweep := now }

/-- The sweep that `consume` starts with. -/
def swept (b : TokenBucket) (now : ℚ) : TokenBucket :=
  if now - b.lastSweep ≥ b.sweepInterval then b.evict now else b

/-- What the client may spend at that time. -/
def available (b : TokenBucket) (client : String) (now : ℚ) : ℚ :=
  let b := b.swept now
  min b.capacity ((b.tokens[client]?.getD b.capacity) + (now - (b.last[client]?.getD now)) * b.refill)

def consume (b : TokenBucket) (client : String) (amount now : ℚ) : TokenBucket × Bool :=
  let tokens := b.available client now
  let b := b.swept now
  let last := b.last.insert client now
  if tokens < amount then ({ b with tokens := b.tokens.insert client tokens, last := last }, false)
  else ({ b with tokens := b.tokens.insert client (tokens - amount), last := last }, true)

theorem consume_eq_true {b : TokenBucket} {client : String} {amount now : ℚ} :
    (b.consume client amount now).2 = true ↔ amount ≤ b.available client now := by
  unfold consume
  dsimp only
  split
  · rename_i short
    simpa using short
  · rename_i enough
    simpa using enough

theorem capacity_swept (b : TokenBucket) (now : ℚ) : (b.swept now).capacity = b.capacity := by
  unfold swept
  split <;> rfl

theorem available_le (b : TokenBucket) (client : String) (now : ℚ) : b.available client now ≤ b.capacity := by
  rw [← b.capacity_swept now]
  exact min_le_left _ _

/-- What costs more than the capacity is refused for ever. -/
theorem consume_eq_false {b : TokenBucket} {client : String} {amount now : ℚ} (dear : b.capacity < amount) :
    (b.consume client amount now).2 = false := by
  rw [← Bool.not_eq_true, consume_eq_true, not_le]
  exact (b.available_le client now).trans_lt dear

end TokenBucket

/-! ### The checks before the lock -/

/-- `_op_embedded_image_bytes`. -/
def opEmbeddedImageBytes (op : Json) : Nat :=
  if op.field "op" = .str "annotation_created" ∨ op.field "op" = .str "annotation_updated" then
    let ann := op.field "annotation"
    let type := ((ann.field "type").orElse (ann.field "kind")).string?.map canonicalType
    let url := (ann.field "image").field "url"
    if ann.isObject ∧ type = some "image" ∧ (ann.field "image").isObject ∧ isEmbeddedImageUrl url then
      dataUrlByteLength url
    else 0
  else 0

/-- The loop of `apply_ops` that adds up the bytes of the ops without embedded images. -/
def nonImageBytes (cfg : ManagerConfig) (size : Json → Nat) : Nat → List Json → Except Failure Nat
  | total, [] => .ok total
  | total, op :: ops =>
    if !op.isObject then nonImageBytes cfg size total ops
    else if opEmbeddedImageBytes op > 0 then
      if opEmbeddedImageBytes op > cfg.maxOptimizedImageBytes then .error .imageBudgetExceeded
      else nonImageBytes cfg size total ops
    else nonImageBytes cfg size (total + size op) ops

/-- The count and size checks of `apply_ops`; `size` is `len(json.dumps(op))`. -/
def checkBatch (cfg : ManagerConfig) (size : Json → Nat) (ops : List Json) : Except Failure Unit :=
  if ops.length > cfg.maxOps then .error .opBatchTooLarge
  else match nonImageBytes cfg size 0 ops with
    | .error failure => .error failure
    | .ok total => if total > cfg.maxOpBatchBytes then .error .opBatchTooLarge else .ok ()

/-- What an op adds to the sum. -/
def chargedBytes (size : Json → Nat) (op : Json) : Nat :=
  if op.isObject ∧ opEmbeddedImageBytes op = 0 then size op else 0

theorem nonImageBytes_eq_ok {cfg : ManagerConfig} {size : Json → Nat} {total : Nat} {ops : List Json}
    (small : ∀ op ∈ ops, opEmbeddedImageBytes op ≤ cfg.maxOptimizedImageBytes) :
    nonImageBytes cfg size total ops = .ok (total + (ops.map (chargedBytes size)).sum) := by
  induction ops generalizing total with
  | nil => rfl
  | cons op ops ih =>
    have rest := @ih total fun later member => small later (List.mem_cons_of_mem op member)
    have charged := @ih (total + size op) fun later member => small later (List.mem_cons_of_mem op member)
    have bound := small op List.mem_cons_self
    rw [nonImageBytes, List.map_cons, List.sum_cons, chargedBytes]
    by_cases object : op.isObject = true
    · by_cases plain : opEmbeddedImageBytes op = 0
      · simp [object, plain, charged, Nat.add_assoc]
      · simp [object, plain, rest, Nat.pos_of_ne_zero plain, Nat.not_lt.mpr bound]
    · simp [object, rest]

theorem checkBatch_eq_ok {cfg : ManagerConfig} {size : Json → Nat} {ops : List Json}
    (small : ∀ op ∈ ops, opEmbeddedImageBytes op ≤ cfg.maxOptimizedImageBytes) :
    checkBatch cfg size ops = .ok () ↔
      ops.length ≤ cfg.maxOps ∧ (ops.map (chargedBytes size)).sum ≤ cfg.maxOpBatchBytes := by
  rw [checkBatch, nonImageBytes_eq_ok small, Nat.zero_add]
  by_cases many : ops.length > cfg.maxOps
  · simp [many, Nat.not_le.mpr many]
  · by_cases large : (ops.map (chargedBytes size)).sum > cfg.maxOpBatchBytes
    · simp [many, large, Nat.not_le.mpr large]
    · simp [many, large, Nat.not_lt.mp many, Nat.not_lt.mp large]

namespace Client

/-! ### An embedded image is not longer than the op that carries it -/

theorem length_afterBase64Marker {cs encoded : List Char} (found : afterBase64Marker cs = some encoded) :
    encoded.length ≤ cs.length := by
  induction cs with
  | nil => cases found
  | cons c cs ih =>
    rw [afterBase64Marker] at found
    split at found
    · cases found
      rw [List.length_drop]
      exact Nat.sub_le _ _
    · exact (ih found).trans (Nat.le_succ _)

theorem length_le_string (js : ℚ → Nat) (cs : List Char) : cs.length ≤ (cs.map (stringify js).char).sum := by
  induction cs with
  | nil => exact le_refl _
  | cons c cs ih =>
    have positive : 1 ≤ (stringify js).char c := by
      simp only [stringify, utf16Units]
      repeat' split
      all_goals omega
    rw [List.length_cons, List.map_cons, List.sum_cons]
    omega

theorem dataUrlByteLength_le (js : ℚ → Nat) (url : Json) : dataUrlByteLength url ≤ (stringify js).size url := by
  unfold dataUrlByteLength
  split
  · rename_i s
    have shown := length_le_string js s.toList
    rw [JsonEncoder.size, JsonEncoder.string]
    split
    · rename_i encoded found
      have shorter := length_afterBase64Marker found
      omega
    · omega
  · exact Nat.zero_le _

theorem size_le_entries (e : JsonEncoder) {key : String} {value : Json} {entries : List (String × Json)}
    (member : (key, value) ∈ entries) : e.size value ≤ e.entries entries := by
  induction entries with
  | nil => cases member
  | cons entry rest ih =>
    cases rest with
    | nil =>
      rw [← List.mem_singleton.mp member, JsonEncoder.entries]
      omega
    | cons next rest =>
      rw [JsonEncoder.entries_cons]
      rcases List.mem_cons.mp member with rfl | later
      · dsimp only
        omega
      · have := ih later
        omega

theorem size_field (e : JsonEncoder) (value : Json) (key : String) :
    value.field key = .null ∨ e.size (value.field key) ≤ e.size value := by
  unfold Json.field
  split
  · rename_i entries
    cases found : entries.find? (·.1 = key) with
    | none => exact Or.inl rfl
    | some entry =>
      right
      have bound := size_le_entries e (List.mem_of_find?_eq_some found)
      rw [JsonEncoder.size]
      simp only [Option.map_some, Option.getD_some]
      omega
  · exact Or.inl rfl

theorem opEmbeddedImageBytes_le (js : ℚ → Nat) (op : Json) : opEmbeddedImageBytes op ≤ (stringify js).size op := by
  have url := dataUrlByteLength_le js (((op.field "annotation").field "image").field "url")
  have empty : dataUrlByteLength Json.null = 0 := rfl
  have missing : ∀ key, Json.null.field key = .null := fun _ => rfl
  unfold opEmbeddedImageBytes
  dsimp only
  split
  · split
    · rcases size_field (stringify js) op "annotation" with ann | ann
      · rw [ann, missing, missing, empty]
        exact Nat.zero_le _
      rcases size_field (stringify js) (op.field "annotation") "image" with image | image
      · rw [image, missing, empty]
        exact Nat.zero_le _
      rcases size_field (stringify js) ((op.field "annotation").field "image") "url" with inner | inner
      · rw [inner, empty]
        exact Nat.zero_le _
      · omega
    · exact Nat.zero_le _
  · exact Nat.zero_le _

/-! ### What `_takeBatch` takes -/

/-- The `JSON.stringify` lengths of the ops together. -/
def totalBytes {α : Type} (size : α → Nat) (ops : List (QueuedOp α)) : Nat := (ops.map fun o => size o.op).sum

namespace Outbound

variable {α : Type} {size : α → Nat}

/-- After a first op the loop takes the longest front part that fits. -/
theorem takeWithin_fits {bytes : Nat} {batch : List (QueuedOp α)} (started : batch ≠ []) (rest : List (QueuedOp α)) :
    ∃ k ≤ rest.length, takeWithin size bytes batch rest = batch ++ rest.take k ∧
      (1 ≤ k → bytes + totalBytes size (rest.take k) ≤ maxBatchBytes) ∧
      ∀ j ≤ rest.length, bytes + totalBytes size (rest.take j) ≤ maxBatchBytes → j ≤ k := by
  induction rest generalizing bytes batch with
  | nil => exact ⟨0, le_refl _, by simp [takeWithin], by omega, fun j short _ => short⟩
  | cons o rest ih =>
    rw [takeWithin]
    split
    · rename_i full
      refine ⟨0, Nat.zero_le _, by simp, by omega, fun j _ fits => ?_⟩
      cases j with
      | zero => exact le_refl _
      | succ j =>
        rw [List.take_succ_cons, totalBytes, List.map_cons, List.sum_cons] at fits
        omega
    · rename_i room
      have positive : batch.length > 0 := List.length_pos_iff.mpr started
      obtain ⟨k, inside, taken, within, longest⟩ := @ih (bytes + size o.op) (batch ++ [o]) (by simp)
      refine ⟨k + 1, by simpa using inside, by rw [taken, List.take_succ_cons, List.append_assoc, List.singleton_append],
        fun _ => ?_, fun j short fits => ?_⟩
      · rw [List.take_succ_cons, totalBytes, List.map_cons, List.sum_cons, ← Nat.add_assoc]
        by_cases more : 1 ≤ k
        · exact within more
        · obtain rfl : k = 0 := by omega
          simp only [List.take_zero, List.map_nil, List.sum_nil]
          omega
      · cases j with
        | zero => exact Nat.zero_le _
        | succ j =>
          rw [List.take_succ_cons, totalBytes, List.map_cons, List.sum_cons, ← Nat.add_assoc] at fits
          exact Nat.succ_le_succ (longest j (by simpa using short) fits)

/-- A batch of several ops is the longest front part of the queue within both caps. -/
theorem takeBatch_longest {c : Outbound α} (normal : c.forceSingle = false) :
    ∃ k ≤ min c.queue.length maxOpsPerBatch, c.takeBatch size = c.queue.take k ∧
      (2 ≤ k → totalBytes size (c.queue.take k) ≤ maxBatchBytes) ∧
      ∀ j ≤ min c.queue.length maxOpsPerBatch, totalBytes size (c.queue.take j) ≤ maxBatchBytes → j ≤ k := by
  unfold takeBatch
  rw [if_neg (by simp [normal])]
  cases waiting : c.queue with
  | nil => exact ⟨0, Nat.zero_le _, rfl, by omega, by simp⟩
  | cons o queue =>
    dsimp only
    obtain ⟨limit, bound⟩ : ∃ limit, min (o :: queue).length maxOpsPerBatch = limit + 1 :=
      ⟨min queue.length 499, by simp only [List.length_cons, maxOpsPerBatch]; omega⟩
    obtain ⟨k, inside, taken, within, longest⟩ :=
      @takeWithin_fits _ size (0 + size o.op) ([] ++ [o]) (by simp) (queue.take limit)
    have shorter : (queue.take limit).length = limit := by
      rw [List.length_take, List.length_cons] at *
      omega
    have front : ∀ j ≤ limit, (queue.take limit).take j = queue.take j := by
      intro j small
      rw [List.take_take, Nat.min_eq_left small]
    rw [shorter] at inside longest
    have loop : takeWithin size 0 [] ((o :: queue).take (limit + 1)) = (o :: queue).take (k + 1) := by
      rw [List.take_succ_cons, takeWithin, if_neg (by simp), taken, front k inside]
      rfl
    rw [bound, loop]
    refine ⟨k + 1, by omega, by simp, fun _ => ?_, fun j small fits => ?_⟩
    · have fits := within (by omega)
      rw [front k inside] at fits
      rw [List.take_succ_cons, totalBytes, List.map_cons, List.sum_cons]
      simpa [totalBytes] using fits
    · cases j with
      | zero => exact Nat.zero_le _
      | succ j =>
        rw [List.take_succ_cons, totalBytes, List.map_cons, List.sum_cons] at fits
        refine Nat.succ_le_succ (longest j (by omega) ?_)
        rw [front j (by omega)]
        simpa [totalBytes] using fits

end Outbound

/-! ### Batches against the server's limits -/

/-- The batch passes the server's count and size checks, and a full bucket pays for it. -/
def Admissible (py : ℚ → Nat) (client : String) (ops : List Json) : Prop :=
  checkBatch {} (dumps py).size ops = .ok () ∧
    ∀ (bucket : TokenBucket) now, bucket.capacity = 200 → bucket.available client now = bucket.capacity →
      (bucket.consume client (max 1 (ops.length : ℚ)) now).2 = true

/-- Every front part of several ops that the client's caps admit has at most 200 ops, and their
`json.dumps` texts, those with an embedded image aside, fit in the server's cap. -/
def FitsServer (js py : ℚ → Nat) (queue : List (QueuedOp Json)) : Prop :=
  ∀ k ≤ min queue.length maxOpsPerBatch, 2 ≤ k → totalBytes (stringify js).size (queue.take k) ≤ maxBatchBytes →
    k ≤ 200 ∧ (((queue.take k).map (·.op)).map (chargedBytes (dumps py).size)).sum ≤ 256 * 1024

theorem full_bucket_pays {client : String} {n : Nat} :
    (∀ (bucket : TokenBucket) now, bucket.capacity = 200 → bucket.available client now = bucket.capacity →
      (bucket.consume client (max 1 (n : ℚ)) now).2 = true) ↔ n ≤ 200 := by
  have cost : max 1 (n : ℚ) ≤ 200 ↔ n ≤ 200 := by
    rw [max_le_iff]
    constructor
    · rintro ⟨-, small⟩
      exact_mod_cast small
    · intro small
      exact ⟨by decide, by exact_mod_cast small⟩
  constructor
  · intro pays
    have full : ({} : TokenBucket).available client 0 = ({} : TokenBucket).capacity := by
      have early : ({} : TokenBucket).swept 0 = {} := by rw [TokenBucket.swept, if_neg (by decide +kernel)]
      simp [TokenBucket.available, early]
    have paid := pays {} 0 rfl full
    rw [TokenBucket.consume_eq_true, full] at paid
    exact cost.mp paid
  · intro small bucket now capacity full
    rw [TokenBucket.consume_eq_true, full, capacity]
    exact cost.mpr small

theorem admissible_iff {js py : ℚ → Nat} {client : String} {ops : List (QueuedOp Json)}
    (within : totalBytes (stringify js).size ops ≤ maxBatchBytes) (count : ops.length ≤ maxOpsPerBatch) :
    Admissible py client (ops.map (·.op)) ↔
      ops.length ≤ 200 ∧ ((ops.map (·.op)).map (chargedBytes (dumps py).size)).sum ≤ 256 * 1024 := by
  have small : ∀ op ∈ ops.map (·.op), opEmbeddedImageBytes op ≤ ({} : ManagerConfig).maxOptimizedImageBytes := by
    intro op member
    obtain ⟨o, inside, rfl⟩ := List.mem_map.mp member
    have image := opEmbeddedImageBytes_le js o.op
    have part : (stringify js).size o.op ≤ totalBytes (stringify js).size ops :=
      List.single_le_sum (by simp) _ (List.mem_map_of_mem inside)
    simp only [maxBatchBytes] at within
    change opEmbeddedImageBytes o.op ≤ 2 * 1024 * 1024
    omega
  rw [Admissible, full_bucket_pays, checkBatch_eq_ok small, List.length_map]
  change (ops.length ≤ 500 ∧ _ ≤ 256 * 1024) ∧ _ ↔ _
  simp only [maxOpsPerBatch] at count
  omega

/-- Every batch of several ops can be admitted exactly if every front part of the queue that the
client's caps admit fits the server's. -/
theorem batches_admissible_iff (js py : ℚ → Nat) (client : String) (c : Outbound Json) :
    (2 ≤ (c.takeBatch (stringify js).size).length →
      Admissible py client ((c.takeBatch (stringify js).size).map (·.op))) ↔
      (c.forceSingle = false → FitsServer js py c.queue) := by
  cases mode : c.forceSingle with
  | true =>
    have single : (c.takeBatch (stringify js).size).length ≤ 1 := by
      rw [Outbound.takeBatch, if_pos mode]
      exact List.length_take_le _ _
    simp only [Bool.true_eq_false, false_imp_iff, iff_true]
    omega
  | false =>
    obtain ⟨k, inside, taken, within, longest⟩ := @Outbound.takeBatch_longest _ (stringify js).size _ mode
    have length : (c.queue.take k).length = k := by
      rw [List.length_take]
      omega
    rw [taken, length]
    simp only [true_imp_iff]
    constructor
    · intro admitted j short several fits
      have shorter := longest j short fits
      obtain ⟨count, bytes⟩ := (admissible_iff (within (by omega)) (by omega)).mp (admitted (by omega))
      refine ⟨by omega, Nat.le_trans ?_ bytes⟩
      have front : c.queue.take j = (c.queue.take k).take j := by rw [List.take_take, Nat.min_eq_left shorter]
      rw [front]
      exact List.Sublist.sum_le_sum (((List.take_sublist _ _).map _).map _) (by simp)
    · intro fits several
      rw [admissible_iff (within several) (by omega), length]
      exact fits k inside several (within several)

/-- An op that adds one node. -/
def sampleOp : Json := .obj [("node_ids", .ofStrings ["n"]), ("op", .str "nodes_added")]

/-- A backlog of 201 small ops makes one batch, which no bucket ever pays for. -/
theorem large_batch_never_paid : ∃ c : Outbound Json, ∃ batch,
    c.takeBatch (stringify fun _ => 1).size = batch ∧ batch.length = 201 ∧
      ¬Admissible (fun _ => 1) "ada" (batch.map (·.op)) ∧
      ∀ (bucket : TokenBucket) now, bucket.capacity = 200 →
        (bucket.consume "ada" (max 1 (batch.length : ℚ)) now).2 = false := by
  have count : (({ queue := numberFrom 0 (List.replicate 201 sampleOp) } : Outbound Json).takeBatch
      (stringify fun _ => 1).size).length = 201 := by decide +kernel
  refine ⟨_, _, rfl, count, fun admissible => ?_, fun bucket now capacity => ?_⟩
  · have paid := full_bucket_pays.mp admissible.2
    rw [List.length_map, count] at paid
    omega
  · apply TokenBucket.consume_eq_false
    rw [capacity, count]
    decide

end Client

end MetadataGraph
