import Mathlib.Tactic.Linarith
import Mathlib.Algebra.Order.Field.Rat
import MetadataGraph.Client.Admission

namespace MetadataGraph

/-- One call of `consume`. -/
structure Consumption where
  client : String
  amount : ℚ
  now : ℚ

namespace TokenBucket

variable {b b' : TokenBucket} {client other : String} {amount now t : ℚ}

/-- What a client may spend at a time if nothing is evicted before. -/
def level (b : TokenBucket) (client : String) (now : ℚ) : ℚ :=
  min b.capacity ((b.tokens[client]?.getD b.capacity) + (now - (b.last[client]?.getD now)) * b.refill)

theorem available_eq_level (b : TokenBucket) (client : String) (now : ℚ) :
    b.available client now = (b.swept now).level client now := rfl

/-- `consume` of a bucket that never evicts. -/
def consumeUnswept (b : TokenBucket) (client : String) (amount now : ℚ) : TokenBucket × Bool :=
  let tokens := b.level client now
  let last := b.last.insert client now
  if tokens < amount then ({ b with tokens := b.tokens.insert client tokens, last := last }, false)
  else ({ b with tokens := b.tokens.insert client (tokens - amount), last := last }, true)

theorem consume_eq_unswept (b : TokenBucket) (client : String) (amount now : ℚ) :
    b.consume client amount now = (b.swept now).consumeUnswept client amount now := rfl

/-- The answers to a list of calls, one after the other. -/
def answers (consume : TokenBucket → String → ℚ → ℚ → TokenBucket × Bool) : TokenBucket → List Consumption → List Bool
  | _, [] => []
  | b, c :: cs => (consume b c.client c.amount c.now).2 :: answers consume (consume b c.client c.amount c.now).1 cs

/-- The sum of what was accepted for a client between two times. -/
def accepted (client : String) (t₁ t₂ : ℚ) : TokenBucket → List Consumption → ℚ
  | _, [] => 0
  | b, c :: cs =>
    (if c.client = client ∧ t₁ ≤ c.now ∧ c.now ≤ t₂ ∧ (b.consume c.client c.amount c.now).2 = true then c.amount else 0) +
      accepted client t₁ t₂ (b.consume c.client c.amount c.now).1 cs

/-- The calls come at the clock's times. -/
def Timely : ℚ → List Consumption → Prop
  | _, [] => True
  | t, c :: cs => t ≤ c.now ∧ Timely c.now cs

/-- What holds of a bucket at a time: the budgets are none below zero, and were last touched before. -/
structure Sound (b : TokenBucket) (t : ℚ) : Prop where
  capacity : 0 ≤ b.capacity
  refill : 0 ≤ b.refill
  tokens : ∀ (key : String) x, b.tokens[key]? = some x → 0 ≤ x
  last : ∀ (key : String) x, b.last[key]? = some x → x ≤ t
  paired : ∀ key : String, b.tokens[key]? = none ↔ b.last[key]? = none

/-- A budget that was left alone for so long that it is evicted has filled up before. -/
def FillsUp (b : TokenBucket) : Prop := b.capacity ≤ b.idleTtl * b.refill

theorem Sound.later (sound : b.Sound t) (le : t ≤ now) : b.Sound now :=
  { sound with last := fun key x found => (sound.last key x found).trans le }

theorem getElem?_foldl_erase (keys : List String) (d : Dict ℚ) (key : String) :
    (keys.foldl (fun d key => d.erase key) d)[key]? = if key ∈ keys then none else d[key]? := by
  induction keys generalizing d with
  | nil => simp
  | cons first keys ih =>
    rw [List.foldl_cons, ih, Std.ExtTreeMap.getElem?_erase]
    by_cases here : key = first
    · subst here
      simp
    · simp [here, Ne.symm here, Std.LawfulEqCmp.compare_eq_iff_eq]

/-- Whether the sweep takes a key. -/
def stale (b : TokenBucket) (now : ℚ) (key : String) : Bool := b.last[key]?.any (· < now - b.idleTtl)

theorem mem_stale (b : TokenBucket) (now : ℚ) (key : String) :
    key ∈ b.last.keys.filter (b.stale now) ↔ b.stale now key = true := by
  rw [List.mem_filter, Std.ExtTreeMap.mem_keys]
  refine and_iff_right_of_imp fun old => ?_
  rw [stale] at old
  cases found : b.last[key]? with
  | none =>
    rw [found] at old
    cases old
  | some x => exact Std.ExtTreeMap.mem_iff_isSome_getElem?.mpr (by rw [found, Option.isSome_some])

theorem tokens_evict (b : TokenBucket) (now : ℚ) (key : String) :
    (b.evict now).tokens[key]? = if b.stale now key then none else b.tokens[key]? := by
  have same : (b.evict now).tokens = (b.last.keys.filter (b.stale now)).foldl (fun d key => d.erase key) b.tokens := rfl
  rw [same, getElem?_foldl_erase]
  simp only [mem_stale]

theorem last_evict (b : TokenBucket) (now : ℚ) (key : String) :
    (b.evict now).last[key]? = if b.stale now key then none else b.last[key]? := by
  have same : (b.evict now).last = (b.last.keys.filter (b.stale now)).foldl (fun d key => d.erase key) b.last := rfl
  rw [same, getElem?_foldl_erase]
  simp only [mem_stale]

theorem Sound.evict (sound : b.Sound t) (now : ℚ) : (b.evict now).Sound t where
  capacity := sound.capacity
  refill := sound.refill
  tokens key x found := by
    rw [tokens_evict] at found
    split at found
    · cases found
    · exact sound.tokens key x found
  last key x found := by
    rw [last_evict] at found
    split at found
    · cases found
    · exact sound.last key x found
  paired key := by
    rw [tokens_evict, last_evict]
    split
    · exact iff_of_true rfl rfl
    · exact sound.paired key

theorem Sound.swept (sound : b.Sound t) (now : ℚ) : (b.swept now).Sound t := by
  rw [TokenBucket.swept]
  split
  · exact sound.evict now
  · exact sound

/-- Nobody sees the sweep if budgets fill up before it takes them. -/
theorem level_swept (sound : b.Sound t) (fills : b.FillsUp) {sweep : ℚ} (le : sweep ≤ now)
    (client : String) : (b.swept sweep).level client now = b.level client now := by
  rw [swept]
  split
  swap
  · rfl
  rw [level, level, tokens_evict, last_evict]
  change min b.capacity (_ + (now - _) * b.refill) = _
  split
  swap
  · rfl
  rename_i old
  rw [stale] at old
  cases touched : b.last[client]? with
  | none =>
    rw [touched] at old
    cases old
  | some last =>
    rw [touched, Option.any_some, decide_eq_true_iff] at old
    cases held : b.tokens[client]? with
    | none =>
      rw [(sound.paired client).mp held] at touched
      cases touched
    | some x =>
      have idle : b.idleTtl * b.refill ≤ (now - last) * b.refill :=
        mul_le_mul_of_nonneg_right (by linarith) sound.refill
      have full : b.capacity ≤ x + (now - last) * b.refill := by
        have nonneg := sound.tokens client x held
        have capacity : b.capacity ≤ b.idleTtl * b.refill := fills
        linarith
      rw [Option.getD_none, Option.getD_none, Option.getD_some, Option.getD_some, sub_self, zero_mul, add_zero,
        min_eq_left full]
      exact min_self b.capacity

theorem level_nonneg (sound : b.Sound t) (le : t ≤ now) (client : String) : 0 ≤ b.level client now := by
  rw [level]
  refine le_min sound.capacity ?_
  have held : 0 ≤ b.tokens[client]?.getD b.capacity := by
    cases found : b.tokens[client]? with
    | none => exact sound.capacity
    | some x => exact sound.tokens client x found
  have passed : 0 ≤ now - b.last[client]?.getD now := by
    cases found : b.last[client]? with
    | none =>
      rw [Option.getD_none]
      linarith
    | some x =>
      have before := sound.last client x found
      rw [Option.getD_some]
      linarith
  have grown := mul_nonneg passed sound.refill
  linarith

/-- A budget grows no faster than it is refilled. -/
theorem level_le_add (sound : b.Sound t) (le : t ≤ now) (client : String) :
    b.level client now ≤ b.level client t + (now - t) * b.refill := by
  have more : 0 ≤ (now - t) * b.refill := mul_nonneg (by linarith) sound.refill
  rw [level, level, ← min_add_add_right]
  refine le_min ((min_le_left _ _).trans (by linarith)) ((min_le_right _ _).trans ?_)
  cases found : b.last[client]? with
  | none =>
    rw [Option.getD_none, Option.getD_none]
    linarith
  | some x =>
    rw [Option.getD_some, Option.getD_some]
    linarith [sub_mul now x b.refill, sub_mul t x b.refill, sub_mul now t b.refill]

section Unswept

theorem consumeUnswept_snd : (b.consumeUnswept client amount now).2 = decide (amount ≤ b.level client now) := by
  rw [consumeUnswept]
  split
  · rename_i short
    exact (decide_eq_false (not_le.mpr short)).symm
  · rename_i enough
    exact (decide_eq_true (not_lt.mp enough)).symm

/-- What is left of a budget after a call. -/
def left (b : TokenBucket) (client : String) (amount now : ℚ) : ℚ :=
  if b.level client now < amount then b.level client now else b.level client now - amount

theorem consumeUnswept_fst : (b.consumeUnswept client amount now).1 =
    { b with tokens := b.tokens.insert client (b.left client amount now), last := b.last.insert client now } := by
  rw [consumeUnswept, left]
  split <;> rfl

theorem left_nonneg (sound : b.Sound t) (le : t ≤ now) : 0 ≤ b.left client amount now := by
  have nonneg := level_nonneg sound le client
  rw [left]
  split
  · exact nonneg
  · linarith

theorem level_consumeUnswept (later : ℚ) : (b.consumeUnswept client amount now).1.level other later =
    if client = other then min b.capacity (b.left client amount now + (later - now) * b.refill) else b.level other later := by
  rw [consumeUnswept_fst, level]
  simp only [Std.ExtTreeMap.getElem?_insert, Std.LawfulEqCmp.compare_eq_iff_eq]
  split
  · rfl
  · rfl

theorem Sound.consumeUnswept (sound : b.Sound t) (le : t ≤ now) (client : String) (amount : ℚ) :
    (b.consumeUnswept client amount now).1.Sound now := by
  rw [consumeUnswept_fst]
  refine ⟨sound.capacity, sound.refill, fun key x found => ?_, fun key x found => ?_, fun key => ?_⟩
  · simp only [Std.ExtTreeMap.getElem?_insert, Std.LawfulEqCmp.compare_eq_iff_eq] at found
    split at found
    · rw [← Option.some.inj found]
      exact left_nonneg sound le
    · exact sound.tokens key x found
  · simp only [Std.ExtTreeMap.getElem?_insert, Std.LawfulEqCmp.compare_eq_iff_eq] at found
    split at found
    · exact (Option.some.inj found).symm.le
    · exact (sound.last key x found).trans le
  · simp only [Std.ExtTreeMap.getElem?_insert, Std.LawfulEqCmp.compare_eq_iff_eq]
    split
    · exact iff_of_false (by simp) (by simp)
    · exact sound.paired key

end Unswept

theorem Sound.consume (sound : b.Sound t) (le : t ≤ now) (client : String) (amount : ℚ) :
    (b.consume client amount now).1.Sound now :=
  (sound.swept now).consumeUnswept le client amount

theorem swept_config (b : TokenBucket) (now : ℚ) : (b.swept now).capacity = b.capacity ∧
    (b.swept now).refill = b.refill ∧ (b.swept now).idleTtl = b.idleTtl := by
  rw [swept]
  split <;> exact ⟨rfl, rfl, rfl⟩

theorem FillsUp.consume (fills : b.FillsUp) (client : String) (amount now : ℚ) :
    (b.consume client amount now).1.FillsUp := by
  obtain ⟨capacity, refill, idle⟩ := swept_config b now
  rw [consume_eq_unswept, consumeUnswept_fst, FillsUp]
  change (b.swept now).capacity ≤ (b.swept now).idleTtl * (b.swept now).refill
  rw [capacity, refill, idle]
  exact fills

theorem consume_config (b : TokenBucket) (client : String) (amount now : ℚ) :
    (b.consume client amount now).1.capacity = b.capacity ∧ (b.consume client amount now).1.refill = b.refill := by
  obtain ⟨capacity, refill, -⟩ := swept_config b now
  rw [consume_eq_unswept, consumeUnswept_fst]
  exact ⟨capacity, refill⟩

/-- What a call accepts, with what it leaves, was there. -/
theorem level_consume (sound : b.Sound t) (fills : b.FillsUp) (client : String) (amount : ℚ) {later : ℚ}
    (after : now ≤ later) (other : String) : (b.consume client amount now).1.level other later =
      if client = other then min b.capacity (b.left client amount now + (later - now) * b.refill)
      else b.level other later := by
  obtain ⟨capacity, refill, -⟩ := swept_config b now
  rw [consume_eq_unswept, level_consumeUnswept, capacity, refill, left, level_swept sound fills le_rfl,
    level_swept sound fills after]
  rfl

theorem consume_snd (sound : b.Sound t) (fills : b.FillsUp) :
    (b.consume client amount now).2 = decide (amount ≤ b.level client now) := by
  rw [consume_eq_unswept, consumeUnswept_snd, level_swept sound fills le_rfl]

theorem accepted_late {t₁ t₂ : ℚ} (late : t₂ < t) {cs : List Consumption} (timely : Timely t cs) :
    accepted client t₁ t₂ b cs = 0 := by
  induction cs generalizing b t with
  | nil => rfl
  | cons c cs ih =>
    obtain ⟨le, later⟩ := timely
    have outside : ¬ (c.client = client ∧ t₁ ≤ c.now ∧ c.now ≤ t₂ ∧ (b.consume c.client c.amount c.now).2 = true) :=
      fun counted => absurd counted.2.2.1 (not_le.mpr (late.trans_le le))
    rw [accepted, if_neg outside, zero_add, ih (late.trans_le le) later]

/-- Within an interval that is under way a client is granted what it has and what comes in. -/
theorem accepted_le_level {t₁ t₂ : ℚ} (sound : b.Sound t) (fills : b.FillsUp) (began : t₁ ≤ t) (goesOn : t ≤ t₂)
    {cs : List Consumption} (timely : Timely t cs) :
    accepted client t₁ t₂ b cs ≤ b.level client t + (t₂ - t) * b.refill := by
  induction cs generalizing b t with
  | nil =>
    have held := level_nonneg sound le_rfl client
    have grown : 0 ≤ (t₂ - t) * b.refill := mul_nonneg (by linarith) sound.refill
    rw [accepted]
    linarith
  | cons c cs ih =>
    obtain ⟨le, later⟩ := timely
    have grows := level_le_add sound le client
    by_cases inTime : c.now ≤ t₂
    swap
    · have held := level_nonneg sound le_rfl client
      have grown : 0 ≤ (t₂ - t) * b.refill := mul_nonneg (by linarith) sound.refill
      have outside : ¬ (c.client = client ∧ t₁ ≤ c.now ∧ c.now ≤ t₂ ∧ (b.consume c.client c.amount c.now).2 = true) :=
        fun counted => inTime counted.2.2.1
      rw [accepted, if_neg outside, accepted_late (not_le.mp inTime) later]
      linarith
    have next := @ih (b.consume c.client c.amount c.now).1 c.now (sound.consume le _ _) (fills.consume _ _ _)
      (began.trans le) inTime later
    rw [(b.consume_config c.client c.amount c.now).2, level_consume sound fills c.client c.amount le_rfl client] at next
    have spread : (t₂ - t) * b.refill = (t₂ - c.now) * b.refill + (c.now - t) * b.refill := by rw [← add_mul]; congr 1; linarith
    by_cases same : c.client = client
    · subst same
      have remains : min b.capacity (b.left c.client c.amount c.now + (c.now - c.now) * b.refill) ≤
          b.left c.client c.amount c.now := by
        rw [sub_self, zero_mul, add_zero]
        exact min_le_right _ _
      rw [if_pos rfl] at next
      rw [accepted, consume_snd sound fills]
      rw [left] at remains next
      split
      · rename_i counted
        rw [if_neg (not_lt.mpr (of_decide_eq_true counted.2.2.2))] at remains next
        linarith
      · rename_i refused
        have short : b.level c.client c.now < c.amount := by
          by_contra enough
          exact refused ⟨rfl, began.trans le, inTime, decide_eq_true (not_lt.mp enough)⟩
        rw [if_pos short] at remains next
        linarith
    · rw [if_neg same] at next
      rw [accepted, if_neg fun counted => same counted.1]
      linarith

/-- The bound over any interval. -/
theorem accepted_le {t₁ t₂ : ℚ} (sound : b.Sound t) (fills : b.FillsUp) (le : t₁ ≤ t₂) {cs : List Consumption}
    (timely : Timely t cs) (client : String) : accepted client t₁ t₂ b cs ≤ b.capacity + b.refill * (t₂ - t₁) := by
  have most : 0 ≤ b.refill * (t₂ - t₁) := mul_nonneg sound.refill (by linarith)
  induction cs generalizing b t with
  | nil => exact add_nonneg sound.capacity most
  | cons c cs ih =>
    by_cases began : t₁ ≤ c.now
    · by_cases inTime : c.now ≤ t₂
      · have within : accepted client t₁ t₂ b (c :: cs) ≤ b.level client c.now + (t₂ - c.now) * b.refill :=
          accepted_le_level (sound.later timely.1) fills began inTime (show Timely c.now (c :: cs) from ⟨le_rfl, timely.2⟩)
        have held : b.level client c.now ≤ b.capacity := min_le_left _ _
        have shorter : (t₂ - c.now) * b.refill ≤ b.refill * (t₂ - t₁) := by
          rw [mul_comm]
          exact mul_le_mul_of_nonneg_left (by linarith) sound.refill
        linarith
      · rw [accepted_late (not_le.mp inTime) (show Timely c.now (c :: cs) from ⟨le_rfl, timely.2⟩)]
        exact add_nonneg sound.capacity most
    · obtain ⟨capacity, refill⟩ := b.consume_config c.client c.amount c.now
      have next := @ih (b.consume c.client c.amount c.now).1 c.now (sound.consume timely.1 _ _) (fills.consume _ _ _) timely.2
        (by rw [refill]; exact most)
      rw [capacity, refill] at next
      rw [accepted, if_neg fun counted => began counted.2.1, zero_add]
      exact next

/-- Two buckets that show the same from a time on. -/
structure Alike (b b' : TokenBucket) (t : ℚ) : Prop where
  capacity : b.capacity = b'.capacity
  refill : b.refill = b'.refill
  level : ∀ client now, t ≤ now → b.level client now = b'.level client now

theorem Alike.consume (alike : b.Alike b' t) (sound : b.Sound t) (fills : b.FillsUp) (le : t ≤ now) (client : String)
    (amount : ℚ) : (b.consume client amount now).2 = (b'.consumeUnswept client amount now).2 ∧
      (b.consume client amount now).1.Alike (b'.consumeUnswept client amount now).1 now := by
  have same := alike.level client now le
  refine ⟨by rw [consume_snd sound fills, consumeUnswept_snd, same], ?_, ?_, fun other later after => ?_⟩
  · rw [(b.consume_config client amount now).1, consumeUnswept_fst, alike.capacity]
  · rw [(b.consume_config client amount now).2, consumeUnswept_fst, alike.refill]
  · rw [level_consume sound fills client amount after, level_consumeUnswept, left, left, same, alike.capacity, alike.refill,
      alike.level other later (le.trans after)]

/-- Eviction changes no answer. -/
theorem answers_unswept (alike : b.Alike b' t) (sound : b.Sound t) (fills : b.FillsUp) {cs : List Consumption}
    (timely : Timely t cs) : answers consume b cs = answers consumeUnswept b' cs := by
  induction cs generalizing b b' t with
  | nil => rfl
  | cons c cs ih =>
    obtain ⟨answer, next⟩ := alike.consume sound fills timely.1 c.client c.amount
    rw [answers, answers, answer, ih next (sound.consume timely.1 _ _) (fills.consume _ _ _) timely.2]

/-- A bucket as it is constructed. -/
def init (capacity refill idleTtl sweepInterval : ℚ) : TokenBucket := { capacity, refill, idleTtl, sweepInterval }

theorem init_sound {capacity refill : ℚ} (holds : 0 ≤ capacity) (refills : 0 ≤ refill) (idleTtl sweepInterval t : ℚ) :
    (init capacity refill idleTtl sweepInterval).Sound t where
  capacity := holds
  refill := refills
  tokens key x found := by
    rw [init, Std.ExtTreeMap.getElem?_empty] at found
    cases found
  last key x found := by
    rw [init, Std.ExtTreeMap.getElem?_empty] at found
    cases found
  paired key := iff_of_true Std.ExtTreeMap.getElem?_empty Std.ExtTreeMap.getElem?_empty

/-- Where budgets fill up before they are evicted, a client is granted no more in any interval than
the capacity and what comes in, and eviction changes no answer. -/
theorem throttle_bounded {capacity refill idleTtl : ℚ} (holds : 0 ≤ capacity) (refills : 0 ≤ refill)
    (fills : capacity ≤ idleTtl * refill) (sweepInterval : ℚ) {t : ℚ} {cs : List Consumption} (timely : Timely t cs) :
    (∀ client t₁ t₂, t₁ ≤ t₂ →
      accepted client t₁ t₂ (init capacity refill idleTtl sweepInterval) cs ≤ capacity + refill * (t₂ - t₁)) ∧
    answers consume (init capacity refill idleTtl sweepInterval) cs =
      answers consumeUnswept (init capacity refill idleTtl sweepInterval) cs := by
  have sound := init_sound holds refills idleTtl sweepInterval t
  exact ⟨fun client t₁ t₂ le => accepted_le sound fills le timely client,
    answers_unswept ⟨rfl, rfl, fun _ _ _ => rfl⟩ sound fills timely⟩

theorem throttle_bounded_default : accepted "a" 0 10 (init 200 100 3600 300) [⟨"a", 200, 0⟩, ⟨"a", 1, 0⟩, ⟨"a", 1, 5⟩] ≤
    200 + 100 * (10 - 0) := by
  have timely : Timely 0 [⟨"a", 200, 0⟩, ⟨"a", 1, 0⟩, ⟨"a", 1, 5⟩] := ⟨le_rfl, le_rfl, by norm_num, trivial⟩
  exact (throttle_bounded (by norm_num) (by norm_num) (by norm_num) 300 timely).1 "a" 0 10 (by norm_num)

/-- A budget that is never refilled is full again once it was evicted. -/
theorem evicted_budget_is_full : ∃ capacity refill idleTtl sweepInterval cs, Timely 0 cs ∧ 0 ≤ capacity ∧ 0 ≤ refill ∧
    ¬ accepted "a" 0 3601 (init capacity refill idleTtl sweepInterval) cs ≤ capacity + refill * (3601 - 0) := by
  refine ⟨1, 0, 3600, 300, [⟨"a", 1, 0⟩, ⟨"a", 1, 3601⟩], ⟨le_rfl, by norm_num, trivial⟩, by norm_num, le_rfl, ?_⟩
  decide +kernel

end TokenBucket

end MetadataGraph
