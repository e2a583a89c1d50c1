import Mathlib.Data.List.Chain
import Mathlib.Tactic.Linarith
import Mathlib.Tactic.Ring
import Mathlib.Algebra.Order.Field.Rat

namespace MetadataGraph.Canvas

/-- A sampled point of a stroke. -/
structure Sample where
  x : ℚ
  y : ℚ
  pressure : Option ℚ := none
  deriving DecidableEq

instance : Inhabited Sample := ⟨{ x := 0, y := 0 }⟩

def decimationPointThreshold : ℕ := 400

def decimationEpsilon : ℚ := 3 / 2

def clampSmoothing (smoothing : ℚ) : ℚ := min 1 (max 0 smoothing)

/-- The square of `distance`. -/
def distanceSq (a b : Sample) : ℚ := (a.x - b.x) * (a.x - b.x) + (a.y - b.y) * (a.y - b.y)

/-- The loop of `dedupePoints`, after a point that was kept. -/
def dedupeAfter (prev : Sample) : List Sample → List Sample
  | [] => []
  | point :: points =>
    if distanceSq prev point > 1 / 100 * (1 / 100) then point :: dedupeAfter point points else dedupeAfter prev points

def dedupePoints : List Sample → List Sample
  | [] => []
  | point :: points => point :: dedupeAfter point points

/-- The square of `perpendicularDistance`. -/
def perpendicularDistanceSq (point lineStart lineEnd : Sample) : ℚ :=
  let dx := lineEnd.x - lineStart.x
  let dy := lineEnd.y - lineStart.y
  let lengthSq := dx * dx + dy * dy
  if lengthSq = 0 then distanceSq point lineStart
  else
    let t := ((point.x - lineStart.x) * dx + (point.y - lineStart.y) * dy) / lengthSq
    distanceSq point { x := lineStart.x + t * dx, y := lineStart.y + t * dy }

/-- The loop of `simplify`, which finds the point farthest from the line. -/
def farthest (lineStart lineEnd : Sample) : ℕ → ℚ × ℕ → List Sample → ℚ × ℕ
  | _, best, [] => best
  | i, best, point :: points =>
    farthest lineStart lineEnd (i + 1)
      (if perpendicularDistanceSq point lineStart lineEnd > best.1 then (perpendicularDistanceSq point lineStart lineEnd, i)
        else best) points

/-- The greatest distance of an inner point, and its index. -/
def split (points : List Sample) : ℚ × ℕ :=
  farthest (points.headD default) (points.getLastD default) 1 (0, 0) points.dropLast.tail

theorem farthest_index {lineStart lineEnd : Sample} {points : List Sample} {i : ℕ} {best : ℚ × ℕ} :
    farthest lineStart lineEnd i best points = best ∨
      i ≤ (farthest lineStart lineEnd i best points).2 ∧
        (farthest lineStart lineEnd i best points).2 < i + points.length := by
  induction points generalizing i best with
  | nil => exact .inl rfl
  | cons point points ih =>
    rw [farthest, List.length_cons]
    split
    · rcases @ih (i + 1) (perpendicularDistanceSq point lineStart lineEnd, i) with same | ⟨lower, upper⟩
      · rw [same]
        exact .inr ⟨le_rfl, by omega⟩
      · exact .inr ⟨by omega, by omega⟩
    · rcases @ih (i + 1) best with same | ⟨lower, upper⟩
      · exact .inl same
      · exact .inr ⟨by omega, by omega⟩

/-- Where a point is off the line, the stroke is split strictly inside. -/
theorem split_inside {points : List Sample} (off : 0 < (split points).1) :
    0 < (split points).2 ∧ (split points).2 + 1 < points.length := by
  rcases @farthest_index (points.headD default) (points.getLastD default) points.dropLast.tail 1 (0, 0) with same | ⟨lower, upper⟩
  · rw [split, same] at off
    exact absurd off (lt_irrefl 0)
  · rw [List.length_tail, List.length_dropLast] at upper
    rw [split]
    exact ⟨by omega, by omega⟩

def simplify (epsilon : ℚ) (points : List Sample) : List Sample :=
  if points.length < 3 ∨ epsilon ≤ 0 then points
  else if _near : (split points).1 ≤ epsilon * epsilon then [points.headD default, points.getLastD default]
  else
    (simplify epsilon (points.take ((split points).2 + 1))).dropLast ++ simplify epsilon (points.drop (split points).2)
  termination_by points.length
  decreasing_by
    all_goals
      have off : 0 < (split points).1 := lt_of_le_of_lt (mul_self_nonneg epsilon) (not_le.mp _near)
      have inside := split_inside off
      simp only [List.length_take, List.length_drop]
      omega

def reduceFreehandPoints (points : List Sample) (smoothing : ℚ) : List Sample :=
  let deduped := dedupePoints points
  if clampSmoothing smoothing ≤ 0 then deduped
  else if deduped.length ≤ decimationPointThreshold then deduped
  else simplify decimationEpsilon deduped

/-- Consecutive pairs. -/
def pairs : List Sample → List (List Sample)
  | a :: b :: points => [a, b] :: pairs (b :: points)
  | _ => []

/-- The stretches of a stroke from each point that `simplify` keeps to the next one. -/
def stretches (epsilon : ℚ) (points : List Sample) : List (List Sample) :=
  if points.length < 3 ∨ epsilon ≤ 0 then pairs points
  else if _near : (split points).1 ≤ epsilon * epsilon then [points]
  else stretches epsilon (points.take ((split points).2 + 1)) ++ stretches epsilon (points.drop (split points).2)
  termination_by points.length
  decreasing_by
    all_goals
      have off : 0 < (split points).1 := lt_of_le_of_lt (mul_self_nonneg epsilon) (not_le.mp _near)
      have inside := split_inside off
      simp only [List.length_take, List.length_drop]
      omega

/-- The stretches of a reduced stroke. -/
def reducedStretches (points : List Sample) (smoothing : ℚ) : List (List Sample) :=
  if clampSmoothing smoothing ≤ 0 then pairs (dedupePoints points)
  else if (dedupePoints points).length ≤ decimationPointThreshold then pairs (dedupePoints points)
  else stretches decimationEpsilon (dedupePoints points)

/-- Stretches that make up a stroke, each from one kept point to the next. -/
inductive Chains : List Sample → List Sample → List (List Sample) → Prop
  | nil : Chains [] [] []
  | single (point : Sample) : Chains [point] [point] []
  | stretch {a b : Sample} {inner rest kept : List Sample} {more : List (List Sample)} :
      Chains (b :: rest) (b :: kept) more →
        Chains (a :: (inner ++ b :: rest)) (a :: b :: kept) ((a :: (inner ++ [b])) :: more)

section Spans

variable {points kept front back : List Sample} {parts parts' : List (List Sample)} {m : Sample}

theorem Chains.pairs : (points : List Sample) → Chains points points (pairs points)
  | [] => .nil
  | [point] => .single point
  | a :: b :: points => @Chains.stretch a b [] points points _ (pairs (b :: points))

theorem Chains.sublist (chains : Chains points kept parts) : kept.Sublist points := by
  induction chains with
  | nil => exact .slnil
  | single point => exact .refl _
  | stretch _ ih => exact (ih.trans (List.sublist_append_right _ _)).cons_cons _

theorem Chains.head (chains : Chains (m :: points) kept parts) : ∃ rest, kept = m :: rest := by
  cases chains with
  | single => exact ⟨[], rfl⟩
  | stretch => exact ⟨_, rfl⟩

theorem Chains.head? (chains : Chains points kept parts) : kept.head? = points.head? := by
  cases chains <;> rfl

theorem Chains.getLast? (chains : Chains points kept parts) : kept.getLast? = points.getLast? := by
  induction chains with
  | nil => rfl
  | single => rfl
  | @stretch a b inner rest kept more _ ih =>
    rw [List.getLast?_cons_cons, ih, ← List.cons_append, List.getLast?_append,
      List.getLast?_eq_some_getLast (List.cons_ne_nil b rest), Option.some_or]

/-- Two halves that meet at a point. -/
theorem Chains.join {whole kept' : List Sample} (first : Chains whole kept parts) (ends : whole = front ++ [m])
    (second : Chains (m :: back) (m :: kept') parts') :
    Chains (front ++ m :: back) (kept.dropLast ++ m :: kept') (parts ++ parts') := by
  induction first generalizing front with
  | nil => exact absurd ends.symm (List.append_ne_nil_of_right_ne_nil _ (List.cons_ne_nil m []))
  | single point =>
    obtain ⟨rfl, same⟩ := List.append_eq_singleton_iff.mp ends.symm |>.resolve_right fun no => by cases no.2
    exact second
  | @stretch a b inner rest kept more later ih =>
    -- The front begins with the first stretch, and the rest of it ends in the meeting point.
    obtain ⟨f, last, split⟩ : ∃ f last, b :: rest = f ++ [last] :=
      ⟨(b :: rest).dropLast, _, (List.dropLast_concat_getLast (List.cons_ne_nil b rest)).symm⟩
    rw [split, ← List.append_assoc, ← List.cons_append] at ends
    obtain ⟨rfl, same⟩ := List.append_inj' ends rfl
    obtain rfl := List.singleton_inj.mp same
    have joined := ih split
    obtain ⟨rest', begins⟩ : ∃ rest', f ++ last :: back = b :: rest' := by
      cases f with
      | nil => exact ⟨back, by rw [(List.cons.inj split).1]; rfl⟩
      | cons c f => exact ⟨f ++ last :: back, by rw [(List.cons.inj split).1]; rfl⟩
    rw [begins] at joined
    obtain ⟨kept'', starts⟩ := joined.head
    rw [starts] at joined
    rw [List.dropLast_cons_of_ne_nil (List.cons_ne_nil b kept), List.cons_append, List.cons_append, List.append_assoc, begins,
      starts]
    exact .stretch joined

/-- Two halves that share a point. -/
theorem Chains.meet {whole last kept' : List Sample} (first : Chains whole kept parts) (ends : whole = front ++ [m])
    (second : Chains last kept' parts') (starts : last = m :: back) :
    Chains (front ++ last) (kept.dropLast ++ kept') (parts ++ parts') := by
  obtain rfl := starts
  obtain ⟨rest, rfl⟩ := second.head
  exact first.join ends second

end Spans

/-- The point of the line through two points that stands at a share of the way. -/
def along (a b : Sample) (t : ℚ) : Sample := { x := a.x + t * (b.x - a.x), y := a.y + t * (b.y - a.y) }

/-- A point of the line through two points is near enough. -/
def NearLine (epsilon : ℚ) (point a b : Sample) : Prop := ∃ t, distanceSq point (along a b t) ≤ epsilon * epsilon

/-- A point of the segment between two points is near enough. -/
def NearSegment (epsilon : ℚ) (point a b : Sample) : Prop :=
  ∃ t, 0 ≤ t ∧ t ≤ 1 ∧ distanceSq point (along a b t) ≤ epsilon * epsilon

theorem le_farthest {lineStart lineEnd : Sample} {points : List Sample} {i : ℕ} {best : ℚ × ℕ} :
    best.1 ≤ (farthest lineStart lineEnd i best points).1 ∧ ∀ point ∈ points,
      perpendicularDistanceSq point lineStart lineEnd ≤ (farthest lineStart lineEnd i best points).1 := by
  induction points generalizing i best with
  | nil => exact ⟨le_rfl, fun point no => by cases no⟩
  | cons point points ih =>
    rw [farthest]
    split
    · rename_i farther
      obtain ⟨lower, rest⟩ := @ih (i + 1) (perpendicularDistanceSq point lineStart lineEnd, i)
      exact ⟨farther.le.trans lower, List.forall_mem_cons.mpr ⟨lower, rest⟩⟩
    · rename_i nearer
      obtain ⟨lower, rest⟩ := @ih (i + 1) best
      exact ⟨lower, List.forall_mem_cons.mpr ⟨(not_lt.mp nearer).trans lower, rest⟩⟩

/-- A stroke of several points between its ends. -/
theorem ends_of_length {points : List Sample} (several : 2 ≤ points.length) :
    points = points.headD default :: (points.dropLast.tail ++ [points.getLastD default]) := by
  cases points with
  | nil => cases several
  | cons a points =>
    rcases List.eq_nil_or_concat points with rfl | ⟨inner, last, rfl⟩
    · exact absurd several (Nat.not_le.mpr (Nat.lt_succ_self 1))
    · rw [List.concat_eq_append, ← List.cons_append, List.dropLast_concat, List.getLastD_concat]
      rfl

/-- What is kept of a stroke are the ends of its stretches. -/
theorem simplify_chains {epsilon : ℚ} (points : List Sample) :
    Chains points (simplify epsilon points) (stretches epsilon points) := by
  induction points using simplify.induct epsilon with
  | case1 points short =>
    rw [simplify, stretches, if_pos short, if_pos short]
    exact .pairs points
  | case2 points long near =>
    rw [simplify, stretches, if_neg long, if_neg long, dif_pos near, dif_pos near]
    have several : 2 ≤ points.length := by
      rw [not_or] at long
      omega
    have ends := ends_of_length several
    have chains := @Chains.stretch (points.headD default) (points.getLastD default) points.dropLast.tail [] [] [] (.single _)
    rwa [← ends] at chains
  | case3 points long far first second =>
    rw [simplify, stretches, if_neg long, if_neg long, dif_neg far, dif_neg far]
    have off : 0 < (split points).1 := lt_of_le_of_lt (mul_self_nonneg epsilon) (not_le.mp far)
    obtain ⟨-, inside⟩ := split_inside off
    have meets : (split points).2 < points.length := by omega
    have back : points.drop (split points).2 = points[(split points).2] :: points.drop ((split points).2 + 1) :=
      List.drop_eq_getElem_cons meets
    have front : points.take ((split points).2 + 1) = points.take (split points).2 ++ [points[(split points).2]] :=
      List.take_succ_eq_append_getElem meets
    have joined := first.meet front second back
    rwa [List.take_append_drop] at joined

theorem reduceFreehandPoints_chains (points : List Sample) (smoothing : ℚ) :
    Chains (dedupePoints points) (reduceFreehandPoints points smoothing) (reducedStretches points smoothing) := by
  rw [reduceFreehandPoints, reducedStretches]
  split
  · exact .pairs _
  · split
    · exact .pairs _
    · exact simplify_chains _

/-! ### Near to the chord -/

/-- How far a point is along the chord, times the square of the chord's length. -/
def progress (point a b : Sample) : ℚ := (point.x - a.x) * (b.x - a.x) + (point.y - a.y) * (b.y - a.y)

/-- A point does not overshoot a chord by more than the tolerance: it stands beside the chord, or near
to an end of it. -/
def Beside (epsilon : ℚ) (point a b : Sample) : Prop :=
  (0 ≤ progress point a b ∧ progress point a b ≤ distanceSq b a) ∨
    distanceSq point a ≤ epsilon * epsilon ∨ distanceSq point b ≤ epsilon * epsilon

theorem distanceSq_along (point a b : Sample) (t : ℚ) :
    distanceSq point (along a b t) = distanceSq point a - 2 * t * progress point a b + t * t * distanceSq b a := by
  rw [distanceSq, distanceSq, distanceSq, along, progress]
  ring

theorem distanceSq_nonneg (a b : Sample) : 0 ≤ distanceSq a b :=
  add_nonneg (mul_self_nonneg _) (mul_self_nonneg _)

theorem distanceSq_start (point a b : Sample) : distanceSq point (along a b 0) = distanceSq point a := by
  rw [distanceSq_along]
  ring

theorem distanceSq_end (point a b : Sample) : distanceSq point (along a b 1) = distanceSq point b := by
  rw [distanceSq_along, progress, distanceSq, distanceSq, distanceSq]
  ring

/-- The foot of a point on a proper chord. -/
theorem perpendicularDistanceSq_eq {point a b : Sample} (proper : distanceSq b a ≠ 0) :
    perpendicularDistanceSq point a b = distanceSq point (along a b (progress point a b / distanceSq b a)) := by
  simp only [perpendicularDistanceSq]
  exact if_neg proper

theorem perpendicularDistanceSq_closed {point a b : Sample} (closed : distanceSq b a = 0) :
    perpendicularDistanceSq point a b = distanceSq point a := by
  simp only [perpendicularDistanceSq]
  exact if_pos closed

/-- Near to the line, a point is near to the chord precisely if it does not overshoot. -/
theorem nearSegment_iff {epsilon : ℚ} {point a b : Sample}
    (near : perpendicularDistanceSq point a b ≤ epsilon * epsilon) :
    NearSegment epsilon point a b ↔ Beside epsilon point a b := by
  have length := distanceSq_nonneg b a
  constructor
  · rintro ⟨t, lower, upper, close⟩
    rw [distanceSq_along] at close
    have shares : 0 ≤ t * t * distanceSq b a := mul_nonneg (mul_self_nonneg t) length
    by_cases before : 0 ≤ progress point a b
    · by_cases beyond : progress point a b ≤ distanceSq b a
      · exact .inl ⟨before, beyond⟩
      · -- Past the end, the end is the nearest point of the chord.
        have farther := distanceSq_end point a b
        rw [distanceSq_along] at farther
        have gain : 0 ≤ (1 - t) * (progress point a b - distanceSq b a) :=
          mul_nonneg (sub_nonneg.mpr upper) (sub_nonneg.mpr (not_le.mp beyond).le)
        have rest : 0 ≤ (1 - t) * (1 - t) * distanceSq b a := mul_nonneg (mul_self_nonneg _) length
        exact .inr (.inr (by linarith))
    · -- Before the start, the start is.
      have gain : 0 ≤ t * -progress point a b := mul_nonneg lower (neg_nonneg.mpr (not_le.mp before).le)
      exact .inr (.inl (by linarith))
  · rintro (⟨lower, upper⟩ | start | last)
    · by_cases closed : distanceSq b a = 0
      · exact ⟨0, le_rfl, zero_le_one, by rwa [distanceSq_start, ← perpendicularDistanceSq_closed closed]⟩
      · rw [perpendicularDistanceSq_eq closed] at near
        exact ⟨_, div_nonneg lower length, div_le_one_of_le₀ upper length, near⟩
    · exact ⟨0, le_rfl, zero_le_one, by rwa [distanceSq_start]⟩
    · exact ⟨1, zero_le_one, le_rfl, by rwa [distanceSq_end]⟩

/-- The points that a stretch leaves out are near to the chord between its ends. -/
def NearChord (epsilon : ℚ) (stretch : List Sample) : Prop :=
  ∀ point ∈ stretch.dropLast.tail, NearSegment epsilon point (stretch.headD default) (stretch.getLastD default)

/-- Wherever a stroke is straight enough for `simplify` to stop at, no point of it overshoots the chord. -/
def NoOvershoot (epsilon : ℚ) (points : List Sample) : Prop :=
  if points.length < 3 ∨ epsilon ≤ 0 then True
  else if _near : (split points).1 ≤ epsilon * epsilon then
    ∀ point ∈ points.dropLast.tail, Beside epsilon point (points.headD default) (points.getLastD default)
  else NoOvershoot epsilon (points.take ((split points).2 + 1)) ∧ NoOvershoot epsilon (points.drop (split points).2)
  termination_by points.length
  decreasing_by
    all_goals
      have off : 0 < (split points).1 := lt_of_le_of_lt (mul_self_nonneg epsilon) (not_le.mp _near)
      have inside := split_inside off
      simp only [List.length_take, List.length_drop]
      omega

theorem pairs_nearChord (epsilon : ℚ) : (points : List Sample) → ∀ stretch ∈ pairs points, NearChord epsilon stretch
  | [] => fun _ member => by cases member
  | [_] => fun _ member => by cases member
  | a :: b :: points => by
    refine List.forall_mem_cons.mpr ⟨fun point member => ?_, pairs_nearChord epsilon (b :: points)⟩
    cases member

theorem stretches_nearChord_iff {epsilon : ℚ} (points : List Sample) :
    (∀ stretch ∈ stretches epsilon points, NearChord epsilon stretch) ↔ NoOvershoot epsilon points := by
  induction points using simplify.induct epsilon with
  | case1 points short =>
    rw [stretches, NoOvershoot, if_pos short, if_pos short, iff_true]
    exact pairs_nearChord epsilon points
  | case2 points long near =>
    rw [stretches, NoOvershoot, if_neg long, if_neg long, dif_pos near, dif_pos near, List.forall_mem_singleton, NearChord]
    exact forall₂_congr fun point member => nearSegment_iff ((le_farthest.2 point member).trans near)
  | case3 points long far first second =>
    rw [stretches, NoOvershoot, if_neg long, if_neg long, dif_neg far, dif_neg far, List.forall_mem_append, first, second]

/-- The condition on a stroke to be reduced. -/
def StaysBeside (points : List Sample) (smoothing : ℚ) : Prop :=
  smoothing ≤ 0 ∨ (dedupePoints points).length ≤ decimationPointThreshold ∨ NoOvershoot decimationEpsilon (dedupePoints points)

theorem clampSmoothing_le (smoothing : ℚ) : clampSmoothing smoothing ≤ 0 ↔ smoothing ≤ 0 := by
  rw [clampSmoothing, min_le_iff, max_le_iff]
  norm_num

theorem reducedStretches_nearChord_iff (points : List Sample) (smoothing : ℚ) :
    (∀ stretch ∈ reducedStretches points smoothing, NearChord decimationEpsilon stretch) ↔ StaysBeside points smoothing := by
  rw [reducedStretches, StaysBeside, ← clampSmoothing_le smoothing]
  split
  · rename_i off
    exact iff_of_true (pairs_nearChord _ _) (.inl off)
  · rename_i on
    split
    · rename_i few
      exact iff_of_true (pairs_nearChord _ _) (.inr (.inl few))
    · rename_i many
      rw [stretches_nearChord_iff, or_iff_right on, or_iff_right many]

theorem dedupeAfter_sublist (prev : Sample) (points : List Sample) : (dedupeAfter prev points).Sublist points := by
  induction points generalizing prev with
  | nil => exact .slnil
  | cons point points ih =>
    rw [dedupeAfter]
    split
    · exact (ih point).cons_cons point
    · exact (ih prev).cons point

/-- A reduced stroke is part of what was drawn and keeps its ends. What it leaves out between two points
is near to the chord of the two precisely where no point overshoots that chord. -/
theorem reduceFreehandPoints_near_iff (points : List Sample) (smoothing : ℚ) :
    (reduceFreehandPoints points smoothing).Sublist (dedupePoints points) ∧
      (reduceFreehandPoints points smoothing).head? = (dedupePoints points).head? ∧
      (reduceFreehandPoints points smoothing).getLast? = (dedupePoints points).getLast? ∧
      Chains (dedupePoints points) (reduceFreehandPoints points smoothing) (reducedStretches points smoothing) ∧
      ((∀ stretch ∈ reducedStretches points smoothing, NearChord decimationEpsilon stretch) ↔ StaysBeside points smoothing) :=
  have chains := reduceFreehandPoints_chains points smoothing
  ⟨chains.sublist, chains.head?, chains.getLast?, chains, reducedStretches_nearChord_iff points smoothing⟩

theorem dedupeAfter_of_isChain {prev : Sample} {points : List Sample}
    (apart : (prev :: points).IsChain fun a b => distanceSq a b > 1 / 100 * (1 / 100)) : dedupeAfter prev points = points := by
  induction points generalizing prev with
  | nil => rfl
  | cons point points ih =>
    obtain ⟨far, rest⟩ := List.isChain_cons_cons.mp apart
    rw [dedupeAfter, if_pos far, ih rest]

theorem farthest_of_le {lineStart lineEnd : Sample} {points : List Sample} {i : ℕ} {best : ℚ × ℕ}
    (near : ∀ point ∈ points, perpendicularDistanceSq point lineStart lineEnd ≤ best.1) :
    farthest lineStart lineEnd i best points = best := by
  induction points generalizing i with
  | nil => rfl
  | cons point points ih =>
    rw [List.forall_mem_cons] at near
    rw [farthest, if_neg (not_lt.mpr near.1), ih near.2]

/-- A point of the axis. -/
def onAxis (i : ℕ) : Sample := { x := i, y := 0 }

/-- A stroke that runs far out and comes back. -/
def backtracking : List Sample := (List.range' 0 401).map onAxis ++ [onAxis 5]

theorem onAxis_isChain (start n : ℕ) :
    ((List.range' start n).map onAxis).IsChain fun a b => distanceSq a b > 1 / 100 * (1 / 100) := by
  induction n generalizing start with
  | zero => exact .nil
  | succ n ih =>
    cases n with
    | zero => exact .singleton _
    | succ n =>
      refine List.isChain_cons_cons.mpr ⟨?_, ih (start + 1)⟩
      simp only [onAxis, distanceSq, Nat.cast_add, Nat.cast_one]
      norm_num

theorem backtracking_eq : backtracking = onAxis 0 :: ((List.range' 1 400).map onAxis ++ [onAxis 5]) := by
  rw [backtracking, List.range'_succ, List.map_cons, List.cons_append]

theorem dedupePoints_backtracking : dedupePoints backtracking = backtracking := by
  have apart : backtracking.IsChain fun a b => distanceSq a b > 1 / 100 * (1 / 100) := by
    refine List.isChain_append.mpr ⟨onAxis_isChain 0 401, .singleton _, fun a last b first => ?_⟩
    rw [List.range'_concat, List.map_append, List.map_singleton, List.getLast?_concat] at last
    obtain rfl := Option.some.inj last
    obtain rfl := Option.some.inj first
    simp only [onAxis, distanceSq]
    norm_num
  rw [backtracking_eq] at apart ⊢
  rw [dedupePoints, dedupeAfter_of_isChain apart]

theorem backtracking_inner : backtracking.dropLast.tail = (List.range' 1 400).map onAxis := by
  rw [backtracking_eq, ← List.cons_append, List.dropLast_concat, List.tail_cons]

theorem backtracking_flat : (split backtracking).1 = 0 := by
  have first : backtracking.headD default = onAxis 0 := rfl
  have last : backtracking.getLastD default = onAxis 5 := List.getLastD_concat
  rw [split, first, last, backtracking_inner, farthest_of_le]
  intro point member
  obtain ⟨i, -, rfl⟩ := List.mem_map.mp member
  have foot : (i : ℚ) * 5 / 25 * 5 = i := by ring
  simp only [perpendicularDistanceSq, distanceSq, onAxis]
  norm_num [foot]

/-- Its far end is left out, and is near to no point of the chord that replaces it. -/
theorem backtracking_loses_its_end :
    Chains (dedupePoints backtracking) (reduceFreehandPoints backtracking 1) (reducedStretches backtracking 1) ∧
      ∃ stretch ∈ reducedStretches backtracking 1, ¬ NearChord decimationEpsilon stretch := by
  have length : backtracking.length = 402 := by
    rw [backtracking, List.length_append, List.length_map, List.length_range']
    rfl
  have whole : reducedStretches backtracking 1 = [backtracking] := by
    have long : ¬ (backtracking.length < 3 ∨ decimationEpsilon ≤ 0) := by
      rw [length, decimationEpsilon]
      norm_num
    have requested : ¬ clampSmoothing 1 ≤ 0 := by
      rw [clampSmoothing_le]
      norm_num
    have many : ¬ backtracking.length ≤ decimationPointThreshold := by
      rw [length]
      decide
    have flat : (split backtracking).1 ≤ decimationEpsilon * decimationEpsilon := by
      rw [backtracking_flat, decimationEpsilon]
      norm_num
    rw [reducedStretches, if_neg requested, dedupePoints_backtracking, if_neg many, stretches, if_neg long, dif_pos flat]
  refine ⟨reduceFreehandPoints_chains _ _, backtracking, by rw [whole]; exact List.mem_singleton_self _, fun near => ?_⟩
  have far : onAxis 400 ∈ backtracking.dropLast.tail := by
    rw [backtracking_inner]
    exact List.mem_map_of_mem (List.mem_range'_1.mpr ⟨by decide, by decide⟩)
  have first : backtracking.headD default = onAxis 0 := rfl
  have last : backtracking.getLastD default = onAxis 5 := List.getLastD_concat
  obtain ⟨t, lower, upper, close⟩ := near _ far
  rw [first, last] at close
  have away : 395 ≤ 400 - t * 5 := by linarith
  have square : (400 - t * 5) * (400 - t * 5) ≤ 9 / 4 := by
    simp only [distanceSq, along, decimationEpsilon, onAxis, Nat.cast_ofNat, Nat.cast_zero] at close
    linarith
  linarith [mul_le_mul away away (by norm_num) (by linarith)]

end MetadataGraph.Canvas
