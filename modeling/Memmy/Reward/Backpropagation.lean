import Mathlib.Algebra.BigOperators.Ring.List
import Mathlib.Algebra.Order.BigOperators.Group.List
import Mathlib.Algebra.Order.Field.Rat
import Mathlib.Tactic.FieldSimp
import Mathlib.Tactic.Linarith
import Memmy.Lib.Sort
import Memmy.Lib.Text

/-! # Scores of an episode and of its traces

The score of an episode comes from the user's feedback (`heuristicHumanScore`) or from the three axes of a
model answer (`combineRewardAxes`). `backpropagateTraces` distributes it to the traces by their weights.

* `heuristicHumanScore_mem`, `combineRewardAxes_mem`: a score lies between `-1` and `1`.
* `map_traceId_backpropagate`: every trace has one value.
* `sum_backpropagate`: the values sum to the score, or all weights and values are zero. -/

namespace Memmy.Reward

open Lib.Sort Lib.Text List

/-- `clamp(value, min, max)` of a finite number. -/
def clamp (value min max : ℚ) : ℚ := Max.max min (Min.min max value)

theorem clamp_mem {value min max : ℚ} (h : min ≤ max) :
    min ≤ clamp value min max ∧ clamp value min max ≤ max := by
  exact ⟨le_max_left _ _, max_le h (min_le_left _ _)⟩

theorem clamp_of_mem {value min max : ℚ} (hmin : min ≤ value) (hmax : value ≤ max) :
    clamp value min max = value := by
  unfold clamp
  rw [min_eq_right hmax, max_eq_right hmin]

/-! ### The score of an episode -/

inductive Channel where
  | explicit
  | implicit
  deriving DecidableEq

inductive Polarity where
  | positive
  | negative
  | neutral
  deriving DecidableEq

/-- What is read of a feedback. -/
structure Feedback where
  channel : Channel
  polarity : Polarity
  magnitude : Option ℚ

/-- `clamp(Math.abs(item.magnitude ?? 1), 0, 1)` -/
def Feedback.size (item : Feedback) : ℚ := clamp |item.magnitude.getD 1| 0 1

/-- The sum and the weight of the loop of `heuristicHumanScore`. -/
def humanScoreSums (scored : List Feedback) : ℚ × ℚ :=
  scored.foldl
    (fun sums item =>
      if item.polarity = .neutral ∨ item.size = 0 then sums
      else (sums.1 + (if item.polarity = .positive then 1 else -1) * item.size, sums.2 + item.size))
    (0, 0)

/-- `heuristicHumanScore(feedback).rHuman` -/
def heuristicHumanScore (feedback : List Feedback) : ℚ :=
  match feedback with
  | [] => 0
  | first :: _ =>
    let explicitOnes := feedback.filter (·.channel = .explicit)
    let scored := if explicitOnes.length > 0 then explicitOnes else [first]
    let sums := humanScoreSums scored
    if sums.2 = 0 then 0 else clamp (sums.1 / sums.2) (-1) 1

theorem heuristicHumanScore_mem (feedback : List Feedback) :
    -1 ≤ heuristicHumanScore feedback ∧ heuristicHumanScore feedback ≤ 1 := by
  unfold heuristicHumanScore
  split
  · norm_num
  · simp only
    split_ifs
    · norm_num
    · exact clamp_mem (by norm_num)
    · norm_num
    · exact clamp_mem (by norm_num)

/-- The axes of a model answer. -/
structure RewardAxes where
  goalAchievement : ℚ
  processQuality : ℚ
  userSatisfaction : ℚ

def combineRewardAxes (input : RewardAxes) : ℚ :=
  clamp (45 / 100 * clamp input.goalAchievement (-1) 1 + 3 / 10 * clamp input.processQuality (-1) 1 +
    25 / 100 * clamp input.userSatisfaction (-1) 1) (-1) 1

theorem combineRewardAxes_mem (input : RewardAxes) :
    -1 ≤ combineRewardAxes input ∧ combineRewardAxes input ≤ 1 :=
  clamp_mem (by norm_num)

/-! ### The values of its traces -/

/-- `TraceMemoryMeta`: what the reward reads of a trace. -/
structure TraceMeta where
  id : String
  episodeId : Option String
  ts : ℚ
  reflection : Option String
  alpha : ℚ
  userText : String
  agentText : String
  toolCalls : ℕ

structure RewardConfig where
  gamma : ℚ
  lambda : ℚ
  delta : ℚ
  llmScoring : Bool
  valueDistributionRepairEnabled : Bool

def alphaFromTraceReflection (trace : TraceMeta) : ℚ :=
  match trace.reflection.map trim with
  | none | some "" =>
    let alpha := clamp trace.alpha 0 1
    if alpha > 0 then alpha else 1 / 2
  | some reflection =>
    if reflection = "IRRELEVANT" then 0
    else if reflection = "RELATED" ∨ reflection = "RELATED_DEFAULT" then 1 / 2
    else if reflection = "PIVOTAL" then 1
    else clamp trace.alpha 0 1

structure TraceUpdate where
  traceId : String
  value : ℚ
  alpha : ℚ
  deriving DecidableEq

/-- `weights[index]` of the sorted traces. -/
def weightAt (cfg : RewardConfig) (traces : List TraceMeta) (index : ℕ) (trace : TraceMeta) : ℚ :=
  let gamma := clamp cfg.gamma 0 1
  let lambda := clamp cfg.lambda 0 1
  let delta := max 0 cfg.delta
  let alpha := alphaFromTraceReflection trace
  let prevAlpha :=
    if index > 0 then ((traces[index - 1]?).map alphaFromTraceReflection).getD 0 else 0
  let recovery : ℚ := if index > 0 ∧ alpha > 0 ∧ prevAlpha = 0 then 1 else 0
  let positional := (1 - lambda) + lambda * gamma ^ (traces.length - 1 - index)
  let boost := 1 + delta * recovery
  alpha * positional * boost

def weights (cfg : RewardConfig) (traces : List TraceMeta) : List ℚ := traces.mapIdx (weightAt cfg traces)

/-- `updates[index]`, with `traces[index]` and `weights[index]` as a pair. -/
def updateFor (sumW rHuman : ℚ) (p : TraceMeta × ℚ) : TraceUpdate where
  traceId := p.1.id
  value := if sumW > 0 then p.2 / sumW * rHuman else 0
  alpha := alphaFromTraceReflection p.1

def backpropagateTraces (cfg : RewardConfig) (input : List TraceMeta) (rHuman : ℚ) : List TraceUpdate :=
  let traces := sortBy (ascending TraceMeta.ts) input
  (traces.zip (weights cfg traces)).map (updateFor (weights cfg traces).sum (clamp rHuman (-1) 1))

theorem alphaFromTraceReflection_nonneg (trace : TraceMeta) : 0 ≤ alphaFromTraceReflection trace := by
  have hclamp : 0 ≤ clamp trace.alpha 0 1 := (clamp_mem (by norm_num)).1
  unfold alphaFromTraceReflection
  split
  · simp only
    split_ifs <;> linarith
  · simp only
    split_ifs <;> linarith
  · split_ifs <;> linarith

section
variable (cfg : RewardConfig)
include cfg

theorem weightAt_nonneg (traces : List TraceMeta) (index : ℕ) (trace : TraceMeta) :
    0 ≤ weightAt cfg traces index trace := by
  have hgamma : 0 ≤ clamp cfg.gamma 0 1 := (clamp_mem (by norm_num)).1
  have hlambda : 0 ≤ clamp cfg.lambda 0 1 := (clamp_mem (by norm_num)).1
  have hlambda' : clamp cfg.lambda 0 1 ≤ 1 := (clamp_mem (by norm_num)).2
  have hpositional : 0 ≤ (1 - clamp cfg.lambda 0 1) +
      clamp cfg.lambda 0 1 * clamp cfg.gamma 0 1 ^ (traces.length - 1 - index) :=
    add_nonneg (by linarith) (mul_nonneg hlambda (pow_nonneg hgamma _))
  have hboost : ∀ recovery : ℚ, 0 ≤ recovery → 0 ≤ 1 + max 0 cfg.delta * recovery := fun recovery h =>
    add_nonneg zero_le_one (mul_nonneg (le_max_left _ _) h)
  refine mul_nonneg (mul_nonneg (alphaFromTraceReflection_nonneg trace) hpositional) (hboost _ ?_)
  split_ifs <;> norm_num

theorem weights_nonneg (traces : List TraceMeta) : ∀ w ∈ weights cfg traces, 0 ≤ w := by
  intro w hw
  obtain ⟨index, trace, -, rfl⟩ := mem_mapIdx.mp hw
  exact weightAt_nonneg _ _ _ _

theorem length_weights (traces : List TraceMeta) : (weights cfg traces).length = traces.length := length_mapIdx

theorem map_traceId_backpropagate (input : List TraceMeta) (rHuman : ℚ) :
    (backpropagateTraces cfg input rHuman).map (·.traceId) =
      (sortBy (ascending TraceMeta.ts) input).map (·.id) := by
  unfold backpropagateTraces
  simp only [map_map]
  rw [show (fun u => u.traceId) ∘ updateFor _ _ = (fun t : TraceMeta => t.id) ∘ Prod.fst from rfl, ← map_map,
    map_fst_zip (length_weights cfg _).ge]

theorem map_value_backpropagate (input : List TraceMeta) (rHuman : ℚ) :
    (backpropagateTraces cfg input rHuman).map (·.value) =
      (weights cfg (sortBy (ascending TraceMeta.ts) input)).map fun w =>
        if (weights cfg (sortBy (ascending TraceMeta.ts) input)).sum > 0 then
          w / (weights cfg (sortBy (ascending TraceMeta.ts) input)).sum * clamp rHuman (-1) 1
        else 0 := by
  unfold backpropagateTraces
  simp only [map_map]
  generalize hws : weights cfg (sortBy (ascending TraceMeta.ts) input) = ws
  have hlen : ws.length ≤ (sortBy (ascending TraceMeta.ts) input).length := by
    rw [← hws, length_weights]
  conv_rhs => rw [← map_snd_zip hlen, map_map]
  rw [map_snd_zip hlen]
  rfl

end



/-- **The values sum to the score,** or every weight and every value is zero. -/
theorem sum_backpropagate (cfg : RewardConfig) (input : List TraceMeta) {rHuman : ℚ} (hmin : -1 ≤ rHuman)
    (hmax : rHuman ≤ 1) :
    ((backpropagateTraces cfg input rHuman).map (·.value)).sum = rHuman ∨
    ((∀ w ∈ weights cfg (sortBy (ascending TraceMeta.ts) input), w = 0) ∧
      ∀ u ∈ backpropagateTraces cfg input rHuman, u.value = 0) := by
  have hvalues := map_value_backpropagate cfg input rHuman
  have hnonneg := weights_nonneg cfg (sortBy (ascending TraceMeta.ts) input)
  generalize weights cfg (sortBy (ascending TraceMeta.ts) input) = ws at hvalues hnonneg ⊢
  rw [clamp_of_mem hmin hmax] at hvalues
  by_cases hpos : ws.sum > 0
  · left
    have hscaled : (fun w => if ws.sum > 0 then w / ws.sum * rHuman else 0) = fun w => w * (rHuman / ws.sum) := by
      funext w
      rw [if_pos hpos]
      ring
    rw [hvalues, hscaled, sum_map_mul_right, map_id']
    field_simp
  · right
    have hsum : ws.sum = 0 := le_antisymm (not_lt.mp hpos) (sum_nonneg hnonneg)
    refine ⟨fun w hw => all_zero_of_le_zero_le_of_sum_eq_zero hnonneg hsum hw, fun u hu => ?_⟩
    have hmem : u.value ∈ (backpropagateTraces cfg input rHuman).map (·.value) := mem_map.mpr ⟨u, hu, rfl⟩
    rw [hvalues] at hmem
    obtain ⟨w, -, hw⟩ := mem_map.mp hmem
    rw [← hw, if_neg hpos]

end Memmy.Reward
