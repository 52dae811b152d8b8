import Mathlib.Algebra.Ring.Nat
import Mathlib.Data.List.Induction
import WordMachine.Timing

/-!
# What the timer charges

The timer keeps four numbers only, and they are enough to price the whole history of the
steps that it was given: the naive price is the sum of all costs, and the optimized price
is the cost of the first step and, for each step after it, that of the slowest stage in
the whole history.  Where all steps cost the same, the two prices have a closed form, and
they differ whenever two stages have something to overlap.
-/

namespace WordMachine

/-! ## The largest of some costs -/

section Largest

variable {costs : List Nat}

theorem foldl_max_cons (cost : Nat) (costs : List Nat) :
    (cost :: costs).foldl max 0 = max cost (costs.foldl max 0) := by
  rw [List.foldl_cons, Nat.max_comm 0 cost, List.foldl_assoc]

theorem foldl_max_le_sum (costs : List Nat) : costs.foldl max 0 ≤ costs.sum := by
  induction costs with
  | nil => exact Nat.le_refl 0
  | cons cost rest ih =>
      rw [foldl_max_cons, List.sum_cons]
      apply Nat.max_le.mpr
      exact ⟨Nat.le_add_right _ _, Nat.le_trans ih (Nat.le_add_left _ _)⟩

theorem sum_pos_iff_countP_pos (costs : List Nat) :
    0 < costs.sum ↔ 0 < costs.countP (0 < ·) := by
  simp only [List.sum_pos_iff_exists_pos_nat, List.countP_pos_iff, decide_eq_true_eq]

/-- The largest of some costs is all of them together if and only if at most one of them
is there to be paid. -/
theorem foldl_max_eq_sum_iff : costs.foldl max 0 = costs.sum ↔ costs.countP (0 < ·) ≤ 1 := by
  induction costs with
  | nil => simp
  | cons cost rest ih =>
      have hle := foldl_max_le_sum rest
      have hpos := sum_pos_iff_countP_pos rest
      rw [foldl_max_cons, List.sum_cons, List.countP_cons]
      by_cases hcost : 0 < cost
      · -- Beside a cost that counts, no other one may.
        have hfree : max cost (rest.foldl max 0) = cost + rest.sum ↔ rest.sum = 0 := by omega
        rw [hfree, if_pos (decide_eq_true hcost)]
        omega
      · obtain rfl : cost = 0 := by omega
        rw [Nat.zero_max, Nat.zero_add, ih]
        simp

end Largest

/-! ## The costs of a complete step -/

namespace StageCosts

variable (costs : StageCosts)

/-- The costs in the order of the stages. -/
def toList : List Nat := [costs.fetch, costs.decode, costs.execute, costs.memory]

/-- The cost of a step whose stages do not overlap. -/
def total : Nat := costs.toList.sum

/-- The cost of the slowest stage. -/
def slowest : Nat := costs.toList.foldl max 0

theorem slowest_le_total : costs.slowest ≤ costs.total := foldl_max_le_sum _

end StageCosts

namespace StepRecord

/-- What is recorded for a stage again takes the place of what was recorded before. -/
theorem record_record (step : StepRecord) (stage : Stage) (first second : Nat) :
    (step.record stage first).record stage second = step.record stage second :=
  congrArg StepRecord.mk (Vector.set_set ..)

variable (costs : StageCosts)

/-- The record of an instruction that is decoded. -/
def ofDecoding : StepRecord :=
  empty
    |>.record .fetch costs.fetch
    |>.record .decode costs.decode

/-- The record of a complete step. -/
def ofCosts : StepRecord :=
  ofDecoding costs
    |>.record .execute costs.execute
    |>.record .memoryAccess costs.memory

theorem costs_ofCosts : (ofCosts costs).costs = costs.toList := rfl

theorem total_ofCosts : (ofCosts costs).total = costs.total := by
  rw [total, costs_ofCosts, StageCosts.total, List.sum_eq_foldl]

theorem slowest_ofCosts : (ofCosts costs).slowest = costs.slowest := rfl

end StepRecord

/-! ## Histories -/

namespace Timer

/-- The timer after the steps of a history. -/
def ofHistory (history : List StepRecord) : Timer := history.foldl commit {}

theorem ofHistory_concat (history : List StepRecord) (step : StepRecord) :
    ofHistory (history ++ [step]) = (ofHistory history).commit step :=
  List.foldl_append

theorem steps_ofHistory (history : List StepRecord) :
    (ofHistory history).steps = history.length := by
  induction history using List.reverseRecOn with
  | nil => rfl
  | append_singleton history step ih =>
      rw [ofHistory_concat, commit, ih, List.length_append, List.length_singleton]

theorem naive_ofHistory (history : List StepRecord) :
    (ofHistory history).naive = (history.map StepRecord.total).sum := by
  induction history using List.reverseRecOn with
  | nil => rfl
  | append_singleton history step ih =>
      rw [ofHistory_concat, commit, ih, List.map_append, List.sum_append, List.map_singleton,
        List.sum_singleton]

theorem steady_ofHistory (history : List StepRecord) :
    (ofHistory history).steady = (history.map StepRecord.slowest).foldl max 0 := by
  induction history using List.reverseRecOn with
  | nil => rfl
  | append_singleton history step ih =>
      rw [ofHistory_concat, commit, ih, List.map_append, List.map_singleton, List.foldl_append]
      rfl

/-- The first step of a history alone says what filling the pipeline costs. -/
theorem fill_ofHistory_cons (first : StepRecord) (rest : List StepRecord) :
    (ofHistory (first :: rest)).fill = first.total := by
  induction rest using List.reverseRecOn with
  | nil => rfl
  | append_singleton rest step ih =>
      have hsteps : (ofHistory (first :: rest)).steps ≠ 0 := by
        rw [steps_ofHistory]
        exact Nat.succ_ne_zero _
      rw [← List.cons_append, ofHistory_concat, commit, if_neg hsteps, ih]

theorem optimized_ofHistory_cons (first : StepRecord) (rest : List StepRecord) :
    (ofHistory (first :: rest)).optimized =
      first.total + rest.length * ((first :: rest).map StepRecord.slowest).foldl max 0 := by
  have hsteps : (ofHistory (first :: rest)).steps = rest.length + 1 := steps_ofHistory _
  rw [optimized, hsteps, if_neg (Nat.succ_ne_zero _), fill_ofHistory_cons, steady_ofHistory,
    Nat.add_sub_cancel]

/-! ## Steps that cost the same -/

variable (costs : StageCosts) (count : Nat)

/-- The timer after a number of complete steps, all at the same costs. -/
def uniform : Timer := ofHistory (List.replicate count (.ofCosts costs))

theorem uniform_succ : uniform costs (count + 1) = (uniform costs count).commit (.ofCosts costs) := by
  rw [uniform, List.replicate_succ', ofHistory_concat, uniform]

theorem naive_uniform : (uniform costs count).naive = count * costs.total := by
  rw [uniform, naive_ofHistory, List.map_replicate, List.sum_replicate_nat,
    StepRecord.total_ofCosts]

theorem foldl_max_replicate_succ (cost : Nat) :
    (List.replicate (count + 1) cost).foldl max 0 = cost := by
  induction count with
  | zero => exact Nat.zero_max cost
  | succ count ih => rw [List.replicate_succ, foldl_max_cons, ih, Nat.max_self]

theorem optimized_uniform :
    (uniform costs count).optimized =
      if count = 0 then 0 else costs.total + (count - 1) * costs.slowest := by
  cases count with
  | zero => rfl
  | succ count =>
      rw [uniform, List.replicate_succ, optimized_ofHistory_cons, ← List.replicate_succ,
        List.map_replicate, foldl_max_replicate_succ, List.length_replicate,
        StepRecord.total_ofCosts, StepRecord.slowest_ofCosts, if_neg (Nat.succ_ne_zero _),
        Nat.add_sub_cancel]

/-- Overlapping the stages saves, on every step but the first, all but the slowest of
them. -/
theorem optimized_add_saved_uniform :
    (uniform costs count).optimized + (count - 1) * (costs.total - costs.slowest) =
      (uniform costs count).naive := by
  rw [optimized_uniform, naive_uniform]
  cases count with
  | zero => simp
  | succ count =>
      have hslowest := Nat.add_sub_cancel' costs.slowest_le_total
      rw [if_neg (Nat.succ_ne_zero _), Nat.add_sub_cancel]
      calc costs.total + count * costs.slowest + count * (costs.total - costs.slowest)
          = costs.total + count * (costs.slowest + (costs.total - costs.slowest)) := by
            rw [Nat.mul_add, Nat.add_assoc]
        _ = costs.total + count * costs.total := by rw [hslowest]
        _ = (count + 1) * costs.total := by rw [Nat.succ_mul, Nat.add_comm]

/-- The two prices agree if and only if nothing can overlap: there is no second step, or
there are no two stages that cost anything. -/
theorem optimized_eq_naive_uniform_iff :
    (uniform costs count).optimized = (uniform costs count).naive ↔
      count ≤ 1 ∨ costs.toList.countP (0 < ·) ≤ 1 := by
  have hsaved := optimized_add_saved_uniform costs count
  have hslowest := costs.slowest_le_total
  have hone : costs.slowest = costs.total ↔ costs.toList.countP (0 < ·) ≤ 1 :=
    foldl_max_eq_sum_iff
  calc (uniform costs count).optimized = (uniform costs count).naive
      ↔ (count - 1) * (costs.total - costs.slowest) = 0 := by omega
    _ ↔ count - 1 = 0 ∨ costs.total - costs.slowest = 0 := Nat.mul_eq_zero
    _ ↔ count ≤ 1 ∨ costs.slowest = costs.total := by omega
    _ ↔ count ≤ 1 ∨ costs.toList.countP (0 < ·) ≤ 1 := by rw [hone]

end Timer

end WordMachine
