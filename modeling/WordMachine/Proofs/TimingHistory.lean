import Mathlib.Algebra.BigOperators.Group.Finset.Basic
import Mathlib.Data.Finset.Lattice.Fold
import Mathlib.Data.Fintype.Defs
import Mathlib.Data.List.Fold
import Mathlib.Order.Lattice.Nat
import WordMachine.Proofs.Posting
import WordMachine.Proofs.Timing

/-!
# Step records and the timer as accounts of their histories

A step record shows, for every stage, the cost that was last recorded for it.  The timer shows
the steps that were committed since it was last reset: how many they are, what they cost one
after the other, and what they cost in a pipeline, where a slow stage prices all the steps
before it anew.
-/

namespace WordMachine

/-! ## Stages -/

namespace Stage

theorem index_injective : Function.Injective index := by
  intro left right heq
  cases left <;> cases right <;> first | rfl | cases heq

instance : Fintype Stage where
  elems := ⟨all.toList, by decide⟩
  complete := by
    intro stage
    cases stage <;> decide

end Stage

/-- A cost that is recorded for a stage. -/
structure Recording where
  stage : Stage
  ticks : Nat

namespace Recording

/-- The cost that was last recorded for a stage. -/
def lastCost? (recordings : List Recording) (stage : Stage) : Option Nat :=
  ((recordings.filter (·.stage = stage)).getLast?).map (·.ticks)

/-- The stages that something was recorded for. -/
def stages (recordings : List Recording) : Finset Stage := (recordings.map (·.stage)).toFinset

theorem lastCost?_concat (recordings : List Recording) (recording : Recording) (stage : Stage) :
    lastCost? (recordings ++ [recording]) stage =
      if recording.stage = stage then some recording.ticks else lastCost? recordings stage := by
  rw [lastCost?, List.filter_append]
  by_cases hstage : recording.stage = stage
  · have hkept : [recording].filter (·.stage = stage) = [recording] := by simp [hstage]
    rw [if_pos hstage, hkept, List.getLast?_concat]
    rfl
  · have hkept : [recording].filter (·.stage = stage) = [] := by simp [hstage]
    rw [if_neg hstage, hkept, List.append_nil]
    rfl

theorem isSome_lastCost? (recordings : List Recording) (stage : Stage) :
    (lastCost? recordings stage).isSome = true ↔ stage ∈ stages recordings := by
  rw [lastCost?, Option.isSome_map, List.getLast?_isSome]
  simp [stages]

end Recording

namespace StepRecord

open Recording (lastCost? stages)

variable (step : StepRecord) (recordings : List Recording)

/-! ## One step -/

theorem get_empty (stage : Stage) : empty.get stage = none := by
  cases stage <;> rfl

theorem get_record (stage other : Stage) (ticks : Nat) :
    (step.record stage ticks).get other =
      if stage = other then some ticks else step.get other := by
  rw [get, record, Fin.getElem_fin, Vector.getElem_set]
  by_cases hstage : stage = other
  · rw [if_pos hstage, if_pos (by rw [hstage])]
  · rw [if_neg hstage, if_neg fun heq => hstage (Stage.index_injective (Fin.ext heq))]
    rfl

/-- The record of a step that has just begun, after costs were recorded one after the other. -/
def ofRecordings (recordings : List Recording) : StepRecord :=
  recordings.foldl (fun step recording => (step.exchange recording.stage recording.ticks).2) empty

theorem ofRecordings_concat (recording : Recording) :
    ofRecordings (recordings ++ [recording]) =
      (ofRecordings recordings).record recording.stage recording.ticks :=
  List.foldl_append

/-- For each stage the cost that was last recorded counts. -/
theorem get_ofRecordings (stage : Stage) :
    (ofRecordings recordings).get stage = lastCost? recordings stage := by
  induction recordings using List.reverseRecOn with
  | nil => exact get_empty stage
  | append_singleton recordings recording ih =>
      rw [ofRecordings_concat, get_record, Recording.lastCost?_concat, ih]

theorem filter_isSome_get :
    Finset.univ.filter (fun stage => ((ofRecordings recordings).get stage).isSome) =
      stages recordings := by
  ext stage
  rw [Finset.mem_filter, get_ofRecordings, Recording.isSome_lastCost?]
  exact and_iff_right (Finset.mem_univ stage)

theorem toList_entries : step.entries.toList = Stage.all.toList.map step.get := by
  rcases step with ⟨⟨⟨entries⟩, hlength⟩⟩
  match entries, hlength with
  | [_, _, _, _], _ => rfl

theorem filterMap_id_eq (found : List (Option Nat)) :
    found.filterMap id = (found.filter (·.isSome)).map (·.getD 0) := by
  induction found with
  | nil => rfl
  | cons cost rest ih =>
      cases cost with
      | none => exact ih
      | some ticks => exact congrArg (ticks :: ·) ih

/-- The costs are those of the stages that have one. -/
theorem coe_costs :
    (step.costs : Multiset Nat) =
      (Finset.univ.filter fun stage => (step.get stage).isSome).val.map
        fun stage => (step.get stage).getD 0 := by
  have hall : (Finset.univ : Finset Stage).val = Stage.all.toList := rfl
  rw [costs, filterMap_id_eq, toList_entries, List.filter_map, List.map_map, Finset.filter_val,
    hall, Multiset.filter_coe, Multiset.map_coe]
  simp only [Bool.decide_eq_true]
  rfl

theorem coe_costs_ofRecordings :
    ((ofRecordings recordings).costs : Multiset Nat) =
      (stages recordings).val.map fun stage => (lastCost? recordings stage).getD 0 := by
  rw [coe_costs, filter_isSome_get]
  simp only [get_ofRecordings]

/-- What a record shows of the costs that were recorded in it. -/
structure Sums (step : StepRecord) (recordings : List Recording) : Prop where
  /-- Whatever is recorded next, the cost that it takes the place of is given. -/
  exchange : ∀ recording : Recording, step.exchange recording.stage recording.ticks =
    (lastCost? recordings recording.stage, ofRecordings (recordings ++ [recording]))
  length : step.length = (stages recordings).card
  total : step.total = ∑ stage ∈ stages recordings, (lastCost? recordings stage).getD 0
  slowest : step.slowest = (stages recordings).sup fun stage => (lastCost? recordings stage).getD 0

theorem sums_ofRecordings : (ofRecordings recordings).Sums recordings where
  exchange := by
    intro recording
    rw [StepRecord.exchange, get_ofRecordings, ofRecordings_concat]
  length := by
    have hlength := congrArg Multiset.card (coe_costs_ofRecordings recordings)
    rwa [Multiset.coe_card, Multiset.card_map] at hlength
  total := by
    have hsum := congrArg Multiset.sum (coe_costs_ofRecordings recordings)
    rw [Multiset.sum_coe] at hsum
    rw [StepRecord.total, ← List.sum_eq_foldl]
    exact hsum
  slowest := by
    have hsup := congrArg Multiset.sup (coe_costs_ofRecordings recordings)
    rw [Multiset.sup_coe] at hsup
    rw [StepRecord.slowest, Finset.sup_def, ← hsup]
    exact List.foldl_eq_foldr

end StepRecord

/-! ## Many steps -/

namespace Timer

variable (timer : Timer) (step : StepRecord)

theorem naive_le_commit : timer.naive ≤ (timer.commit step).naive := Nat.le_add_right _ _

/-- A slow stage makes all steps before it dearer, and no stage makes one cheaper. -/
theorem optimized_le_commit : timer.optimized ≤ (timer.commit step).optimized := by
  by_cases hsteps : timer.steps = 0
  · rw [optimized, if_pos hsteps]
    exact Nat.zero_le _
  · have hfill : (timer.commit step).fill = timer.fill := if_neg hsteps
    have hsteady : timer.steady ≤ (timer.commit step).steady := Nat.le_max_left _ _
    have hmore : (timer.commit step).steps = timer.steps + 1 := rfl
    rw [optimized, if_neg hsteps, optimized, hmore, if_neg (Nat.succ_ne_zero _), hfill]
    apply Nat.add_le_add_left
    exact Nat.mul_le_mul (Nat.sub_le_sub_right (Nat.le_succ _) 1) hsteady

/-- What steps cost in a pipeline: the first of them pays in full, and every other one pays for
the slowest stage of all of them. -/
def pipelined : List StepRecord → Nat
  | [] => 0
  | first :: rest =>
      first.total + rest.length * ((first :: rest).map StepRecord.slowest).max?.getD 0

theorem optimized_ofHistory (history : List StepRecord) :
    (ofHistory history).optimized = pipelined history := by
  cases history with
  | nil => rfl
  | cons first rest => rw [optimized_ofHistory_cons, List.foldl_max, Nat.zero_max, pipelined]

-- The slow stage of the last step prices the second one as well.
example : pipelined [.ofRecordings [⟨.fetch, 1⟩], .ofRecordings [⟨.execute, 2⟩],
    .ofRecordings [⟨.execute, 7⟩, ⟨.fetch, 3⟩, ⟨.execute, 5⟩]] = 1 + 2 * 5 := by decide

/-- The timer after steps were committed and it was reset at times. -/
def posted (postings : List (Posting StepRecord)) : Timer :=
  Posting.posted commit (fun _ => {}) {} postings

theorem posted_eq_ofHistory (postings : List (Posting StepRecord)) :
    posted postings = ofHistory (Posting.sinceClear postings) := by
  refine Posting.keeps_sinceClear (fun timer history => timer = ofHistory history) ?_ ?_ rfl postings
  · rintro timer history step rfl
    rw [ofHistory_concat]
  · exact fun _ _ _ => rfl

/-- What the timer shows of the steps in a history. -/
structure Prices (timer : Timer) (history : List StepRecord) : Prop where
  steps : timer.steps = history.length
  naive : timer.naive = (history.map StepRecord.total).sum
  optimized : timer.optimized = pipelined history
  /-- No further step makes the history cheaper. -/
  grows : ∀ step, timer.naive ≤ (timer.commit step).naive ∧
    timer.optimized ≤ (timer.commit step).optimized

end Timer

/-- Whatever was recorded in it, a step record shows for each stage the last cost that was
recorded there.  Whatever was committed to it, the timer shows the steps since it was last
reset and the two prices of them. -/
theorem Timer.records_and_prices (recordings : List Recording)
    (postings : List (Posting StepRecord)) :
    (StepRecord.ofRecordings recordings).Sums recordings ∧
      (Timer.posted postings).Prices (Posting.sinceClear postings) := by
  constructor
  · exact StepRecord.sums_ofRecordings recordings
  · rw [posted_eq_ofHistory]
    exact {
      steps := steps_ofHistory _
      naive := naive_ofHistory _
      optimized := optimized_ofHistory _
      grows := fun step => ⟨naive_le_commit _ step, optimized_le_commit _ step⟩ }

end WordMachine
