import WordMachine.Breach

/-!
# Pipeline timing

Every instruction passes four stages, and each stage costs a number of ticks.
The timer prices a run twice.  The naive price lets no stage overlap another
and adds up all costs.  The optimized price is that of a pipeline: the first
instruction pays in full, and every later one pays for the slowest stage seen
in the whole run.
-/

namespace WordMachine

inductive Stage where
  | fetch
  | decode
  | execute
  /-- Reading and writing operands in memory.  Writing back has no stage of its
  own. -/
  | memoryAccess
deriving DecidableEq, Repr

namespace Stage

abbrev count : Nat := 4

def all : Vector Stage count := #v[.fetch, .decode, .execute, .memoryAccess]

def index : Stage → Fin count
  | fetch => 0
  | decode => 1
  | execute => 2
  | memoryAccess => 3

/-- The stage with a number; a number of four or more is a breach. -/
def ofIndex (index : Nat) : Checked Stage :=
  if h : index < count then .ok all[index] else .error (.stageIndex index)

def name : Stage → String
  | fetch => "IF"
  | decode => "ID"
  | execute => "EX"
  | memoryAccess => "MEM"

end Stage

namespace Defaults

/-- What a stage costs unless something else is chosen for it. -/
def stageTicks : Nat := 1

def fetchTicks : Nat := stageTicks

def decodeTicks : Nat := stageTicks

def executeTicks : Nat := stageTicks

def memoryTicks : Nat := stageTicks

end Defaults

/-- What each stage costs. -/
structure StageCosts where
  fetch : Nat := Defaults.fetchTicks
  decode : Nat := Defaults.decodeTicks
  execute : Nat := Defaults.executeTicks
  memory : Nat := Defaults.memoryTicks
deriving DecidableEq, Repr, Inhabited

/-- The costs of one step, at most one for each stage. -/
structure StepRecord where
  entries : Vector (Option Nat) Stage.count
deriving DecidableEq, Repr

namespace StepRecord

def empty : StepRecord := ⟨Vector.replicate _ none⟩

def get (step : StepRecord) (stage : Stage) : Option Nat := step.entries[stage.index]

/-- The record in which a stage has a cost, whatever it had before. -/
def record (step : StepRecord) (stage : Stage) (ticks : Nat) : StepRecord :=
  ⟨step.entries.set stage.index (some ticks)⟩

/-- Records a cost, and gives the one that it takes the place of. -/
def exchange (step : StepRecord) (stage : Stage) (ticks : Nat) : Option Nat × StepRecord :=
  (step.get stage, step.record stage ticks)

/-- The costs that were recorded, in the order of the stages. -/
def costs (step : StepRecord) : List Nat := step.entries.toList.filterMap id

def length (step : StepRecord) : Nat := step.costs.length

def isEmpty (step : StepRecord) : Bool := step.length == 0

def total (step : StepRecord) : Nat := step.costs.foldl (· + ·) 0

/-- The cost of the slowest stage, and zero if there is none. -/
def slowest (step : StepRecord) : Nat := step.costs.foldl max 0

end StepRecord

/-- The account of a run. -/
structure Timer where
  steps : Nat := 0
  naive : Nat := 0
  /-- The price of the first step. -/
  fill : Nat := 0
  /-- The slowest stage of all steps. -/
  steady : Nat := 0
deriving DecidableEq, Repr, Inhabited

namespace Timer

def commit (timer : Timer) (step : StepRecord) : Timer where
  steps := timer.steps + 1
  naive := timer.naive + step.total
  fill := if timer.steps = 0 then step.total else timer.fill
  steady := max timer.steady step.slowest

def optimized (timer : Timer) : Nat :=
  if timer.steps = 0 then 0 else timer.fill + (timer.steps - 1) * timer.steady

end Timer

end WordMachine
