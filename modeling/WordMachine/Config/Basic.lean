import WordMachine.Timing

/-!
# Configuration

What the user of a machine can choose: how it traces, and what the stages of its
pipeline cost.  Everything has a default.
-/

namespace WordMachine

/-- How many lines a trace keeps unless something else is chosen. -/
def Defaults.traceDepth : Nat := 1024

structure GeneralConfig where
  /-- Whether every instruction is announced in detail. -/
  traceInstructions : Bool := false
  /-- How many lines each trace keeps. -/
  traceDepth : Nat := Defaults.traceDepth
deriving DecidableEq, Repr, Inhabited

structure Config where
  general : GeneralConfig := {}
  costs : StageCosts := {}
deriving DecidableEq, Repr, Inhabited

end WordMachine
