import WordMachine.Binary64
import WordMachine.Numeral
import WordMachine.Statistics.Basic

/-!
# The statistics report

A report has up to four sections, always in the same order, between two rules.
Shares are percentages with two decimals, computed in binary64 arithmetic: the
quotient is rounded, a hundred times the quotient is rounded, and that number
is shown to the nearest hundredth.
-/

namespace WordMachine

/-- A share of a whole as a percentage, and zero of nothing. -/
def percentage (part whole : Nat) : String :=
  let exact :=
    if whole = 0 then .ofNat 0
    else
      Binary64.Ratio.mul (.div (.ofNat part) (.ofNat whole)) (.ofNat 100)
  let hundredths := Binary64.roundHalfEven (exact.num * 100) exact.den
  toString (hundredths / 100) ++ "." ++ Numeral.padded 10 2 (hundredths % 100)

/-- How long the host took.  The machine has no clock of its own, so its user
gives these figures as they are to be shown. -/
structure HostTime where
  seconds : String
  instructionsPerSecond : String

namespace Report

inductive Section where
  | summary
  | instructionMix
  | branch
  | pipeline
deriving DecidableEq, Repr

def Section.name : Section → String
  | summary => "summary"
  | instructionMix => "instruction_mix"
  | branch => "branch"
  | pipeline => "pipeline"

/-- The sections in the order in which a report has them. -/
def sections : List Section := [.summary, .instructionMix, .branch, .pipeline]

def rule : String := "".pushn '=' 58

def thinRule : String := "".pushn '-' 58

/-- A name, filled with blanks to the width of its column, and a blank. -/
def column (width : Nat) (name : String) : String := name.pushn ' ' (width - name.length) ++ " "

/-- A figure of the summary. -/
def figure (name value : String) : String := column 24 name ++ value

/-- A figure of a later section, which is indented. -/
def entry (name : String) (value : Nat) : String := "  " ++ column 22 name ++ toString value

/-- A figure of a later section with its share of a whole. -/
def share (name : String) (value whole : Nat) : String :=
  entry name value ++ " (" ++ percentage value whole ++ "%)"

def sectionLines (stats : Statistics) (time : HostTime) : Section → List String
  | .summary => [
      "PDP-11 EMULATION STATISTICS",
      rule,
      figure "host_seconds" (time.seconds ++ " s"),
      figure "sim_insts" (toString stats.instructions),
      figure "sim_insts_per_sec" time.instructionsPerSecond,
      figure "operand_faults" (toString stats.operandFaults),
      figure "invalid_opcodes" (toString stats.invalidOpcodes),
      thinRule]
  | .instructionMix => [
      "INSTRUCTION MIX",
      share "op.no_operand" stats.noOperand stats.instructions,
      share "op.single" stats.single stats.instructions,
      share "op.double" stats.double stats.instructions,
      share "op.branch" stats.branch stats.instructions,
      thinRule]
  | .branch => [
      "BRANCHES",
      entry "br.executed" stats.branch,
      share "br.taken" stats.branchesTaken stats.branch,
      thinRule]
  | .pipeline => [
      "PIPELINE TIMING",
      entry "ticks.naive" stats.naiveTicks,
      entry "ticks.optimized" stats.optimizedTicks,
      share "ticks.saved" stats.ticksSaved stats.naiveTicks]

/-- The sections that a request names, or all of them for an empty request.
Names of no section are passed over. -/
def requested (request : List String) : List Section :=
  sections.filter fun part => request.isEmpty || request.contains part.name

def lines (stats : Statistics) (time : HostTime) (request : List String) : List String :=
  [rule] ++ (requested request).flatMap (sectionLines stats time) ++ [rule]

end Report

end WordMachine
