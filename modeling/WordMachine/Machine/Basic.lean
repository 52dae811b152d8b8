import WordMachine.Config.Basic
import WordMachine.Instruction.Standard
import WordMachine.Memory.AddressSpace
import WordMachine.Statistics.Basic
import WordMachine.Timing
import WordMachine.Trace

/-!
# The machine

A machine is an address space for programs to work on, the table that tells it
what words mean, and its accounts of what it did.  A program can neither see
nor change the accounts.
-/

namespace WordMachine

structure Machine where
  space : AddressSpace
  table : Table
  costs : StageCosts
  timer : Timer
  traces : TraceLog
  stats : Statistics
  /-- Whether executed instructions are announced in detail. -/
  tracing : Bool
deriving DecidableEq

namespace Machine

/-- A machine at power-on that reads words by a table of its user's. -/
def withTable (config : Config) (table : Table) : Machine where
  space := .blank
  table := table
  costs := config.costs
  timer := {}
  traces := .empty config.general.traceDepth
  stats := {}
  tracing := config.general.traceInstructions

/-- A machine at power-on that knows the standard instructions. -/
def new (config : Config) : Machine := withTable config .standard

instance : Inhabited Machine := ⟨new {}⟩

def pc (machine : Machine) : Word := machine.space.pc

def setPc (machine : Machine) (value : Word) : Machine :=
  { machine with space := machine.space.setPc value }

def codes (machine : Machine) : ConditionCodes := machine.space.codes

/-- The lines of a state dump: the program counter, and then the registers. -/
def dump (machine : Machine) : List String :=
  ("PC = " ++ Numeral.octalWord machine.pc.toNat) :: machine.space.registers.dump

end Machine

end WordMachine
