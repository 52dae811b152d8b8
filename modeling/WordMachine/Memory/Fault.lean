import WordMachine.Numeral
import WordMachine.Register
import WordMachine.Word

/-!
# Memory faults

The ways in which a program's access to memory can fail.  A fault is an
ordinary event of the machine: an instruction whose operand faults has no
effect, and the program goes on.
-/

namespace WordMachine

inductive MemoryFault where
  /-- The word at this address is not wholly below the limit. -/
  | addressOutOfRange (address limit : Nat)
  /-- Instructions are read from the program image only. -/
  | fetchOutOfRange (pc : Word)
  /-- Instructions stand at even addresses only. -/
  | misalignedFetch (pc : Word)
  /-- The register holds less than the size of a word. -/
  | decrementUnderflow (reg : Register)
deriving DecidableEq, Repr

namespace MemoryFault

def message : MemoryFault → String
  | addressOutOfRange address limit =>
      "word access at " ++ Numeral.address address ++ " is outside the address space (limit " ++
        Numeral.address limit ++ ")"
  | fetchOutOfRange pc =>
      "instruction fetch at " ++ Numeral.address pc.toNat ++ " is outside ROM"
  | misalignedFetch pc =>
      "instruction fetch at " ++ Numeral.address pc.toNat ++ " is not word aligned"
  | decrementUnderflow reg =>
      "auto-decrement of " ++ reg.name ++ " would underflow below zero"

end MemoryFault

end WordMachine
