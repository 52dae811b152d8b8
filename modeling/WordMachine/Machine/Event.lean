import WordMachine.ConditionCodes
import WordMachine.Memory.Fault
import WordMachine.Memory.Layout

/-!
# Events

What a machine tells those who listen.  An event has a level, perhaps a
message, and named values; the machine does not know who listens, and nothing
depends on it.
-/

namespace WordMachine

inductive Event where
  | imageLoaded (length : Nat)
  | imageReady (length : Nat)
  | machineReset
  | fetchFailed (pc : Word) (fault : MemoryFault)
  | invalidOpcode (pc word : Word)
  | operandUnresolved (pc word : Word) (mnemonic : String) (fault : MemoryFault)
  | executed (pc word : Word) (mnemonic : String)
  /-- An executed instruction in detail: its text, its address, and the condition
  codes and the program counter that it left. -/
  | detailed (text : String) (pc : Word) (codes : ConditionCodes) (next : Word)
deriving DecidableEq, Repr

namespace Event

inductive Level where
  | trace
  | debug
  | warn
deriving DecidableEq, Repr

def Level.name : Level → String
  | trace => "TRACE"
  | debug => "DEBUG"
  | warn => "WARN"

def level : Event → Level
  | imageLoaded _ | imageReady _ | machineReset | fetchFailed _ _ | invalidOpcode _ _ => .debug
  | operandUnresolved _ _ _ _ => .warn
  | executed _ _ _ | detailed _ _ _ _ => .trace

def message? : Event → Option String
  | imageLoaded _ => some "loaded ROM image"
  | imageReady _ => some "program image ready"
  | machineReset => some "cpu reset"
  | fetchFailed _ _ => some "fetch failed"
  | invalidOpcode _ _ => some "invalid opcode"
  | operandUnresolved _ _ _ _ => some "operand unresolved, effect skipped"
  | executed _ _ _ => none
  | detailed text _ _ _ => some text

inductive Value where
  | number (value : Nat)
  | text (value : String)
deriving DecidableEq, Repr

/-- The named values of an event. -/
def values : Event → List (String × Value)
  | imageLoaded length => [("len", .number length), ("base", .number Layout.romBase)]
  | imageReady length => [("len", .number length)]
  | machineReset => []
  | fetchFailed pc fault => [("pc", .number pc.toNat), ("error", .text fault.message)]
  | invalidOpcode pc word => [("pc", .number pc.toNat), ("word", .number word.toNat)]
  | operandUnresolved pc word mnemonic fault => [
      ("pc", .number pc.toNat), ("word", .number word.toNat), ("mnemonic", .text mnemonic),
      ("error", .text fault.message)]
  | executed pc word mnemonic => [
      ("pc", .number pc.toNat), ("word", .number word.toNat), ("mnemonic", .text mnemonic)]
  | detailed _ pc codes next => [
      ("pc", .number pc.toNat), ("psw", .text codes.text), ("next", .number next.toNat)]

end Event

end WordMachine
