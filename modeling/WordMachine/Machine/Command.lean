import WordMachine.Machine.Step

/-!
# Commands

Everything that the user of a machine can do to it.  A command has an answer; a
command that fails leaves the machine as its failure says, and the next one can
follow.
-/

namespace WordMachine

namespace Machine

variable {Reason : Type}

/-- Places a program image in memory.  The program counter stays where it is. -/
def load (machine : Machine) (image : List Byte) (Reason : Type := ReadFailure) :
    Checked (Except (LoadFault Reason) Unit × Machine × List Event) := do
  match ← machine.space.loadImage image Reason with
  | .error fault => return (.error fault, machine, [])
  | .ok space => return (.ok (), { machine with space := space }, [.imageLoaded image.length])

/-- The contents of a file, as far as the file system gave them. -/
structure ImageFile (Reason : Type := ReadFailure) where
  path : String
  contents : Except Reason (List Byte)

def ImageFile.read (file : ImageFile Reason) : Except (LoadFault Reason) (List Byte) :=
  file.contents.mapError (LoadFault.unreadable file.path)

/-- Loads the image in a file, and sets the program counter to its start. -/
def loadFile (machine : Machine) (file : ImageFile Reason) :
    Checked (Except (LoadFault Reason) Unit × Machine × List Event) := do
  match file.read with
  | .error fault => return (.error fault, machine, [])
  | .ok image =>
      match ← machine.load image Reason with
      | (.ok (), machine, events) =>
          return (.ok (), machine.setPc (.ofNat 16 Layout.romBase),
            events ++ [.imageReady image.length])
      | failed => return failed

/-- Returns to power-on.  The table, the costs of the stages, the capacity of
the traces and the choice of detail stay. -/
def reset (machine : Machine) : Machine :=
  { machine with
    space := .blank
    timer := {}
    traces := machine.traces.clear
    stats := {} }

end Machine

inductive Command (Reason : Type := ReadFailure) where
  | step
  | load (image : List Byte)
  | loadFile (file : Machine.ImageFile Reason)
  | reset
  | setRegister (reg : Register) (value : Word)
  | setFlag (flag : Flag) (value : Bool)
  | setTracing (value : Bool)
  | storeWord (address value : Word)
  | nextWord
  | resolve (reg : Register) (mode : AddressingMode)
  | resetRegisters
  | clearVideo

inductive Answer (Reason : Type := ReadFailure) where
  | done
  | stepped (outcome : Except StepFault StepOutcome)
  | loaded (outcome : Except (LoadFault Reason) Unit)
  | stored (outcome : Except MemoryFault Unit)
  | word (outcome : Except MemoryFault Word)
  | location (outcome : Except MemoryFault Location)

/-- What came of a command. -/
structure Performed (Reason : Type := ReadFailure) where
  answer : Answer Reason
  machine : Machine
  events : List Event := []

namespace Machine

variable {Reason : Type}

/-- The machine with another address space. -/
def withSpace (machine : Machine) (space : AddressSpace) : Machine :=
  { machine with space := space }

def perform (machine : Machine) (command : Command Reason) : Checked (Performed Reason) :=
  match command with
  | .step => do
      let ⟨outcome, machine, events⟩ ← machine.step
      return ⟨.stepped outcome, machine, events⟩
  | .load image => do
      let (outcome, machine, events) ← machine.load image Reason
      return ⟨.loaded outcome, machine, events⟩
  | .loadFile file => do
      let (outcome, machine, events) ← machine.loadFile file
      return ⟨.loaded outcome, machine, events⟩
  | .reset => return ⟨.done, machine.reset, [.machineReset]⟩
  | .setRegister reg value =>
      return ⟨.done, machine.withSpace (machine.space.setRegister reg value), []⟩
  | .setFlag flag value => return ⟨.done, machine.withSpace (machine.space.setFlag flag value), []⟩
  | .setTracing value => return ⟨.done, { machine with tracing := value }, []⟩
  | .storeWord address value =>
      match WordAddress.ofWord address with
      | .error fault => return ⟨.stored (.error fault), machine, []⟩
      | .ok address => do
          return ⟨.stored (.ok ()), machine.withSpace (← machine.space.storeWord address value), []⟩
  | .nextWord => do
      let (word, space) ← machine.space.nextWord
      return ⟨.word word, machine.withSpace space, []⟩
  | .resolve reg mode => do
      let (location, space) ← machine.space.resolve reg mode
      return ⟨.location location, machine.withSpace space, []⟩
  | .resetRegisters => return ⟨.done, machine.withSpace machine.space.resetRegisters, []⟩
  | .clearVideo => do return ⟨.done, machine.withSpace (← machine.space.clearVideo), []⟩

/-- Performs commands one after the other, and gives their answers and the
machine at the end. -/
def run (machine : Machine) :
    List (Command Reason) → Checked (List (Answer Reason) × Machine)
  | [] => return ([], machine)
  | command :: rest => do
      let performed ← machine.perform command
      let (answers, machine) ← performed.machine.run rest
      return (performed.answer :: answers, machine)

end Machine

end WordMachine
