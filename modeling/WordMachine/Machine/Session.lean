import WordMachine.Machine.Command
import WordMachine.Statistics.Report

/-!
# Sessions

The user of a machine gives it commands and looks at it, and can put other contents
into its address space and its statistics, which are open.  A session is a list of such
requests.  All that is ever seen of a machine is in the replies to them.
-/

namespace WordMachine

/-- What can be looked at.  Looking changes nothing. -/
inductive View where
  | register (reg : Register)
  | flag (flag : Flag)
  | codes
  /-- The word at an address that may lie outside memory. -/
  | word (address : Word)
  | programEnd
  | video
  /-- A buffer that the start of the video region was copied into. -/
  | videoSnapshot (buffer : List Byte)
  /-- A buffer that the start of the region for programs was copied into. -/
  | romSnapshot (buffer : List Byte)
  | traces
  | lastDisassembly (count : Nat)
  | lastBytes (count : Nat)
  /-- The steps that were timed, and the naive and the optimized price of them. -/
  | ticks
  | statistics
  | ticksSaved
  | report (time : HostTime) (request : List String)
  | dump
  | table
  | tracing

/-- The kind of thing that is seen there. -/
def View.Seen : View → Type
  | register _ => Word
  | flag _ | tracing => Bool
  | codes => ConditionCodes
  | word _ => Except MemoryFault Word
  | programEnd | ticksSaved => Nat
  | video => List Byte
  | videoSnapshot _ | romSnapshot _ => Nat × List Byte
  | traces => TraceLog
  | lastDisassembly _ | lastBytes _ | report _ _ | dump => List String
  | ticks => Nat × Nat × Nat
  | statistics => Statistics
  | table => Table

inductive Request (Reason : Type := ReadFailure) where
  | command (command : Command Reason)
  | look (view : View)
  | changeSpace (change : AddressSpace → AddressSpace)
  | changeStats (change : Statistics → Statistics)

inductive Reply (Reason : Type := ReadFailure) where
  | performed (answer : Answer Reason) (events : List Event)
  | seen (view : View) (seen : view.Seen)
  | changed

namespace Machine

variable {Reason : Type}

def look (machine : Machine) : (view : View) → Checked view.Seen
  | .register reg => return machine.space.register reg
  | .flag flag => return machine.codes.get flag
  | .codes => return machine.codes
  | .word address => machine.space.readWord address
  | .programEnd => return machine.space.programEnd
  | .video => machine.space.video
  | .videoSnapshot buffer => machine.space.videoSnapshot buffer
  | .romSnapshot buffer => machine.space.romSnapshot buffer
  | .traces => return machine.traces
  | .lastDisassembly count => return machine.traces.disassembly.last count
  | .lastBytes count => return machine.traces.bytes.last count
  | .ticks => return (machine.timer.steps, machine.timer.naive, machine.timer.optimized)
  | .statistics => return machine.stats
  | .ticksSaved => return machine.stats.ticksSaved
  | .report time request => return Report.lines machine.stats time request
  | .dump => return machine.dump
  | .table => return machine.table
  | .tracing => return machine.tracing

def grant (machine : Machine) : Request Reason → Checked (Reply Reason × Machine)
  | .command command => do
      let performed ← machine.perform command
      return (.performed performed.answer performed.events, performed.machine)
  | .look view => return (.seen view (← machine.look view), machine)
  | .changeSpace change => return (.changed, machine.withSpace (change machine.space))
  | .changeStats change => return (.changed, { machine with stats := change machine.stats })

/-- Grants requests one after the other, and gives the replies to them and the machine
at the end. -/
def serve (machine : Machine) :
    List (Request Reason) → Checked (List (Reply Reason) × Machine)
  | [] => return ([], machine)
  | request :: rest => do
      let (reply, machine) ← machine.grant request
      let (replies, machine) ← machine.serve rest
      return (reply :: replies, machine)

end Machine

end WordMachine
