import WordMachine.Numeral
import WordMachine.Word

/-!
# Traces

A trace keeps the last lines that were put into it, as many as its capacity.
The log of a run is a pair of traces: what each instruction was, and the word
that it was read from.
-/

namespace WordMachine

/-- The last elements of a list. -/
def lastOf {α : Type} (count : Nat) (elements : List α) : List α :=
  elements.drop (elements.length - count)

structure TraceBuffer where
  lines : List String
  capacity : Nat
deriving DecidableEq, Repr

namespace TraceBuffer

def empty (capacity : Nat) : TraceBuffer := ⟨[], capacity⟩

/-- Adds a line.  A buffer that is full loses its oldest line for it, and a buffer of no
capacity takes no line at all. -/
def push (trace : TraceBuffer) (line : String) : TraceBuffer :=
  { trace with
    lines :=
      if trace.capacity = 0 then trace.lines
      else if trace.lines.length = trace.capacity then trace.lines.drop 1 ++ [line]
      else trace.lines ++ [line] }

/-- The newest lines, the oldest of them first. -/
def last (trace : TraceBuffer) (count : Nat) : List String := lastOf count trace.lines

def latest? (trace : TraceBuffer) : Option String := trace.lines.getLast?

def length (trace : TraceBuffer) : Nat := trace.lines.length

def isEmpty (trace : TraceBuffer) : Bool := trace.lines.isEmpty

def clear (trace : TraceBuffer) : TraceBuffer := { trace with lines := [] }

end TraceBuffer

structure TraceLog where
  disassembly : TraceBuffer
  bytes : TraceBuffer
deriving DecidableEq, Repr

namespace TraceLog

def empty (capacity : Nat) : TraceLog := ⟨.empty capacity, .empty capacity⟩

/-- Records an instruction.  Its word is kept as four hexadecimal digits. -/
def push (log : TraceLog) (text : String) (word : Word) : TraceLog :=
  ⟨log.disassembly.push text, log.bytes.push (Numeral.hexWord word.toNat)⟩

def clear (log : TraceLog) : TraceLog := ⟨log.disassembly.clear, log.bytes.clear⟩

end TraceLog

end WordMachine
