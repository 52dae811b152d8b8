import WordMachine.Config.Basic
import WordMachine.Json.Read

/-!
# Configuration documents

A configuration is written as a JSON document: a record of two records.  A section that
is left out stands for the default section.  A field that is left out of a section that is
there stands for a default of its own, which is stated apart from that of the section.
-/

namespace WordMachine

namespace GeneralConfig

def unstatedTraceDepth : Nat := Defaults.traceDepth

def row : Json.Row (Bool × Nat × Unit) :=
  .cons "trace_instructions" .bool false <|
  .cons "trace_depth" .natural unstatedTraceDepth .nil

def schema : Json.Schema GeneralConfig :=
  .record row fun (traceInstructions, traceDepth, _) => { traceInstructions, traceDepth }

end GeneralConfig

namespace StageCosts

def unstatedFetch : Nat := Defaults.fetchTicks

def unstatedDecode : Nat := Defaults.decodeTicks

def unstatedExecute : Nat := Defaults.executeTicks

def unstatedMemory : Nat := Defaults.memoryTicks

def row : Json.Row (Nat × Nat × Nat × Nat × Unit) :=
  .cons "fetch_ticks" .natural unstatedFetch <|
  .cons "decode_ticks" .natural unstatedDecode <|
  .cons "execute_ticks" .natural unstatedExecute <|
  .cons "memory_ticks" .natural unstatedMemory .nil

def schema : Json.Schema StageCosts :=
  .record row fun (fetch, decode, execute, memory, _) => { fetch, decode, execute, memory }

end StageCosts

namespace Config

def row : Json.Row (GeneralConfig × StageCosts × Unit) :=
  .cons "general" GeneralConfig.schema {} <|
  .cons "pipeline" StageCosts.schema {} .nil

def schema : Json.Schema Config :=
  .record row fun (general, costs, _) => { general, costs }

/-- The configuration in a document, by any reader of documents. -/
def readWith {Fault : Type} (reader : Json.Reader Fault) (document : String) :
    Except Fault Config :=
  reader.read schema document

/-- The configuration in a document, by the reader of this library. -/
def ofJson (document : String) : Except JsonFault Config := readWith .strict document

end Config

end WordMachine
