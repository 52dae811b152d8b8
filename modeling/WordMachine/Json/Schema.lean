/-!
# Schemas

What a document is to be read as: a truth value, a natural number, or a record of named
fields.  Every field has a default that takes its place where the document leaves it out.
The values of all fields of a record are nested in pairs, in the order of the fields.

How documents are read is left open: a reader is anything that takes a schema and a
document.
-/

namespace WordMachine.Json

mutual

/-- What a value in a document is to be read as. -/
inductive Schema : Type → Type 1 where
  | bool : Schema Bool
  /-- A natural number below 2⁶⁴. -/
  | natural : Schema Nat
  /-- A record that is made of the values of its fields. -/
  | record {α β : Type} (row : Row β) (make : β → α) : Schema α

/-- The fields of a record: their keys, schemas and defaults. -/
inductive Row : Type → Type 1 where
  | nil : Row Unit
  | cons {α β : Type} (key : String) (schema : Schema α) (default : α) (rest : Row β) :
      Row (α × β)

end

namespace Row

def keys {β : Type} : Row β → List String
  | nil => []
  | cons key _ _ rest => key :: rest.keys

def defaults {β : Type} : Row β → β
  | nil => ()
  | cons _ _ default rest => (default, rest.defaults)

end Row

mutual

/-- How deep records are nested in a value. -/
def Schema.depth {α : Type} : Schema α → Nat
  | .bool | .natural => 0
  | .record row _ => row.depth + 1

def Row.depth {β : Type} : Row β → Nat
  | .nil => 0
  | .cons _ schema _ rest => max schema.depth rest.depth

end

/-- A way to read documents, and to refuse them with a fault. -/
structure Reader (Fault : Type) where
  read {α : Type} (schema : Schema α) (document : String) : Except Fault α

end WordMachine.Json
