import WordMachine.Json.Record
import WordMachine.Json.Schema

/-!
# Reading by a schema

A schema makes a parser.  The parser of a record has one field for every field of the
schema, and starts from the defaults of all of them.
-/

namespace WordMachine.Json

variable {α β : Type}

/-- Reads a value from the front of a text.  It never comes away without having read
something. -/
structure Parser (α : Type) where
  read : List Char → Except JsonFault (Reading α)
  progress : ∀ {input rest : List Char} {value : α},
    read input = .ok (value, rest) → rest.length < input.length

theorem length_lt_of_map (put : α → β) {found : Except JsonFault (Reading α)}
    {input rest : List Char} {value : β}
    (hprogress : ∀ {value rest}, found = .ok (value, rest) → rest.length < input.length)
    (hread : found.map (fun reading => (put reading.1, reading.2)) = .ok (value, rest)) :
    rest.length < input.length := by
  cases found with
  | error fault => cases hread
  | ok reading =>
      cases hread
      exact hprogress rfl

namespace Field

/-- The first field of a record. -/
def first (key : String) (parser : Parser α) : Field (α × β) where
  key := key
  read state input := (parser.read input).map fun reading => ((reading.1, state.2), reading.2)
  progress {before _ _ _} hread := length_lt_of_map (·, before.2) parser.progress hread

/-- A field of the rest of a record. -/
def second (field : Field β) : Field (α × β) where
  key := field.key
  read state input :=
    (field.read state.2 input).map fun reading => ((state.1, reading.1), reading.2)
  progress {before _ _ _} hread := length_lt_of_map (before.1, ·) field.progress hread

end Field

mutual

def Schema.parser {α : Type} : Schema α → Parser α
  | .bool => ⟨readBool, readBool_length_lt⟩
  | .natural => ⟨readNatural, readNatural_length_lt⟩
  | .record row make => {
      read := fun input =>
        (readRecord row.fields row.defaults input).map fun reading =>
          (make reading.1, reading.2)
      progress := fun hread => length_lt_of_map make readRecord_length_lt hread }

def Row.fields {β : Type} : Row β → List (Field β)
  | .nil => []
  | .cons key schema _ rest => .first key schema.parser :: rest.fields.map .second

end

/-- Reads a whole document.  Only blanks may follow the value in it. -/
def Reader.strict : Reader JsonFault where
  read schema document :=
    match schema.parser.read document.toList with
    | .error fault => .error fault
    | .ok (value, rest) => if (skipBlank rest).isEmpty then .ok value else .error .malformed

end WordMachine.Json
