import Mathlib.Algebra.Group.Nat.Defs
import Mathlib.Data.List.Forall2
import WordMachine.Json.Schema
import WordMachine.Proofs.JsonGrammar

/-!
# Standard readers

What is relied on of a reader of documents of which nothing else is known.  It reads truth
values and numbers the way they are written in JSON.  It reads a record from an array or from
an object, and each field of the record from its part of the text, as if that part were a
document of its own.
-/

namespace WordMachine.Json

/-- None of the keys comes twice among the members. -/
def Once (keys : List String) (members : List Member) : Prop :=
  members.Pairwise fun earlier later => earlier.key ∈ keys → later.key ≠ earlier.key

/-! ## Rows -/

variable {Fault : Type}

/-- The values of a row that elements of an array stand for in their order.  Elements may be
missing at the end. -/
inductive Row.Lists (reader : Reader Fault) :
    {β : Type} → Row β → List (List Char) → β → Prop
  | omitted {β : Type} {row : Row β} : Lists reader row [] row.defaults
  | element {α β : Type} {key : String} {schema : Schema α} {default value : α} {row : Row β}
      {text : List Char} {elements : List (List Char)} {values : β}
      (hread : reader.read schema (.ofList text) = .ok value)
      (hrest : Lists reader row elements values) :
      Lists reader (.cons key schema default row) (text :: elements) (value, values)

/-- The values of a row that members of an object stand for by their keys.  Any of them may
be missing. -/
inductive Row.Collects (reader : Reader Fault) (members : List Member) :
    {β : Type} → Row β → β → Prop
  | nil : Collects reader members .nil ()
  | present {α β : Type} {key : String} {schema : Schema α} {default value : α} {row : Row β}
      {text : List Char} {values : β} (hmember : ⟨key, text⟩ ∈ members)
      (hread : reader.read schema (.ofList text) = .ok value)
      (hrest : Collects reader members row values) :
      Collects reader members (.cons key schema default row) (value, values)
  | absent {α β : Type} {key : String} {schema : Schema α} {default : α} {row : Row β}
      {values : β} (hmember : ∀ member ∈ members, member.key ≠ key)
      (hrest : Collects reader members row values) :
      Collects reader members (.cons key schema default row) (default, values)

/-! ## Readers -/

/-- What any reader does that keeps to the format and to its schemas.  Where records are
nested too deep it may refuse the document. -/
structure Reader.Standard (reader : Reader Fault) : Prop where
  bool {value : Bool} {text : List Char} (htext : Padded (WritesBool value) text) :
    reader.read .bool (.ofList text) = .ok value
  natural {value : Nat} {text : List Char} (hlimit : value < 2 ^ 64)
    (htext : Padded (WritesNatural value) text) : reader.read .natural (.ofList text) = .ok value
  /-- The elements of an array are the fields in their order.  Fields without an element have
  their defaults. -/
  array {α β : Type} {row : Row β} {make : β → α} {values : β} {elements : List (List Char)}
    {text : List Char} (hdepth : (Schema.record row make).depth < 128)
    (hvalues : row.Lists reader elements values) (htext : Padded (Encloses .array elements) text) :
    reader.read (.record row make) (.ofList text) = .ok (make values)
  /-- The members of an object are the fields whose keys they have.  Fields without a member
  have their defaults, and a key of no field is passed over with its value. -/
  object {α β : Type} {row : Row β} {make : β → α} {values : β} {members : List Member}
    {items : List (List Char)} {text : List Char}
    (hdepth : (Schema.record row make).depth < 128) (hkeys : row.keys.Nodup)
    (honce : Once row.keys members)
    (hother : ∀ member ∈ members, member.key ∉ row.keys →
      Padded (WellFormed .value) member.value)
    (hvalues : row.Collects reader members values)
    (hitems : List.Forall₂ WritesMember members items)
    (htext : Padded (Encloses .object items) text) :
    reader.read (.record row make) (.ofList text) = .ok (make values)

end WordMachine.Json
