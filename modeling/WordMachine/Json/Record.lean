import WordMachine.Json.Skip

/-!
# Records

A record is a value with named fields, all of which may be left out.  It is
written as an object, with its fields in any order and other keys among them,
or as an array of its fields in their own order, of which the last ones may be
left out.
-/

namespace WordMachine.Json

/-- The fault of a value that is not of the type that is wanted here.  The value
has to be well formed before its type matters; brackets are not looked into. -/
def mismatch (input : List Char) : JsonFault :=
  let unlessFault (skipped : Except JsonFault Unit) : JsonFault :=
    match skipped with
    | .error fault => fault
    | .ok _ => .mistyped
  match input with
  | '[' :: _ | '{' :: _ => .mistyped
  | 'n' :: rest => unlessFault ((literal ['u', 'l', 'l'] rest).map fun _ => ())
  | 't' :: rest => unlessFault ((literal ['r', 'u', 'e'] rest).map fun _ => ())
  | 'f' :: rest => unlessFault ((literal ['a', 'l', 's', 'e'] rest).map fun _ => ())
  | '"' :: rest => unlessFault ((readString rest).map fun _ => ())
  | char :: rest =>
      if char = '-' ∨ char.isDigit then unlessFault ((readNumber (char :: rest)).map fun _ => ())
      else .malformed
  | [] => .truncated

def readBool (input : List Char) : Except JsonFault (Reading Bool) :=
  match skipBlank input with
  | 't' :: rest => (literal ['r', 'u', 'e'] rest).map fun rest => (true, rest)
  | 'f' :: rest => (literal ['a', 'l', 's', 'e'] rest).map fun rest => (false, rest)
  | rest => .error (mismatch rest)

/-- Reads a natural number below 2⁶⁴. -/
def readNatural (input : List Char) : Except JsonFault (Reading Nat) :=
  match skipBlank input with
  | [] => .error .truncated
  | char :: rest =>
      if char = '-' ∨ char.isDigit then
        match readNumber (char :: rest) with
        | .error fault => .error fault
        | .ok (some value, rest) => .ok (value, rest)
        | .ok (none, _) => .error .mistyped
      else .error (mismatch (char :: rest))

/-- A field of a record: its key, and how to read its value into the record.
Reading never comes away without having read something. -/
structure Field (State : Type) where
  key : String
  read : State → List Char → Except JsonFault (Reading State)
  progress : ∀ {before after : State} {input rest : List Char},
    read before input = .ok (after, rest) → rest.length < input.length

/-- Whether an array or object goes on, and what follows. -/
inductive Next where
  | closed (rest : List Char)
  | more (rest : List Char)

@[grind =]
def Next.rest : Next → List Char
  | closed rest | more rest => rest

/-- Reads up to the next element of an array.  There is no comma before the
first element, and one before every other. -/
def nextElement (first : Bool) (input : List Char) : Except JsonFault Next :=
  match skipBlank input with
  | [] => .error .truncated
  | ']' :: rest => .ok (.closed rest)
  | char :: rest =>
      if first then .ok (.more (char :: rest))
      else if char = ',' then
        match skipBlank rest with
        | [] => .error .truncated
        | ']' :: _ => .error .malformed
        | rest => .ok (.more rest)
      else .error .malformed

/-- Reads up to the next key of an object, its opening quote included. -/
def nextKey (first : Bool) (input : List Char) : Except JsonFault Next :=
  match skipBlank input with
  | [] => .error .truncated
  | '}' :: rest => .ok (.closed rest)
  | char :: rest =>
      if first then if char = '"' then .ok (.more rest) else .error .malformed
      else if char = ',' then
        match skipBlank rest with
        | [] => .error .truncated
        | '"' :: rest => .ok (.more rest)
        | _ => .error .malformed
      else .error .malformed

variable {State : Type}

/-- Reads the elements of an array as the fields of a record.  Fields without an
element stay as they are; an element without a field is a fault. -/
def readElements (fields : List (Field State)) (first : Bool) (state : State)
    (input : List Char) : Except JsonFault (Reading State) :=
  match fields with
  | [] =>
      match skipBlank input with
      | ']' :: rest => .ok (state, rest)
      | [] => .error .truncated
      | _ => .error .malformed
  | field :: fields =>
      match nextElement first input with
      | .error fault => .error fault
      | .ok (.closed rest) => .ok (state, rest)
      | .ok (.more rest) =>
          match field.read state rest with
          | .error fault => .error fault
          | .ok (state, rest) => readElements fields false state rest

theorem nextKey_length_lt {first : Bool} {input : List Char} {next : Next}
    (hnext : nextKey first input = .ok next) : next.rest.length < input.length := by
  unfold nextKey at hnext
  split at hnext
  · cases hnext
  · rename_i hskip
    cases hnext
    exact length_lt_of_skipBlank hskip
  · rename_i hskip
    have := length_lt_of_skipBlank hskip
    split at hnext
    · split at hnext
      · cases hnext
        assumption
      · cases hnext
    · split at hnext
      · split at hnext
        · cases hnext
        · rename_i hkey
          have := length_lt_of_skipBlank hkey
          cases hnext
          simp only [Next.rest]
          omega
        · cases hnext
      · cases hnext

/-- Reads the members of an object as the fields of a record.  A key of no field
is passed over with its value.  That a field comes twice is noticed at its
second key. -/
def readMembers (fields : List (Field State)) (seen : List String) (first : Bool)
    (state : State) (input : List Char) : Except JsonFault (Reading State) :=
  match hnext : nextKey first input with
  | .error fault => .error fault
  | .ok (.closed rest) => .ok (state, rest)
  | .ok (.more rest) =>
      have : rest.length < input.length := nextKey_length_lt hnext
      match hkey : readString rest with
      | .error fault => .error fault
      | .ok (key, rest) =>
          have := readString_length_lt hkey
          match fields.find? (·.key.toList == key) with
          | some field =>
              if field.key ∈ seen then .error .mistyped
              else
                match hcolon : readColon rest with
                | .error fault => .error fault
                | .ok rest =>
                    have := readColon_length_lt hcolon
                    match hread : field.read state rest with
                    | .error fault => .error fault
                    | .ok (state, rest) =>
                        have := field.progress hread
                        readMembers fields (field.key :: seen) false state rest
          | none =>
              match hcolon : readColon rest with
              | .error fault => .error fault
              | .ok rest =>
                  have := readColon_length_lt hcolon
                  match hskip : skipValue rest with
                  | .error fault => .error fault
                  | .ok rest =>
                      have := (skip_length_le hskip).1
                      readMembers fields seen false state rest
termination_by input.length
decreasing_by all_goals omega

/-- Reads a record.  Fields that the text leaves out keep the values that they
have in `initial`. -/
def readRecord (fields : List (Field State)) (initial : State) (input : List Char) :
    Except JsonFault (Reading State) :=
  match skipBlank input with
  | '[' :: rest => readElements fields true initial rest
  | '{' :: rest => readMembers fields [] true initial rest
  | rest => .error (mismatch rest)

/-! ## Progress -/

theorem readBool_length_lt {input rest : List Char} {value : Bool}
    (hread : readBool input = .ok (value, rest)) : rest.length < input.length := by
  unfold readBool at hread
  split at hread
  · rename_i tail hskip
    have := length_lt_of_skipBlank hskip
    cases hliteral : literal ['r', 'u', 'e'] tail with
    | error fault => simp [hliteral, Except.map] at hread
    | ok after =>
        simp only [hliteral, Except.map, Except.ok.injEq, Prod.mk.injEq] at hread
        have := literal_length_le hliteral
        obtain ⟨-, rfl⟩ := hread
        omega
  · rename_i tail hskip
    have := length_lt_of_skipBlank hskip
    cases hliteral : literal ['a', 'l', 's', 'e'] tail with
    | error fault => simp [hliteral, Except.map] at hread
    | ok after =>
        simp only [hliteral, Except.map, Except.ok.injEq, Prod.mk.injEq] at hread
        have := literal_length_le hliteral
        obtain ⟨-, rfl⟩ := hread
        omega
  · cases hread

theorem readNatural_length_lt {input rest : List Char} {value : Nat}
    (hread : readNatural input = .ok (value, rest)) : rest.length < input.length := by
  unfold readNatural at hread
  split at hread
  · cases hread
  · rename_i char tail hskip
    have hlength := skipBlank_length_le input
    rw [hskip] at hlength
    split at hread
    · split at hread
      · cases hread
      · rename_i hnumber
        have := readNumber_length_lt hnumber
        cases hread
        omega
      · cases hread
    · cases hread

theorem nextElement_length_le {first : Bool} {input : List Char} {next : Next}
    (hnext : nextElement first input = .ok next) :
    next.rest.length ≤ input.length := by
  have hlength := skipBlank_length_le input
  unfold nextElement at hnext
  split at hnext
  · cases hnext
  · rename_i hskip
    have := length_lt_of_skipBlank hskip
    cases hnext
    exact Nat.le_of_lt this
  · rename_i char tail _ hskip
    rw [hskip] at hlength
    split at hnext
    · cases hnext
      exact hlength
    · split at hnext
      · have htail := skipBlank_length_le tail
        simp only [List.length_cons] at hlength
        split at hnext
        · cases hnext
        · cases hnext
        · cases hnext
          simp only [Next.rest]
          omega
      · cases hnext

theorem readElements_length_le {fields : List (Field State)} {first : Bool}
    {before after : State} {input rest : List Char}
    (hread : readElements fields first before input = .ok (after, rest)) :
    rest.length ≤ input.length := by
  fun_induction readElements fields first before input <;> grind [→ length_lt_of_skipBlank,
    → nextElement_length_le, → Field.progress]

theorem readMembers_length_le {fields : List (Field State)} {seen : List String} {first : Bool}
    {before after : State} {input rest : List Char}
    (hread : readMembers fields seen first before input = .ok (after, rest)) :
    rest.length ≤ input.length := by
  fun_induction readMembers fields seen first before input <;> grind [→ nextKey_length_lt]

theorem readRecord_length_lt {fields : List (Field State)} {before after : State}
    {input rest : List Char} (hread : readRecord fields before input = .ok (after, rest)) :
    rest.length < input.length := by
  unfold readRecord at hread
  split at hread
  · rename_i hskip
    exact Nat.lt_of_le_of_lt (readElements_length_le hread) (length_lt_of_skipBlank hskip)
  · rename_i hskip
    exact Nat.lt_of_le_of_lt (readMembers_length_le hread) (length_lt_of_skipBlank hskip)
  · cases hread

end WordMachine.Json
