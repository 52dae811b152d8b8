import WordMachine.Json.Number
import WordMachine.Json.Quoted

/-!
# Skipping values

A value whose key means nothing only has to be well formed.  Brackets may be
nested to any depth; those that are open are kept in a list.
-/

namespace WordMachine.Json

/-- What has to come next while a value is skipped. -/
inductive Expected where
  /-- A value, after any blanks. -/
  | value
  /-- A key and its value. -/
  | member
  /-- The mark after a value: a comma, or the end of what is open. -/
  | mark
deriving DecidableEq, Repr

/-- What has to come next after a mark, and the brackets that are open then. -/
def Bracket.afterMark? (bracket : Bracket) (outer : List Bracket) (mark : Char) :
    Option (Expected × List Bracket) :=
  match bracket, mark with
  | array, ',' => some (.value, .array :: outer)
  | object, ',' => some (.member, .object :: outer)
  | array, ']' | object, '}' => some (.mark, outer)
  | _, _ => none

/-- Skips the first value of a text that starts with neither a blank nor a
bracket. -/
def skipScalar : List Char → Except JsonFault (List Char)
  | 'n' :: rest => literal ['u', 'l', 'l'] rest
  | 't' :: rest => literal ['r', 'u', 'e'] rest
  | 'f' :: rest => literal ['a', 'l', 's', 'e'] rest
  | '"' :: rest => skipString rest
  | '-' :: rest => skipMagnitude rest
  | rest => skipMagnitude rest

/-- Reads the colon after a key. -/
def readColon (input : List Char) : Except JsonFault (List Char) :=
  match skipBlank input with
  | ':' :: rest => .ok rest
  | [] => .error .truncated
  | _ => .error .malformed

/-- Skips the key of a member and its colon. -/
def skipKey (input : List Char) : Except JsonFault (List Char) :=
  match skipBlank input with
  | '"' :: rest => skipString rest >>= readColon
  | [] => .error .truncated
  | _ => .error .malformed

theorem skipScalar_length_lt {input rest : List Char}
    (hskip : skipScalar input = .ok rest) : rest.length < input.length := by
  unfold skipScalar at hskip
  split at hskip
  · exact Nat.lt_succ_of_le (literal_length_le hskip)
  · exact Nat.lt_succ_of_le (literal_length_le hskip)
  · exact Nat.lt_succ_of_le (literal_length_le hskip)
  · exact Nat.lt_succ_of_lt (skipString_length_lt hskip)
  · exact Nat.lt_succ_of_lt (skipMagnitude_length_lt hskip)
  · exact skipMagnitude_length_lt hskip

theorem readColon_length_lt {input rest : List Char}
    (hread : readColon input = .ok rest) : rest.length < input.length := by
  unfold readColon at hread
  split at hread
  · rename_i tail htail
    cases hread
    exact length_lt_of_skipBlank htail
  · cases hread
  · cases hread

theorem skipKey_length_lt {input rest : List Char}
    (hskip : skipKey input = .ok rest) : rest.length < input.length := by
  unfold skipKey at hskip
  split at hskip
  · rename_i tail htail
    have hlength := length_lt_of_skipBlank htail
    cases hkey : skipString tail with
    | error fault => simp [hkey, bind, Except.bind] at hskip
    | ok after =>
        simp only [hkey, bind, Except.bind] at hskip
        have := skipString_length_lt hkey
        have := readColon_length_lt hskip
        omega
  · cases hskip
  · cases hskip

/-- Skips to the end of the value that is not yet complete. -/
def skip (expected : Expected) (nesting : List Bracket) (input : List Char) :
    Except JsonFault (List Char) :=
  match expected with
  | .value =>
      match hvalue : skipBlank input with
      | [] => .error .truncated
      | '[' :: rest =>
          have := length_lt_of_skipBlank hvalue
          match hclose : skipBlank rest with
          | ']' :: after =>
              have := length_lt_of_skipBlank hclose
              skip .mark nesting after
          | _ => skip .value (.array :: nesting) rest
      | '{' :: rest =>
          have := length_lt_of_skipBlank hvalue
          match hclose : skipBlank rest with
          | '}' :: after =>
              have := length_lt_of_skipBlank hclose
              skip .mark nesting after
          | _ => skip .member (.object :: nesting) rest
      | char :: rest =>
          match hscalar : skipScalar (char :: rest) with
          | .error fault => .error fault
          | .ok after =>
              have := length_lt_of_skipBlank hvalue
              have : after.length < rest.length + 1 := skipScalar_length_lt hscalar
              skip .mark nesting after
  | .member =>
      match hkey : skipKey input with
      | .error fault => .error fault
      | .ok after =>
          have := skipKey_length_lt hkey
          skip .value nesting after
  | .mark =>
      match nesting with
      | [] => .ok input
      | bracket :: outer =>
          match hmark : skipBlank input with
          | [] => .error .truncated
          | char :: rest =>
              have := length_lt_of_skipBlank hmark
              match bracket.afterMark? outer char with
              | some (expected, nesting) => skip expected nesting rest
              | none => .error .malformed
termination_by input.length
decreasing_by all_goals omega

/-- Skips a value. -/
def skipValue (input : List Char) : Except JsonFault (List Char) := skip .value [] input

theorem skip_length_le {expected : Expected} {nesting : List Bracket} {input rest : List Char}
    (hskip : skip expected nesting input = .ok rest) :
    rest.length ≤ input.length ∧ (expected ≠ .mark → rest.length < input.length) := by
  fun_induction skip expected nesting input
  case case1 | case6 | case8 | case11 | case13 => cases hskip
  case case10 =>
    cases hskip
    exact ⟨Nat.le_refl _, fun hmark => absurd rfl hmark⟩
  -- The rest of the text is skipped after some of it was taken.
  all_goals
    rename_i ih
    have hrest := (ih hskip).1
    refine ⟨?_, fun _ => ?_⟩
    all_goals omega

end WordMachine.Json
