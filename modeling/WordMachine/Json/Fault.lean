/-!
# Faults of a document

A JSON document is read from left to right, and the first thing that is wrong
with it decides the fault.
-/

namespace WordMachine

inductive JsonFault where
  /-- The text ended too early. -/
  | truncated
  /-- The text is not JSON. -/
  | malformed
  /-- A value is of the wrong type or out of range, or a key comes twice. -/
  | mistyped
deriving DecidableEq, Repr

namespace Json

/-- What is read from the front of a text, and the rest of the text. -/
abbrev Reading (α : Type) := α × List Char

inductive Bracket where
  | array
  | object
deriving DecidableEq, Repr

/-- White space may stand around every value, key and mark. -/
def isBlank (char : Char) : Bool :=
  char == ' ' || char == '\n' || char == '\t' || char == '\r'

def skipBlank (input : List Char) : List Char := input.dropWhile isBlank

theorem skipBlank_length_le (input : List Char) : (skipBlank input).length ≤ input.length :=
  (List.dropWhile_suffix isBlank).length_le

theorem length_lt_of_skipBlank {input rest : List Char} {char : Char}
    (hskip : skipBlank input = char :: rest) : rest.length < input.length := by
  have hlength := skipBlank_length_le input
  rw [hskip, List.length_cons] at hlength
  omega

/-- Reads the characters that must come next, as in `null`. -/
def literal : List Char → List Char → Except JsonFault (List Char)
  | [], input => .ok input
  | _ :: _, [] => .error .truncated
  | char :: more, next :: rest => if next = char then literal more rest else .error .malformed

theorem literal_length_le {expected input rest : List Char}
    (hread : literal expected input = .ok rest) : rest.length ≤ input.length := by
  induction expected generalizing input with
  | nil =>
      cases hread
      exact Nat.le_refl _
  | cons char more ih =>
      cases input with
      | nil => cases hread
      | cons next tail =>
          rw [literal] at hread
          split at hread
          · exact Nat.le_succ_of_le (ih hread)
          · cases hread

end Json

end WordMachine
