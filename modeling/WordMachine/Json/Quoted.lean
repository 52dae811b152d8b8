import WordMachine.Json.Fault

/-!
# Quoted text

A string stands between quotes.  Inside it a backslash starts an escape, and
control characters are not allowed.  An escape of the form `\uXXXX` is a
sixteen-bit unit; two of them can make up one character, and a unit of such a
pair must not stand alone.

A string whose text does not matter is only skipped.  Then the pairing of units
does not matter either.
-/

namespace WordMachine.Json

/-- The character that a backslash and a letter stand for. -/
def shortEscape? : Char → Option Char
  | '"' => some '"'
  | '\\' => some '\\'
  | '/' => some '/'
  | 'b' => some '\x08'
  | 'f' => some '\x0c'
  | 'n' => some '\n'
  | 'r' => some '\r'
  | 't' => some '\t'
  | _ => none

def hexValue? (char : Char) : Option Nat :=
  if '0' ≤ char ∧ char ≤ '9' then some (char.toNat - '0'.toNat)
  else if 'a' ≤ char ∧ char ≤ 'f' then some (char.toNat - 'a'.toNat + 10)
  else if 'A' ≤ char ∧ char ≤ 'F' then some (char.toNat - 'A'.toNat + 10)
  else none

/-- The number of bytes that a text takes up. -/
def encodedSize (text : List Char) : Nat := text.foldl (fun size char => size + char.utf8Size) 0

/-- Reads the four digits of a unit.  The text counts as ended when fewer than
four bytes of it are left, whatever they are. -/
def readUnit : List Char → Except JsonFault (Reading Nat)
  | a :: b :: c :: d :: rest =>
      match hexValue? a, hexValue? b, hexValue? c, hexValue? d with
      | some a, some b, some c, some d => .ok (((a * 16 + b) * 16 + c) * 16 + d, rest)
      | _, _, _, _ => .error .malformed
  | short => if encodedSize short < 4 then .error .truncated else .error .malformed

/-- Units that come first in a pair. -/
def isLeading (unit : Nat) : Bool := 0xD800 ≤ unit && unit ≤ 0xDBFF

/-- Units that come second in a pair. -/
def isTrailing (unit : Nat) : Bool := 0xDC00 ≤ unit && unit ≤ 0xDFFF

/-- The character of a pair of units. -/
def pairValue (leading trailing : Nat) : Char :=
  .ofNat (0x10000 + (leading - 0xD800) * 0x400 + (trailing - 0xDC00))

/-- Reads the unit that completes a pair. -/
def readTrailing (leading : Nat) : List Char → Except JsonFault (Reading Char)
  | [] | ['\\'] => .error .truncated
  | '\\' :: 'u' :: rest => do
      let (unit, rest) ← readUnit rest
      if isTrailing unit then .ok (pairValue leading unit, rest) else .error .malformed
  | _ => .error .malformed

/-- Reads an escape after its backslash. -/
def readEscape : List Char → Except JsonFault (Reading Char)
  | [] => .error .truncated
  | 'u' :: rest => do
      let (unit, rest) ← readUnit rest
      if isTrailing unit then .error .malformed
      else if isLeading unit then readTrailing unit rest
      else .ok (.ofNat unit, rest)
  | char :: rest =>
      match shortEscape? char with
      | some value => .ok (value, rest)
      | none => .error .malformed

/-- Skips an escape after its backslash. -/
def skipEscape : List Char → Except JsonFault (List Char)
  | [] => .error .truncated
  | 'u' :: rest => do
      let (_, rest) ← readUnit rest
      .ok rest
  | char :: rest => if (shortEscape? char).isSome then .ok rest else .error .malformed

/-! ## Progress -/

theorem readUnit_length_lt {input rest : List Char} {unit : Nat}
    (hread : readUnit input = .ok (unit, rest)) : rest.length < input.length := by
  unfold readUnit at hread
  split at hread
  · split at hread
    · cases hread
      simp only [List.length_cons]
      omega
    · cases hread
  · split at hread <;> cases hread

theorem readTrailing_length_lt {leading : Nat} {input rest : List Char} {char : Char}
    (hread : readTrailing leading input = .ok (char, rest)) : rest.length < input.length := by
  unfold readTrailing at hread
  split at hread
  · cases hread
  · cases hread
  · rename_i tail
    cases hunit : readUnit tail with
    | error fault => simp [hunit, bind, Except.bind] at hread
    | ok found =>
        obtain ⟨unit, after⟩ := found
        simp only [hunit, bind, Except.bind] at hread
        have hlength := readUnit_length_lt hunit
        split at hread
        · simp only [Except.ok.injEq, Prod.mk.injEq] at hread
          obtain ⟨-, rfl⟩ := hread
          simp only [List.length_cons]
          omega
        · cases hread
  · cases hread

theorem readEscape_length_lt {input rest : List Char} {char : Char}
    (hread : readEscape input = .ok (char, rest)) : rest.length < input.length := by
  unfold readEscape at hread
  split at hread
  · cases hread
  · rename_i tail
    cases hunit : readUnit tail with
    | error fault => simp [hunit, bind, Except.bind] at hread
    | ok found =>
        obtain ⟨unit, after⟩ := found
        simp only [hunit, bind, Except.bind] at hread
        have hlength := readUnit_length_lt hunit
        simp only [List.length_cons]
        split at hread
        · cases hread
        · split at hread
          · have := readTrailing_length_lt hread
            omega
          · cases hread
            omega
  · split at hread
    · cases hread
      simp
    · cases hread

theorem skipEscape_length_lt {input rest : List Char}
    (hskip : skipEscape input = .ok rest) : rest.length < input.length := by
  unfold skipEscape at hskip
  split at hskip
  · cases hskip
  · rename_i tail
    cases hunit : readUnit tail with
    | error fault => simp [hunit, bind, Except.bind] at hskip
    | ok found =>
        obtain ⟨unit, after⟩ := found
        simp only [hunit, bind, Except.bind, Except.ok.injEq] at hskip
        subst hskip
        have hlength := readUnit_length_lt hunit
        simp only [List.length_cons]
        omega
  · split at hskip
    · cases hskip
      simp
    · cases hskip

/-! ## Strings -/

/-- Reads a string after its opening quote. -/
def readString (input : List Char) : Except JsonFault (Reading (List Char)) :=
  match input with
  | [] => .error .truncated
  | '"' :: rest => .ok ([], rest)
  | '\\' :: rest =>
      match h : readEscape rest with
      | .error fault => .error fault
      | .ok (char, after) => do
          have := readEscape_length_lt h
          let (text, rest) ← readString after
          .ok (char :: text, rest)
  | char :: rest =>
      if char < ' ' then .error .malformed
      else do
        let (text, rest) ← readString rest
        .ok (char :: text, rest)
termination_by input.length
decreasing_by all_goals simp only [List.length_cons]; omega

/-- Skips a string after its opening quote. -/
def skipString (input : List Char) : Except JsonFault (List Char) :=
  match input with
  | [] => .error .truncated
  | '"' :: rest => .ok rest
  | '\\' :: rest =>
      match h : skipEscape rest with
      | .error fault => .error fault
      | .ok after =>
          have := skipEscape_length_lt h
          skipString after
  | char :: rest => if char < ' ' then .error .malformed else skipString rest
termination_by input.length
decreasing_by all_goals simp only [List.length_cons]; omega

theorem readString_length_lt {input rest text : List Char}
    (hread : readString input = .ok (text, rest)) : rest.length < input.length := by
  fun_induction readString input generalizing rest text with
  | case1 => cases hread
  | case2 tail =>
      cases hread
      simp
  | case3 => cases hread
  | case4 tail char after hescape hlt ih =>
      cases hmore : readString after with
      | error fault => simp [hmore, bind, Except.bind] at hread
      | ok found =>
          obtain ⟨more, last⟩ := found
          simp only [hmore, bind, Except.bind, Except.ok.injEq, Prod.mk.injEq] at hread
          have hlength := ih hmore
          obtain ⟨-, rfl⟩ := hread
          simp only [List.length_cons]
          omega
  | case5 => cases hread
  | case6 char tail _ _ _ ih =>
      cases hmore : readString tail with
      | error fault => simp [hmore, bind, Except.bind] at hread
      | ok found =>
          obtain ⟨more, last⟩ := found
          simp only [hmore, bind, Except.bind, Except.ok.injEq, Prod.mk.injEq] at hread
          have hlength := ih hmore
          obtain ⟨-, rfl⟩ := hread
          simp only [List.length_cons]
          omega

theorem skipString_length_lt {input rest : List Char}
    (hskip : skipString input = .ok rest) : rest.length < input.length := by
  fun_induction skipString input generalizing rest with
  | case1 => cases hskip
  | case2 tail =>
      cases hskip
      simp
  | case3 => cases hskip
  | case4 tail after hescape hlt ih =>
      have hlength := ih hskip
      simp only [List.length_cons]
      omega
  | case5 => cases hskip
  | case6 char tail _ _ _ ih =>
      have hlength := ih hskip
      simp only [List.length_cons]
      omega

end WordMachine.Json
