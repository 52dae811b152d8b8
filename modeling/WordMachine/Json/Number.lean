import WordMachine.Binary64
import WordMachine.Json.Fault

/-!
# Numbers

A number is an integer without superfluous zeros in front, and then, if it
likes, a fraction and an exponent.  A number that is read is of use only when
it is a natural number below 2⁶⁴ written as a plain integer.  Any other number
is well formed all the same, unless it is too large for a binary64 number.

Of a long number only the leading digits count, as many as make an integer
below 2⁶⁴.  What follows them in the integer part scales the number up, and
what follows them in the fraction is dropped.

A number that is only skipped can be of any size.  The end of the text in the
middle of such a number is no different from any other wrong character.
-/

namespace WordMachine.Json

def wordLimit : Nat := 1 <<< 64

/-- Appends digits to an integer as long as it stays below the limit, and counts
those that were appended. -/
def absorb (significand : Nat) : List Char → Nat × Nat
  | [] => (significand, 0)
  | digit :: rest =>
      let longer := significand * 10 + (digit.toNat - '0'.toNat)
      if longer < wordLimit then
        let (result, count) := absorb longer rest
        (result, count + 1)
      else (significand, 0)

/-- The integer that digits spell. -/
def digitsValue (digits : List Char) : Nat :=
  digits.foldl (fun value digit => value * 10 + (digit.toNat - '0'.toNat)) 0

/-- Whether a significand and a power of ten, each rounded to a binary64 number,
have a product that is too large for one. -/
def tooLarge (significand : Nat) (exponent : Int) : Bool :=
  if significand = 0 ∨ exponent < 0 then false
  else if 308 < exponent then true
  else
    let left := Binary64.Ratio.ofNat significand
    let right := Binary64.Ratio.ofNat (Nat.pow 10 exponent.toNat)
    Binary64.overflowBound * (left.den * right.den) ≤ left.num * right.num

/-- The end of a number that is not a plain integer. -/
def finishNumber (significand : Nat) (exponent : Int) (rest : List Char) :
    Except JsonFault (Reading (Option Nat)) :=
  if tooLarge significand exponent then .error .malformed else .ok (none, rest)

/-- The sign of an exponent: whether it is positive, and what follows. -/
def exponentSign : List Char → Reading Bool
  | '+' :: rest => (true, rest)
  | '-' :: rest => (false, rest)
  | rest => (true, rest)

/-- Reads the digits of an exponent. -/
def readExponent (significand : Nat) (scale : Int) (input : List Char) :
    Except JsonFault (Reading (Option Nat)) :=
  let (positive, input) := exponentSign input
  match input with
  | [] => .error .truncated
  | digit :: rest =>
      if digit.isDigit then
        let exponent := digitsValue (digit :: rest.takeWhile Char.isDigit)
        let exponent : Int := if positive then exponent else -exponent
        finishNumber significand (scale + exponent) (rest.dropWhile Char.isDigit)
      else .error .malformed

/-- Reads what may follow the digits of a number. -/
def readScale (significand : Nat) (scale : Int) : List Char →
    Except JsonFault (Reading (Option Nat))
  | 'e' :: rest | 'E' :: rest => readExponent significand scale rest
  | rest => finishNumber significand scale rest

/-- Reads what may follow the integer part of a number. -/
def readFraction (significand dropped : Nat) : List Char →
    Except JsonFault (Reading (Option Nat))
  | '.' :: rest =>
      let after := rest.dropWhile Char.isDigit
      match rest.takeWhile Char.isDigit with
      | [] => .error (if after.isEmpty then .truncated else .malformed)
      | digits =>
          let (significand, count) := absorb significand digits
          readScale significand (dropped - count) after
  | 'e' :: rest => readExponent significand dropped rest
  | 'E' :: rest => readExponent significand dropped rest
  | rest =>
      if dropped = 0 then .ok (some significand, rest)
      else finishNumber significand dropped rest

/-- Reads a number without its sign. -/
def readMagnitude : List Char → Except JsonFault (Reading (Option Nat))
  | [] => .error .truncated
  | digit :: rest =>
      if digit = '0' then
        if rest.head?.any Char.isDigit then .error .malformed else readFraction 0 0 rest
      else if digit.isDigit then
        let digits := digit :: rest.takeWhile Char.isDigit
        let (significand, count) := absorb 0 digits
        readFraction significand (digits.length - count) (rest.dropWhile Char.isDigit)
      else .error .malformed

/-- Reads a number.  One with a sign is of no use, whatever its value. -/
def readNumber : List Char → Except JsonFault (Reading (Option Nat))
  | '-' :: rest => do
      let (_, rest) ← readMagnitude rest
      .ok (none, rest)
  | input => readMagnitude input

/-! ## Skipping -/

def skipExponent (input : List Char) : Except JsonFault (List Char) :=
  match (exponentSign input).2 with
  | [] => .error .malformed
  | digit :: rest =>
      if digit.isDigit then .ok (rest.dropWhile Char.isDigit) else .error .malformed

def skipScale : List Char → Except JsonFault (List Char)
  | 'e' :: rest | 'E' :: rest => skipExponent rest
  | rest => .ok rest

def skipFraction : List Char → Except JsonFault (List Char)
  | '.' :: rest =>
      if (rest.takeWhile Char.isDigit).isEmpty then .error .malformed
      else skipScale (rest.dropWhile Char.isDigit)
  | rest => skipScale rest

/-- Skips a number without its sign. -/
def skipMagnitude : List Char → Except JsonFault (List Char)
  | [] => .error .malformed
  | digit :: rest =>
      if digit = '0' then
        if rest.head?.any Char.isDigit then .error .malformed else skipFraction rest
      else if digit.isDigit then skipFraction (rest.dropWhile Char.isDigit)
      else .error .malformed

/-! ## Progress -/

theorem dropDigits_length_le (input : List Char) :
    (input.dropWhile Char.isDigit).length ≤ input.length :=
  (List.dropWhile_suffix Char.isDigit).length_le

theorem exponentSign_length_le (input : List Char) :
    (exponentSign input).2.length ≤ input.length := by
  unfold exponentSign
  split <;> simp

theorem finishNumber_rest {significand : Nat} {exponent : Int} {input rest : List Char}
    {value : Option Nat} (hread : finishNumber significand exponent input = .ok (value, rest)) :
    rest = input := by
  unfold finishNumber at hread
  split at hread
  · cases hread
  · simp only [Except.ok.injEq, Prod.mk.injEq] at hread
    exact hread.2.symm

theorem readExponent_length_le {significand : Nat} {scale : Int} {input rest : List Char}
    {value : Option Nat} (hread : readExponent significand scale input = .ok (value, rest)) :
    rest.length ≤ input.length := by
  have hsign := exponentSign_length_le input
  unfold readExponent at hread
  cases htail : (exponentSign input).2 with
  | nil => simp [htail] at hread
  | cons digit tail =>
      simp only [htail] at hread
      split at hread
      · have hdigits := dropDigits_length_le tail
        rw [htail, List.length_cons] at hsign
        rw [finishNumber_rest hread]
        omega
      · cases hread

theorem readScale_length_le {significand : Nat} {scale : Int} {input rest : List Char}
    {value : Option Nat} (hread : readScale significand scale input = .ok (value, rest)) :
    rest.length ≤ input.length := by
  unfold readScale at hread
  split at hread
  · exact Nat.le_succ_of_le (readExponent_length_le hread)
  · exact Nat.le_succ_of_le (readExponent_length_le hread)
  · exact Nat.le_of_eq (congrArg List.length (finishNumber_rest hread))

theorem readFraction_length_le {significand dropped : Nat} {input rest : List Char}
    {value : Option Nat} (hread : readFraction significand dropped input = .ok (value, rest)) :
    rest.length ≤ input.length := by
  unfold readFraction at hread
  split at hread
  · rename_i tail
    have hdigits := dropDigits_length_le tail
    split at hread
    · cases hread
    · have hscale := readScale_length_le hread
      simp only [List.length_cons]
      omega
  · exact Nat.le_succ_of_le (readExponent_length_le hread)
  · exact Nat.le_succ_of_le (readExponent_length_le hread)
  · split at hread
    · cases hread
      exact Nat.le_refl _
    · exact Nat.le_of_eq (congrArg List.length (finishNumber_rest hread))

theorem readMagnitude_length_lt {input rest : List Char} {value : Option Nat}
    (hread : readMagnitude input = .ok (value, rest)) : rest.length < input.length := by
  cases input with
  | nil => cases hread
  | cons digit tail =>
      have hdigits := dropDigits_length_le tail
      simp only [List.length_cons]
      rw [readMagnitude] at hread
      split at hread
      · split at hread
        · cases hread
        · have := readFraction_length_le hread
          omega
      · split at hread
        · have := readFraction_length_le hread
          omega
        · cases hread

theorem readNumber_length_lt {input rest : List Char} {value : Option Nat}
    (hread : readNumber input = .ok (value, rest)) : rest.length < input.length := by
  unfold readNumber at hread
  split at hread
  · rename_i tail
    cases hmagnitude : readMagnitude tail with
    | error fault => simp [hmagnitude, bind, Except.bind] at hread
    | ok found =>
        obtain ⟨size, after⟩ := found
        have hlength := readMagnitude_length_lt hmagnitude
        simp only [hmagnitude, bind, Except.bind, Except.ok.injEq, Prod.mk.injEq] at hread
        obtain ⟨-, rfl⟩ := hread
        simp only [List.length_cons]
        omega
  · exact readMagnitude_length_lt hread

theorem skipExponent_length_le {input rest : List Char}
    (hskip : skipExponent input = .ok rest) : rest.length ≤ input.length := by
  have hsign := exponentSign_length_le input
  unfold skipExponent at hskip
  cases htail : (exponentSign input).2 with
  | nil => simp [htail] at hskip
  | cons digit tail =>
      simp only [htail] at hskip
      rw [htail, List.length_cons] at hsign
      have hdigits := dropDigits_length_le tail
      split at hskip
      · cases hskip
        omega
      · cases hskip

theorem skipScale_length_le {input rest : List Char}
    (hskip : skipScale input = .ok rest) : rest.length ≤ input.length := by
  unfold skipScale at hskip
  split at hskip
  · exact Nat.le_succ_of_le (skipExponent_length_le hskip)
  · exact Nat.le_succ_of_le (skipExponent_length_le hskip)
  · cases hskip
    exact Nat.le_refl _

theorem skipFraction_length_le {input rest : List Char}
    (hskip : skipFraction input = .ok rest) : rest.length ≤ input.length := by
  unfold skipFraction at hskip
  split at hskip
  · rename_i tail
    have hdigits := dropDigits_length_le tail
    split at hskip
    · cases hskip
    · have := skipScale_length_le hskip
      simp only [List.length_cons]
      omega
  · exact skipScale_length_le hskip

theorem skipMagnitude_length_lt {input rest : List Char}
    (hskip : skipMagnitude input = .ok rest) : rest.length < input.length := by
  cases input with
  | nil => cases hskip
  | cons digit tail =>
      have hdigits := dropDigits_length_le tail
      simp only [List.length_cons]
      rw [skipMagnitude] at hskip
      split at hskip
      · split at hskip
        · cases hskip
        · have := skipFraction_length_le hskip
          omega
      · split at hskip
        · have := skipFraction_length_le hskip
          omega
        · cases hskip

end WordMachine.Json
