import WordMachine.Json.Record
import WordMachine.Proofs.JsonGrammar

/-!
# Reading numbers

A number is skipped whole, whatever its size, and a plain integer below 2⁶⁴ is read for what
its digits spell.  Both hold wherever nothing follows that could belong to the number.
-/

namespace WordMachine.Json

/-! ## Where a number ends -/

def EndsDigits (rest : List Char) : Prop := ∀ char ∈ rest.head?, char.isDigit = false

/-- Nothing that could belong to a number in front of it comes first in this text. -/
def EndsNumber (rest : List Char) : Prop :=
  ∀ char ∈ rest.head?, char.isDigit = false ∧ char ≠ '.' ∧ char ≠ 'e' ∧ char ≠ 'E'

variable {digits text rest : List Char}

theorem EndsNumber.endsDigits (hrest : EndsNumber rest) : EndsDigits rest :=
  fun char hchar => (hrest char hchar).1

theorem EndsNumber.not_mem {char : Char} (hrest : EndsNumber rest)
    (hchar : char = '.' ∨ char = 'e' ∨ char = 'E') : char ∉ rest.head? := by
  intro hmem
  obtain ⟨-, hpoint, hsmall, hlarge⟩ := hrest char hmem
  obtain rfl | rfl | rfl := hchar
  · exact hpoint rfl
  · exact hsmall rfl
  · exact hlarge rfl

theorem EndsDigits.takeWhile (hrest : EndsDigits rest) : rest.takeWhile Char.isDigit = [] := by
  cases rest with
  | nil => rfl
  | cons char tail => exact List.takeWhile_cons_of_neg (by simp [hrest char rfl])

theorem EndsDigits.dropWhile (hrest : EndsDigits rest) :
    rest.dropWhile Char.isDigit = rest := by
  cases rest with
  | nil => rfl
  | cons char tail => exact List.dropWhile_cons_of_neg (by simp [hrest char rfl])

theorem takeWhile_digits (hdigits : ∀ char ∈ digits, char.isDigit = true)
    (hrest : EndsDigits rest) : (digits ++ rest).takeWhile Char.isDigit = digits := by
  rw [List.takeWhile_append_of_pos hdigits, hrest.takeWhile, List.append_nil]

theorem dropWhile_digits (hdigits : ∀ char ∈ digits, char.isDigit = true)
    (hrest : EndsDigits rest) : (digits ++ rest).dropWhile Char.isDigit = rest := by
  rw [List.dropWhile_append_of_pos hdigits, hrest.dropWhile]

theorem EndsDigits.not_any (hrest : EndsDigits rest) : rest.head?.any Char.isDigit = false := by
  cases rest with
  | nil => rfl
  | cons char tail => exact hrest char rfl

/-- Digits are none of the marks in a number. -/
theorem ne_of_isDigit {char mark : Char} (hdigit : char.isDigit = true)
    (hmark : mark.isDigit = false) : char ≠ mark := by
  rintro rfl
  rw [hdigit] at hmark
  cases hmark

theorem IsExponent.endsDigits (hexponent : IsExponent text) (hrest : EndsNumber rest) :
    EndsDigits (text ++ rest) := by
  cases hexponent with
  | absent => exact hrest.endsDigits
  | present hmark =>
      intro char hchar
      cases hchar
      obtain rfl | rfl := hmark <;> rfl

theorem IsFraction.endsDigits (hfraction : IsFraction text) (hrest : EndsDigits rest) :
    EndsDigits (text ++ rest) := by
  cases hfraction with
  | absent => exact hrest
  | present =>
      intro char hchar
      cases hchar
      rfl

theorem IsExponent.not_mem_point (hexponent : IsExponent text) (hrest : EndsNumber rest) :
    '.' ∉ (text ++ rest).head? := by
  cases hexponent with
  | absent => exact hrest.not_mem (.inl rfl)
  | present hmark =>
      intro hmem
      cases hmem
      obtain hmark | hmark := hmark <;> cases hmark

/-! ## Skipping -/

theorem skipExponent_of_digits {sign : List Char}
    (hsign : sign = [] ∨ sign = ['+'] ∨ sign = ['-']) (hdigits : IsDigits digits)
    (hrest : EndsDigits rest) : skipExponent (sign ++ (digits ++ rest)) = .ok rest := by
  obtain ⟨hnil, hall⟩ := hdigits
  cases digits with
  | nil => exact absurd rfl hnil
  | cons digit digits =>
      have hdigit : digit.isDigit = true := hall digit List.mem_cons_self
      have hsigned : (exponentSign (sign ++ (digit :: digits ++ rest))).2 =
          digit :: (digits ++ rest) := by
        obtain rfl | rfl | rfl := hsign
        · have hplus : digit ≠ '+' := ne_of_isDigit hdigit rfl
          have hminus : digit ≠ '-' := ne_of_isDigit hdigit rfl
          simp [exponentSign, hplus, hminus]
        · rfl
        · rfl
      have hdrop : (digits ++ rest).dropWhile Char.isDigit = rest :=
        dropWhile_digits (fun char hchar => hall char (List.mem_cons_of_mem _ hchar)) hrest
      rw [skipExponent, hsigned]
      simp only [hdigit, if_true, hdrop]

theorem skipScale_of_not_mem (hsmall : 'e' ∉ text.head?) (hlarge : 'E' ∉ text.head?) :
    skipScale text = .ok text := by
  unfold skipScale
  split
  · exact absurd rfl hsmall
  · exact absurd rfl hlarge
  · rfl

theorem skipScale_of_ends (hrest : EndsNumber rest) : skipScale rest = .ok rest :=
  skipScale_of_not_mem (hrest.not_mem (.inr (.inl rfl))) (hrest.not_mem (.inr (.inr rfl)))

theorem skipScale_of_exponent (hexponent : IsExponent text) (hrest : EndsNumber rest) :
    skipScale (text ++ rest) = .ok rest := by
  cases hexponent with
  | absent => exact skipScale_of_ends hrest
  | @present mark sign digits hmark hsign hdigits =>
      rw [List.cons_append, List.append_assoc]
      obtain rfl | rfl := hmark
      · exact skipExponent_of_digits hsign hdigits hrest.endsDigits
      · exact skipExponent_of_digits hsign hdigits hrest.endsDigits

theorem skipFraction_of_not_mem (hpoint : '.' ∉ text.head?) :
    skipFraction text = skipScale text := by
  unfold skipFraction
  split
  · exact absurd rfl hpoint
  · rfl

theorem skipFraction_of_fraction {exponent : List Char} (hfraction : IsFraction text)
    (hexponent : IsExponent exponent) (hrest : EndsNumber rest) :
    skipFraction (text ++ (exponent ++ rest)) = .ok rest := by
  have hends : EndsDigits (exponent ++ rest) := hexponent.endsDigits hrest
  cases hfraction with
  | absent =>
      rw [List.nil_append, skipFraction_of_not_mem (hexponent.not_mem_point hrest)]
      exact skipScale_of_exponent hexponent hrest
  | @present digits hdigits =>
      rw [List.cons_append, skipFraction, takeWhile_digits hdigits.isDigit hends,
        dropWhile_digits hdigits.isDigit hends, if_neg (by simpa using hdigits.ne_nil)]
      exact skipScale_of_exponent hexponent hrest

theorem skipMagnitude_of_integer {whole : List Char} (hwhole : IsInteger whole)
    (hends : EndsDigits rest) : skipMagnitude (whole ++ rest) = skipFraction rest := by
  cases hwhole with
  | zero =>
      rw [List.cons_append, List.nil_append, skipMagnitude, if_pos rfl,
        if_neg (by simp [hends.not_any])]
  | @positive digit digits hdigit hzero hdigits =>
      rw [List.cons_append, skipMagnitude, if_neg hzero, if_pos hdigit,
        dropWhile_digits hdigits hends]

theorem skipMagnitude_of_parts {whole fraction exponent : List Char} (hwhole : IsInteger whole)
    (hfraction : IsFraction fraction) (hexponent : IsExponent exponent)
    (hrest : EndsNumber rest) :
    skipMagnitude (whole ++ (fraction ++ (exponent ++ rest))) = .ok rest := by
  rw [skipMagnitude_of_integer hwhole (hfraction.endsDigits (hexponent.endsDigits hrest)),
    skipFraction_of_fraction hfraction hexponent hrest]

theorem IsInteger.exists_digit {whole : List Char} (hwhole : IsInteger whole) :
    ∃ digit digits, whole = digit :: digits ∧ digit.isDigit = true := by
  cases hwhole with
  | zero => exact ⟨_, _, rfl, rfl⟩
  | positive hdigit => exact ⟨_, _, rfl, hdigit⟩

/-! ## Reading -/

theorem le_ofDigitChars (value : Nat) : value ≤ Nat.ofDigitChars 10 digits value := by
  have hpower : 1 ≤ 10 ^ digits.length := Nat.one_le_pow _ 10 (by decide)
  rw [Nat.ofDigitChars_eq_ofDigitChars_zero]
  calc
    value = 1 * value := (Nat.one_mul value).symm
    _ ≤ 10 ^ digits.length * value := Nat.mul_le_mul_right value hpower
    _ ≤ _ := Nat.le_add_right _ _

/-- Digits are appended as long as what they spell stays below the limit, so all of them if
the whole does. -/
theorem absorb_eq {significand : Nat}
    (hlimit : Nat.ofDigitChars 10 digits significand < wordLimit) :
    absorb significand digits = (Nat.ofDigitChars 10 digits significand, digits.length) := by
  induction digits generalizing significand with
  | nil => rfl
  | cons digit digits ih =>
      rw [Nat.ofDigitChars_cons, Nat.mul_comm] at hlimit
      have hlonger : significand * 10 + (digit.toNat - '0'.toNat) < wordLimit :=
        Nat.lt_of_le_of_lt (le_ofDigitChars _) hlimit
      simp only [absorb, hlonger, if_true, ih hlimit, Nat.ofDigitChars_cons, Nat.mul_comm 10,
        List.length_cons]

theorem readFraction_of_not_mem {significand dropped : Nat} (hpoint : '.' ∉ text.head?)
    (hsmall : 'e' ∉ text.head?) (hlarge : 'E' ∉ text.head?) :
    readFraction significand dropped text =
      if dropped = 0 then .ok (some significand, text)
      else finishNumber significand dropped text := by
  unfold readFraction
  split
  · exact absurd rfl hpoint
  · exact absurd rfl hsmall
  · exact absurd rfl hlarge
  · rfl

theorem readFraction_of_ends {significand : Nat} (hrest : EndsNumber rest) :
    readFraction significand 0 rest = .ok (some significand, rest) := by
  rw [readFraction_of_not_mem (hrest.not_mem (.inl rfl)) (hrest.not_mem (.inr (.inl rfl)))
    (hrest.not_mem (.inr (.inr rfl))), if_pos rfl]

theorem readMagnitude_of_writes {value : Nat} (hlimit : value < wordLimit)
    (hwrites : WritesNatural value text) (hrest : EndsNumber rest) :
    readMagnitude (text ++ rest) = .ok (some value, rest) := by
  obtain ⟨hinteger, rfl⟩ := hwrites
  cases hinteger with
  | zero =>
      rw [List.cons_append, List.nil_append, readMagnitude, if_pos rfl,
        if_neg (by simp [hrest.endsDigits.not_any])]
      exact readFraction_of_ends hrest
  | @positive digit digits hdigit hzero hdigits =>
      rw [List.cons_append, readMagnitude, if_neg hzero, if_pos hdigit]
      simp only [takeWhile_digits hdigits hrest.endsDigits,
        dropWhile_digits hdigits hrest.endsDigits, absorb_eq hlimit, Nat.sub_self]
      exact readFraction_of_ends hrest

theorem readNumber_of_not_mem (hsign : '-' ∉ text.head?) :
    readNumber text = readMagnitude text := by
  unfold readNumber
  split
  · exact absurd rfl hsign
  · rfl

theorem readNumber_of_writes {value : Nat} (hlimit : value < wordLimit)
    (hwrites : WritesNatural value text) (hrest : EndsNumber rest) :
    readNumber (text ++ rest) = .ok (some value, rest) := by
  have hmagnitude := readMagnitude_of_writes hlimit hwrites hrest
  obtain ⟨digit, digits, rfl, hdigit⟩ := hwrites.isInteger.exists_digit
  have hsign : '-' ∉ (digit :: digits ++ rest).head? := by
    intro hmem
    cases hmem
    cases hdigit
  rw [readNumber_of_not_mem hsign, hmagnitude]

end WordMachine.Json
