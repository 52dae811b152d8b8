import WordMachine.Json.Quoted
import WordMachine.Proofs.JsonGrammar

/-!
# Reading strings

A string is skipped whole, whether or not its units make up characters.  One that writes a
text is read for that text, in every way to write it: each character plainly, by a letter, by
the unit of its number, or by the pair of units of a number that needs two.
-/

namespace WordMachine.Json

variable {text content rest : List Char}

/-! ## Units and letters -/

theorem hexValue?_of_isHexDigit {value : Nat} {char : Char} (hdigit : IsHexDigit value char) :
    hexValue? char = some value := by
  cases hdigit with
  | small hlt =>
      revert value
      decide
  | capital hlt =>
      revert value
      decide

theorem readUnit_of_writes {unit : Nat} {digits : List Char} (hdigits : WritesUnit unit digits)
    (rest : List Char) : readUnit (digits ++ rest) = .ok (unit, rest) := by
  obtain ⟨hfirst, hsecond, hthird, hfourth⟩ := hdigits
  simp only [List.cons_append, List.nil_append, readUnit, hexValue?_of_isHexDigit hfirst,
    hexValue?_of_isHexDigit hsecond, hexValue?_of_isHexDigit hthird,
    hexValue?_of_isHexDigit hfourth]

theorem shortEscape?_of_mem {letter char : Char} (hletter : (letter, char) ∈ shortEscapes) :
    shortEscape? letter = some char := by
  have hall : ∀ pair ∈ shortEscapes, shortEscape? pair.1 = some pair.2 := by decide
  exact hall _ hletter

theorem ne_unit_of_mem {letter char : Char} (hletter : (letter, char) ∈ shortEscapes) :
    letter ≠ 'u' := by
  have hall : ∀ pair ∈ shortEscapes, pair.1 ≠ 'u' := by decide
  exact hall _ hletter

/-! ## Skipping -/

theorem skipEscape_of_letter {letter char : Char} (hletter : (letter, char) ∈ shortEscapes)
    (rest : List Char) : skipEscape (letter :: rest) = .ok rest := by
  have hunit : letter ≠ 'u' := ne_unit_of_mem hletter
  rw [skipEscape.eq_3 _ _ hunit, shortEscape?_of_mem hletter]
  rfl

theorem skipEscape_of_unit {unit : Nat} {digits : List Char} (hdigits : WritesUnit unit digits)
    (rest : List Char) : skipEscape ('u' :: (digits ++ rest)) = .ok rest := by
  rw [skipEscape, readUnit_of_writes hdigits]
  rfl

theorem skipString_of_escape {input after : List Char} (hskip : skipEscape input = .ok after) :
    skipString ('\\' :: input) = skipString after := by
  rw [skipString]
  split
  · rename_i hfault
    rw [hskip] at hfault
    cases hfault
  · rename_i after' hafter
    rw [hskip] at hafter
    cases hafter
    rfl

theorem skipString_of_char {char : Char} {item : List Char} (hitem : WritesChar char item)
    (rest : List Char) : skipString (item ++ rest) = skipString rest := by
  cases hitem with
  | plain hcontrol hquote hslash =>
      rw [List.singleton_append, skipString, if_neg (Char.not_lt.mpr hcontrol)]
      · exact hquote
      · exact hslash
  | short hletter => exact skipString_of_escape (skipEscape_of_letter hletter rest)

theorem skipString_of_content (hcontent : IsContent content) (rest : List Char) :
    skipString (content ++ '"' :: rest) = .ok rest := by
  induction hcontent with
  | nil => rw [List.nil_append, skipString]
  | char hitem _ ih => rw [List.append_assoc, skipString_of_char hitem, ih]
  | unit hdigits _ ih =>
      rw [List.cons_append, List.cons_append, List.append_assoc,
        skipString_of_escape (skipEscape_of_unit hdigits _), ih]

/-! ## Reading -/

theorem readEscape_of_letter {letter char : Char} (hletter : (letter, char) ∈ shortEscapes)
    (rest : List Char) : readEscape (letter :: rest) = .ok (char, rest) := by
  have hunit : letter ≠ 'u' := ne_unit_of_mem hletter
  rw [readEscape.eq_3 _ _ hunit, shortEscape?_of_mem hletter]

/-- The number of a character belongs to no pair. -/
theorem toNat_outside_pairs (char : Char) : char.toNat < 0xD800 ∨ 0xDFFF < char.toNat := by
  obtain hlt | ⟨hgt, -⟩ := char.valid
  · exact .inl hlt
  · exact .inr hgt

theorem readEscape_of_unit {char : Char} {digits : List Char}
    (hdigits : WritesUnit char.toNat digits) (rest : List Char) :
    readEscape ('u' :: (digits ++ rest)) = .ok (char, rest) := by
  have houtside := toNat_outside_pairs char
  have htrailing : isTrailing char.toNat = false := by
    simp only [isTrailing, Bool.and_eq_false_iff, decide_eq_false_iff_not]
    omega
  have hleading : isLeading char.toNat = false := by
    simp only [isLeading, Bool.and_eq_false_iff, decide_eq_false_iff_not]
    omega
  simp only [readEscape, readUnit_of_writes hdigits, bind, Except.bind, htrailing, hleading,
    Bool.false_eq_true, if_false, Char.ofNat_toNat]

theorem readEscape_of_pair {char : Char} {leading trailing : Nat} {first second : List Char}
    (hfirst : WritesUnit leading first) (hsecond : WritesUnit trailing second)
    (hleading : 0xD800 ≤ leading ∧ leading ≤ 0xDBFF)
    (htrailing : 0xDC00 ≤ trailing ∧ trailing ≤ 0xDFFF)
    (hchar : char.toNat = 0x10000 + (leading - 0xD800) * 0x400 + (trailing - 0xDC00))
    (rest : List Char) :
    readEscape ('u' :: (first ++ '\\' :: 'u' :: (second ++ rest))) = .ok (char, rest) := by
  have hnotTrailing : isTrailing leading = false := by
    simp only [isTrailing, Bool.and_eq_false_iff, decide_eq_false_iff_not]
    omega
  have hisLeading : isLeading leading = true := by
    simp only [isLeading, Bool.and_eq_true, decide_eq_true_eq]
    exact hleading
  have hisTrailing : isTrailing trailing = true := by
    simp only [isTrailing, Bool.and_eq_true, decide_eq_true_eq]
    exact htrailing
  simp only [readEscape, readTrailing, readUnit_of_writes hfirst, readUnit_of_writes hsecond,
    bind, Except.bind, hnotTrailing, hisLeading, hisTrailing, Bool.false_eq_true, if_true,
    if_false, pairValue, ← hchar, Char.ofNat_toNat]

theorem readString_of_escape {input after : List Char} {char : Char}
    (hread : readEscape input = .ok (char, after))
    (hmore : readString after = .ok (text, rest)) :
    readString ('\\' :: input) = .ok (char :: text, rest) := by
  rw [readString]
  split
  · rename_i hfault
    rw [hread] at hfault
    cases hfault
  · rename_i char' after' hafter
    rw [hread] at hafter
    cases hafter
    rw [hmore]
    rfl

theorem readString_of_char {char : Char} {item after : List Char}
    (hitem : WritesChar char item) (hmore : readString after = .ok (text, rest)) :
    readString (item ++ after) = .ok (char :: text, rest) := by
  cases hitem with
  | plain hcontrol hquote hslash =>
      rw [List.singleton_append, readString, if_neg (Char.not_lt.mpr hcontrol), hmore]
      · rfl
      · exact hquote
      · exact hslash
  | short hletter => exact readString_of_escape (readEscape_of_letter hletter after) hmore

theorem readString_of_writes (hwrites : WritesText text content) (rest : List Char) :
    readString (content ++ '"' :: rest) = .ok (text, rest) := by
  induction hwrites with
  | nil => rw [List.nil_append, readString]
  | char hitem _ ih =>
      rw [List.append_assoc]
      exact readString_of_char hitem ih
  | unit hdigits _ ih =>
      rw [List.cons_append, List.cons_append, List.append_assoc]
      exact readString_of_escape (readEscape_of_unit hdigits _) ih
  | pair hfirst hsecond hleading htrailing hchar _ ih =>
      simp only [List.cons_append, List.append_assoc]
      exact readString_of_escape
        (readEscape_of_pair hfirst hsecond hleading htrailing hchar _) ih

end WordMachine.Json
