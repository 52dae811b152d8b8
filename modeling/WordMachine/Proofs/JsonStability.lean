import WordMachine.Proofs.AddressSpace
import WordMachine.Proofs.JsonValue

/-!
# Stability of reading

What is read from the front of a text is read from the front of every longer text as well.
Only a number needs care: nothing may follow that could belong to it.
-/

namespace WordMachine.Json

variable {input after more : List Char}

/-! ## Blanks and literals -/

theorem skipBlank_stable {char : Char} (hskip : skipBlank input = char :: after)
    (more : List Char) : skipBlank (input ++ more) = char :: (after ++ more) := by
  induction input with
  | nil => cases hskip
  | cons next input ih =>
      rw [skipBlank] at hskip
      rw [List.cons_append, skipBlank]
      by_cases hblank : isBlank next = true
      · rw [List.dropWhile_cons_of_pos hblank] at hskip ⊢
        exact ih hskip
      · rw [List.dropWhile_cons_of_neg hblank] at hskip ⊢
        cases hskip
        rfl

theorem literal_stable {expected : List Char} (hread : literal expected input = .ok after)
    (more : List Char) : literal expected (input ++ more) = .ok (after ++ more) := by
  induction expected generalizing input with
  | nil =>
      cases hread
      rfl
  | cons char rest ih =>
      cases input with
      | nil => cases hread
      | cons next tail =>
          rw [literal] at hread
          rw [List.cons_append, literal]
          split at hread
          · rename_i heq
            rw [if_pos heq, ih hread]
          · cases hread

/-! ## Strings -/

theorem readUnit_stable {unit : Nat} (hread : readUnit input = .ok (unit, after))
    (more : List Char) : readUnit (input ++ more) = .ok (unit, after ++ more) := by
  unfold readUnit at hread
  split at hread
  · split at hread
    · rename_i ha hb hc hd
      cases hread
      simp only [List.cons_append, readUnit, ha, hb, hc, hd]
    · cases hread
  · split at hread <;> cases hread

theorem readTrailing_stable {leading : Nat} {char : Char}
    (hread : readTrailing leading input = .ok (char, after)) (more : List Char) :
    readTrailing leading (input ++ more) = .ok (char, after ++ more) := by
  unfold readTrailing at hread
  split at hread
  · cases hread
  · cases hread
  · rename_i tail
    obtain ⟨⟨unit, rest⟩, hunit, hread⟩ := exists_of_bind_eq_ok hread
    dsimp only at hread
    rw [List.cons_append, List.cons_append, readTrailing, readUnit_stable hunit, ok_bind]
    split at hread
    · rename_i htrailing
      obtain ⟨rfl, rfl⟩ := Prod.mk.inj (Except.ok.inj hread)
      exact if_pos htrailing
    · cases hread
  · cases hread

theorem readEscape_stable {char : Char} (hread : readEscape input = .ok (char, after))
    (more : List Char) : readEscape (input ++ more) = .ok (char, after ++ more) := by
  unfold readEscape at hread
  split at hread
  · cases hread
  · rename_i tail
    obtain ⟨⟨unit, rest⟩, hunit, hread⟩ := exists_of_bind_eq_ok hread
    dsimp only at hread
    rw [List.cons_append, readEscape, readUnit_stable hunit, ok_bind]
    dsimp only
    split at hread
    · cases hread
    · rename_i htrailing
      rw [if_neg htrailing]
      split at hread
      · rename_i hleading
        rw [if_pos hleading, readTrailing_stable hread]
      · rename_i hleading
        cases hread
        exact if_neg hleading
  · rename_i letter tail hunit
    split at hread
    · rename_i hshort
      cases hread
      rw [List.cons_append, readEscape.eq_3 _ _ hunit, hshort]
    · cases hread

theorem skipEscape_stable (hskip : skipEscape input = .ok after) (more : List Char) :
    skipEscape (input ++ more) = .ok (after ++ more) := by
  unfold skipEscape at hskip
  split at hskip
  · cases hskip
  · rename_i tail
    obtain ⟨⟨unit, rest⟩, hunit, hskip⟩ := exists_of_bind_eq_ok hskip
    cases hskip
    rw [List.cons_append, skipEscape, readUnit_stable hunit]
    rfl
  · rename_i letter tail hunit
    split at hskip
    · rename_i hshort
      cases hskip
      rw [List.cons_append, skipEscape.eq_3 _ _ hunit, if_pos hshort]
    · cases hskip

theorem readString_stable {text : List Char} (hread : readString input = .ok (text, after))
    (more : List Char) : readString (input ++ more) = .ok (text, after ++ more) := by
  fun_induction readString input generalizing after text with
  | case1 => cases hread
  | case2 tail =>
      cases hread
      rw [List.cons_append, readString]
  | case3 => cases hread
  | case4 tail char next hescape _ ih =>
      obtain ⟨⟨letters, last⟩, hmore, hread⟩ := exists_of_bind_eq_ok hread
      cases hread
      exact readString_of_escape (readEscape_stable hescape more) (ih hmore)
  | case5 => cases hread
  | case6 char tail hquote hslash hcontrol ih =>
      obtain ⟨⟨letters, last⟩, hmore, hread⟩ := exists_of_bind_eq_ok hread
      cases hread
      have hplain : WritesChar char [char] := .plain (Char.not_lt.mp hcontrol) hquote hslash
      rw [← List.singleton_append, List.append_assoc]
      exact readString_of_char hplain (ih hmore)

theorem skipString_stable (hskip : skipString input = .ok after) (more : List Char) :
    skipString (input ++ more) = .ok (after ++ more) := by
  fun_induction skipString input with
  | case1 => cases hskip
  | case2 tail =>
      cases hskip
      rw [List.cons_append, skipString]
  | case3 => cases hskip
  | case4 tail next hescape _ ih =>
      rw [List.cons_append, skipString_of_escape (skipEscape_stable hescape more), ih hskip]
  | case5 => cases hskip
  | case6 char tail hquote hslash hcontrol ih =>
      have hplain : WritesChar char [char] := .plain (Char.not_lt.mp hcontrol) hquote hslash
      rw [← List.singleton_append, List.append_assoc, skipString_of_char hplain, ih hskip]

/-! ## Numbers -/

theorem takeWhile_stable (hmore : EndsDigits more) :
    (input ++ more).takeWhile Char.isDigit = input.takeWhile Char.isDigit := by
  induction input with
  | nil => exact hmore.takeWhile
  | cons char input ih => rw [List.cons_append, List.takeWhile_cons, List.takeWhile_cons, ih]

theorem dropWhile_stable (hmore : EndsDigits more) :
    (input ++ more).dropWhile Char.isDigit = input.dropWhile Char.isDigit ++ more := by
  induction input with
  | nil => exact hmore.dropWhile
  | cons char input ih =>
      rw [List.cons_append, List.dropWhile_cons, List.dropWhile_cons, ih]
      split <;> rfl

theorem any_head?_stable (hmore : EndsDigits more) :
    (input ++ more).head?.any Char.isDigit = input.head?.any Char.isDigit := by
  cases input with
  | nil => exact hmore.not_any
  | cons char input => rfl

theorem exponentSign_stable {digit : Char}
    (hsign : (exponentSign input).2 = digit :: after) (more : List Char) :
    exponentSign (input ++ more) = ((exponentSign input).1, digit :: (after ++ more)) := by
  cases input with
  | nil => cases hsign
  | cons char input =>
      unfold exponentSign at hsign ⊢
      rw [List.cons_append]
      split at hsign
      all_goals simp_all

theorem finishNumber_stable {significand : Nat} {exponent : Int} {value : Option Nat}
    (hread : finishNumber significand exponent input = .ok (value, after))
    (more : List Char) :
    finishNumber significand exponent (input ++ more) = .ok (value, after ++ more) := by
  unfold finishNumber at hread ⊢
  split at hread
  · cases hread
  · rename_i hlarge
    cases hread
    exact if_neg hlarge

theorem readExponent_stable {significand : Nat} {scale : Int} {value : Option Nat}
    (hread : readExponent significand scale input = .ok (value, after))
    (hmore : EndsDigits more) :
    readExponent significand scale (input ++ more) = .ok (value, after ++ more) := by
  unfold readExponent at hread ⊢
  cases hsign : (exponentSign input).2 with
  | nil => simp only [hsign, reduceCtorEq] at hread
  | cons digit tail =>
      simp only [hsign] at hread
      simp only [exponentSign_stable hsign more]
      split at hread
      · rename_i hdigit
        rw [if_pos hdigit, takeWhile_stable hmore, dropWhile_stable hmore]
        exact finishNumber_stable hread more
      · cases hread

/-- A text that does not start with a mark does not start with it when more follows, unless
what follows does. -/
theorem not_mem_head?_append {mark : Char} (hinput : ∀ rest, input = mark :: rest → False)
    (hmore : mark ∉ more.head?) : mark ∉ (input ++ more).head? := by
  cases input with
  | nil => exact hmore
  | cons char tail =>
      intro hmark
      cases hmark
      exact hinput tail rfl

theorem readScale_of_not_mem {significand : Nat} {scale : Int} (hsmall : 'e' ∉ input.head?)
    (hlarge : 'E' ∉ input.head?) :
    readScale significand scale input = finishNumber significand scale input := by
  unfold readScale
  split
  · exact absurd rfl hsmall
  · exact absurd rfl hlarge
  · rfl

theorem readScale_stable {significand : Nat} {scale : Int} {value : Option Nat}
    (hread : readScale significand scale input = .ok (value, after))
    (hmore : EndsNumber more) :
    readScale significand scale (input ++ more) = .ok (value, after ++ more) := by
  unfold readScale at hread
  split at hread
  · exact readExponent_stable hread hmore.endsDigits
  · exact readExponent_stable hread hmore.endsDigits
  · rename_i hsmall hlarge
    rw [readScale_of_not_mem (not_mem_head?_append hsmall (hmore.not_mem (.inr (.inl rfl))))
      (not_mem_head?_append hlarge (hmore.not_mem (.inr (.inr rfl))))]
    exact finishNumber_stable hread more

theorem readFraction_stable {significand dropped : Nat} {value : Option Nat}
    (hread : readFraction significand dropped input = .ok (value, after))
    (hmore : EndsNumber more) :
    readFraction significand dropped (input ++ more) = .ok (value, after ++ more) := by
  unfold readFraction at hread
  split at hread
  · rename_i tail
    rw [List.cons_append, readFraction, takeWhile_stable hmore.endsDigits,
      dropWhile_stable hmore.endsDigits]
    dsimp only at hread ⊢
    split at hread
    · cases hread
    · exact readScale_stable hread hmore
  · exact readExponent_stable hread hmore.endsDigits
  · exact readExponent_stable hread hmore.endsDigits
  · rename_i hpoint hsmall hlarge
    rw [readFraction_of_not_mem (not_mem_head?_append hpoint (hmore.not_mem (.inl rfl)))
      (not_mem_head?_append hsmall (hmore.not_mem (.inr (.inl rfl))))
      (not_mem_head?_append hlarge (hmore.not_mem (.inr (.inr rfl))))]
    split at hread
    · rename_i hdropped
      cases hread
      exact if_pos hdropped
    · rename_i hdropped
      rw [if_neg hdropped]
      exact finishNumber_stable hread more

theorem readMagnitude_stable {value : Option Nat}
    (hread : readMagnitude input = .ok (value, after)) (hmore : EndsNumber more) :
    readMagnitude (input ++ more) = .ok (value, after ++ more) := by
  cases input with
  | nil => cases hread
  | cons digit tail =>
      rw [readMagnitude] at hread
      rw [List.cons_append, readMagnitude, any_head?_stable hmore.endsDigits,
        takeWhile_stable hmore.endsDigits, dropWhile_stable hmore.endsDigits]
      split at hread
      · rename_i hzero
        rw [if_pos hzero]
        split at hread
        · cases hread
        · rename_i hdigit
          rw [if_neg hdigit]
          exact readFraction_stable hread hmore
      · rename_i hzero
        rw [if_neg hzero]
        split at hread
        · rename_i hdigit
          rw [if_pos hdigit]
          exact readFraction_stable hread hmore
        · cases hread

theorem readNumber_stable {value : Option Nat} (hread : readNumber input = .ok (value, after))
    (hmore : EndsNumber more) : readNumber (input ++ more) = .ok (value, after ++ more) := by
  unfold readNumber at hread
  split at hread
  · obtain ⟨⟨magnitude, rest⟩, hmagnitude, hread⟩ := exists_of_bind_eq_ok hread
    cases hread
    rw [List.cons_append, readNumber, readMagnitude_stable hmagnitude hmore]
    rfl
  · rename_i hsign
    have hnil : input ≠ [] := by
      rintro rfl
      cases hread
    have hsign : '-' ∉ (input ++ more).head? := by
      cases input with
      | nil => exact absurd rfl hnil
      | cons char tail =>
          intro hmark
          cases hmark
          exact hsign tail rfl
    rw [readNumber_of_not_mem hsign]
    exact readMagnitude_stable hread hmore

theorem skipExponent_stable (hskip : skipExponent input = .ok after)
    (hmore : EndsDigits more) : skipExponent (input ++ more) = .ok (after ++ more) := by
  unfold skipExponent at hskip ⊢
  cases hsign : (exponentSign input).2 with
  | nil => simp only [hsign, reduceCtorEq] at hskip
  | cons digit tail =>
      simp only [hsign] at hskip
      simp only [exponentSign_stable hsign more]
      split at hskip
      · rename_i hdigit
        cases hskip
        rw [if_pos hdigit, dropWhile_stable hmore]
      · cases hskip

theorem skipScale_stable (hskip : skipScale input = .ok after) (hmore : EndsNumber more) :
    skipScale (input ++ more) = .ok (after ++ more) := by
  unfold skipScale at hskip
  split at hskip
  · exact skipExponent_stable hskip hmore.endsDigits
  · exact skipExponent_stable hskip hmore.endsDigits
  · rename_i hsmall hlarge
    cases hskip
    exact skipScale_of_not_mem (not_mem_head?_append hsmall (hmore.not_mem (.inr (.inl rfl))))
      (not_mem_head?_append hlarge (hmore.not_mem (.inr (.inr rfl))))

theorem skipFraction_stable (hskip : skipFraction input = .ok after)
    (hmore : EndsNumber more) : skipFraction (input ++ more) = .ok (after ++ more) := by
  unfold skipFraction at hskip
  split at hskip
  · rw [List.cons_append, skipFraction, takeWhile_stable hmore.endsDigits,
      dropWhile_stable hmore.endsDigits]
    split at hskip
    · cases hskip
    · rename_i hdigits
      rw [if_neg hdigits]
      exact skipScale_stable hskip hmore
  · rename_i hpoint
    rw [skipFraction_of_not_mem (not_mem_head?_append hpoint (hmore.not_mem (.inl rfl)))]
    exact skipScale_stable hskip hmore

theorem skipMagnitude_stable (hskip : skipMagnitude input = .ok after)
    (hmore : EndsNumber more) : skipMagnitude (input ++ more) = .ok (after ++ more) := by
  cases input with
  | nil => cases hskip
  | cons digit tail =>
      rw [skipMagnitude] at hskip
      rw [List.cons_append, skipMagnitude, any_head?_stable hmore.endsDigits,
        dropWhile_stable hmore.endsDigits]
      split at hskip
      · rename_i hzero
        rw [if_pos hzero]
        split at hskip
        · cases hskip
        · rename_i hdigit
          rw [if_neg hdigit]
          exact skipFraction_stable hskip hmore
      · rename_i hzero
        rw [if_neg hzero]
        split at hskip
        · rename_i hdigit
          rw [if_pos hdigit]
          exact skipFraction_stable hskip hmore
        · cases hskip

/-! ## Skipped values -/

theorem skipScalar_stable (hskip : skipScalar input = .ok after) (hmore : EndsNumber more) :
    skipScalar (input ++ more) = .ok (after ++ more) := by
  unfold skipScalar at hskip
  split at hskip
  · exact literal_stable hskip more
  · exact literal_stable hskip more
  · exact literal_stable hskip more
  · exact skipString_stable hskip more
  · exact skipMagnitude_stable hskip hmore
  · rename_i hnull htrue hfalse hquote hsign
    cases input with
    | nil => cases hskip
    | cons char tail =>
        rw [List.cons_append, skipScalar_of_magnitude]
        · exact skipMagnitude_stable hskip hmore
        · simp only [List.mem_cons, List.not_mem_nil, or_false]
          rintro (rfl | rfl | rfl | rfl | rfl)
          · exact hnull tail rfl
          · exact htrue tail rfl
          · exact hfalse tail rfl
          · exact hquote tail rfl
          · exact hsign tail rfl

theorem readColon_stable (hread : readColon input = .ok after) (more : List Char) :
    readColon (input ++ more) = .ok (after ++ more) := by
  unfold readColon at hread
  split at hread
  · rename_i hcolon
    cases hread
    rw [readColon, skipBlank_stable hcolon]
    rfl
  · cases hread
  · cases hread

theorem skipKey_stable (hskip : skipKey input = .ok after) (more : List Char) :
    skipKey (input ++ more) = .ok (after ++ more) := by
  unfold skipKey at hskip
  split at hskip
  · rename_i hquote
    obtain ⟨rest, hkey, hcolon⟩ := exists_of_bind_eq_ok hskip
    rw [skipKey, skipBlank_stable hquote]
    show skipString _ >>= readColon = _
    rw [skipString_stable hkey, ok_bind, readColon_stable hcolon]
  · cases hskip
  · cases hskip

/-- Nothing but what is complete already can be skipped without a character. -/
theorem exists_skipBlank_of_skip {expected : Expected} {nesting : List Bracket}
    (hskip : skip expected nesting input = .ok after) (hexpected : expected ≠ .mark) :
    ∃ char tail, skipBlank input = char :: tail := by
  cases hinput : skipBlank input with
  | cons char tail => exact ⟨char, tail, rfl⟩
  | nil =>
      cases expected with
      | value => 
          rw [skip] at hskip
          split at hskip
          all_goals simp_all
      | member => 
          have hkey : skipKey input = .error .truncated := by rw [skipKey, hinput]
          rw [skip] at hskip
          split at hskip
          all_goals simp_all
      | mark => exact absurd rfl hexpected

theorem skip_value_append (bracket : Bracket) {nesting : List Bracket} {text : List Char}
    (hinput : skipBlank input = bracket.opening :: text)
    (hopen : ∀ rest, skipBlank text ≠ bracket.closing :: rest)
    (hskip : skip bracket.expected (bracket :: nesting) text = .ok after) (more : List Char) :
    skip .value nesting (input ++ more) =
      skip bracket.expected (bracket :: nesting) (text ++ more) := by
  obtain ⟨char, tail, htext⟩ := exists_skipBlank_of_skip hskip (by cases bracket <;> decide)
  have hclosing : char ≠ bracket.closing := by
    rintro rfl
    exact hopen tail htext
  rw [skip_opening (skipBlank_stable hinput more) (skipBlank_stable htext more),
    if_neg hclosing]

theorem skip_stable {expected : Expected} {nesting : List Bracket}
    (hskip : skip expected nesting input = .ok after) (hmore : EndsNumber more) :
    skip expected nesting (input ++ more) = .ok (after ++ more) := by
  -- Arrays and objects differ in their brackets only; a text that is refused has no rest.
  fun_induction skip expected nesting input with
  | case1 => cases hskip
  | case2 nesting input rest hvalue _ last hclose _ ih =>
      have hopening : skipBlank (input ++ more) = Bracket.array.opening :: (rest ++ more) :=
        skipBlank_stable hvalue more
      rw [skip_empty hopening (skipBlank_stable hclose more)]
      exact ih hskip
  | case3 nesting input rest hvalue _ hopen ih =>
      rw [skip_value_append .array hvalue hopen hskip]
      exact ih hskip
  | case4 nesting input rest hvalue _ last hclose _ ih =>
      have hopening : skipBlank (input ++ more) = Bracket.object.opening :: (rest ++ more) :=
        skipBlank_stable hvalue more
      rw [skip_empty hopening (skipBlank_stable hclose more)]
      exact ih hskip
  | case5 nesting input rest hvalue _ hopen ih =>
      rw [skip_value_append .object hvalue hopen hskip]
      exact ih hskip
  | case6 => cases hskip
  | case7 nesting input char rest harray hobject hvalue last hscalar _ _ ih =>
      rw [skip_scalar (skipBlank_stable hvalue more) (skipScalar_stable hscalar hmore) harray
        hobject]
      exact ih hskip
  | case8 => cases hskip
  | case9 nesting input last hkey _ ih =>
      rw [skip_member (skipKey_stable hkey more)]
      exact ih hskip
  | case10 input =>
      cases hskip
      rw [skip]
  | case11 => cases hskip
  | case12 input bracket outer char rest hinput _ expected nesting hmark ih =>
      rw [skip_mark (skipBlank_stable hinput more) hmark]
      exact ih hskip
  | case13 => cases hskip

end WordMachine.Json
