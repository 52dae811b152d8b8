import WordMachine.Proofs.JsonNumber
import WordMachine.Proofs.JsonString

/-!
# Skipping values

A well-formed value is skipped whole, whatever is open around it.
-/

namespace WordMachine.Json

variable {before after text rest : List Char}

/-! ## Blanks -/

theorem isBlank_iff_mem {char : Char} : isBlank char = true ↔ char ∈ blanks := by
  simp [isBlank, blanks, or_assoc]

theorem eq_of_mem_blanks {char : Char} (hchar : char ∈ blanks) :
    char = ' ' ∨ char = '\n' ∨ char = '\t' ∨ char = '\r' := by
  simpa [blanks] using hchar

theorem Blank.skipBlank_append (hbefore : Blank before) (rest : List Char) :
    skipBlank (before ++ rest) = skipBlank rest :=
  List.dropWhile_append_of_pos fun char hchar => isBlank_iff_mem.mpr (hbefore char hchar)

theorem Blank.skipBlank_cons (hbefore : Blank before) {char : Char}
    (hchar : isBlank char = false) (rest : List Char) :
    skipBlank (before ++ char :: rest) = char :: rest := by
  rw [hbefore.skipBlank_append, skipBlank, List.dropWhile_cons_of_neg (by simp [hchar])]

theorem Blank.skipBlank_eq_nil (hbefore : Blank before) : skipBlank before = [] := by
  rw [← List.append_nil before, hbefore.skipBlank_append]
  rfl

/-- Blanks separate a number from whatever comes after them. -/
theorem Blank.endsNumber (hafter : Blank after) (hrest : EndsNumber rest) :
    EndsNumber (after ++ rest) := by
  cases after with
  | nil => exact hrest
  | cons blank after =>
      intro char hchar
      cases hchar
      obtain rfl | rfl | rfl | rfl := eq_of_mem_blanks (hafter blank List.mem_cons_self)
      all_goals decide

theorem endsNumber_nil : EndsNumber [] := by
  rintro char ⟨⟩

theorem endsNumber_cons {mark : Char} (hmark : mark = ',' ∨ mark = ']' ∨ mark = '}')
    (rest : List Char) : EndsNumber (mark :: rest) := by
  intro char hchar
  cases hchar
  obtain rfl | rfl | rfl := hmark
  all_goals decide

/-! ## First characters -/

/-- A text whose first character is neither a blank nor the end of what is in brackets. -/
def Starts (bracket : Bracket) (text : List Char) : Prop :=
  ∃ char tail, text = char :: tail ∧ isBlank char = false ∧ char ≠ bracket.closing

/-- A text that starts so after blanks. -/
def Opens (bracket : Bracket) (text : List Char) : Prop :=
  ∃ before body, Blank before ∧ text = before ++ body ∧ Starts bracket body

theorem Starts.append {bracket : Bracket} (hstarts : Starts bracket text) (rest : List Char) :
    Starts bracket (text ++ rest) := by
  obtain ⟨char, tail, rfl, hchar⟩ := hstarts
  exact ⟨char, tail ++ rest, rfl, hchar⟩

theorem Starts.blank_append {bracket : Bracket} (hbefore : Blank before)
    (hstarts : Starts bracket text) : Opens bracket (before ++ text) :=
  ⟨before, text, hbefore, rfl, hstarts⟩

theorem Opens.append {bracket : Bracket} (hopens : Opens bracket text) (rest : List Char) :
    Opens bracket (text ++ rest) := by
  obtain ⟨before, body, hbefore, rfl, hbody⟩ := hopens
  exact ⟨before, body ++ rest, hbefore, List.append_assoc .., hbody.append rest⟩

theorem Opens.exists_skipBlank {bracket : Bracket} (hopens : Opens bracket text) :
    ∃ char tail, skipBlank text = char :: tail ∧ char ≠ bracket.closing := by
  obtain ⟨before, -, hbefore, rfl, char, tail, rfl, hchar, hclosing⟩ := hopens
  exact ⟨char, tail, hbefore.skipBlank_cons hchar tail, hclosing⟩

theorem isBlank_eq_false_of_isDigit {char : Char} (hdigit : char.isDigit = true) :
    isBlank char = false := by
  apply Bool.eq_false_iff.mpr
  intro hblank
  obtain rfl | rfl | rfl | rfl := eq_of_mem_blanks (isBlank_iff_mem.mp hblank)
  all_goals cases hdigit

theorem IsInteger.starts (hinteger : IsInteger text) : Starts .array text := by
  obtain ⟨digit, digits, rfl, hdigit⟩ := hinteger.exists_digit
  exact ⟨digit, digits, rfl, isBlank_eq_false_of_isDigit hdigit, ne_of_isDigit hdigit rfl⟩

theorem IsNumber.starts (hnumber : IsNumber text) : Starts .array text := by
  obtain ⟨rfl | rfl, hwhole, -, -⟩ := hnumber
  · exact hwhole.starts.append _
  · exact ⟨_, _, rfl, rfl, by decide⟩

theorem WellFormed.starts (hvalue : WellFormed .value text) : Starts .array text := by
  cases hvalue with
  | literal htext =>
      simp only [literals, List.mem_cons, List.not_mem_nil, or_false] at htext
      obtain rfl | rfl | rfl := htext
      all_goals exact ⟨_, _, rfl, rfl, by decide⟩
  | number hnumber => exact hnumber.starts
  | string => exact ⟨_, _, rfl, rfl, by decide⟩
  | @empty bracket | @filled bracket =>
      cases bracket
      all_goals exact ⟨_, _, rfl, rfl, by decide⟩

theorem WellFormed.opens_item {bracket : Bracket} (hitem : WellFormed (.item bracket) text) :
    Opens bracket text := by
  cases hitem with
  | element hbefore hvalue => exact (hvalue.starts.append _).blank_append hbefore
  | member hbefore => exact Starts.blank_append hbefore ⟨_, _, rfl, rfl, by decide⟩

theorem WellFormed.opens {bracket : Bracket} (hitems : WellFormed (.items bracket) text) :
    Opens bracket text := by
  cases hitems with
  | last hitem => exact hitem.opens_item
  | more hitem => exact hitem.opens_item.append _

/-! ## Skipping -/

namespace Bracket

/-- What comes first after the opening bracket and after a comma. -/
def expected : Bracket → Expected
  | array => .value
  | object => .member

theorem isBlank_opening (bracket : Bracket) : isBlank bracket.opening = false := by
  cases bracket <;> rfl

theorem isBlank_closing (bracket : Bracket) : isBlank bracket.closing = false := by
  cases bracket <;> rfl

theorem afterMark?_comma (bracket : Bracket) (outer : List Bracket) :
    bracket.afterMark? outer ',' = some (bracket.expected, bracket :: outer) := by
  cases bracket <;> rfl

theorem afterMark?_closing (bracket : Bracket) (outer : List Bracket) :
    bracket.afterMark? outer bracket.closing = some (.mark, outer) := by
  cases bracket <;> rfl

theorem eq_of_afterMark?_eq_some {bracket : Bracket} {outer : List Bracket} {mark : Char}
    {next : Expected × List Bracket} (hmark : bracket.afterMark? outer mark = some next) :
    mark = ',' ∨ mark = ']' ∨ mark = '}' := by
  unfold afterMark? at hmark
  split at hmark
  all_goals simp_all

end Bracket

variable {input : List Char} {nesting outer : List Bracket} {bracket : Bracket}

theorem skip_scalar {char : Char} (hinput : skipBlank input = char :: text)
    (hscalar : skipScalar (char :: text) = .ok after) (harray : char ≠ '[')
    (hobject : char ≠ '{') : skip .value nesting input = skip .mark nesting after := by
  rw [skip]
  split
  all_goals
    rename_i hcase
    cases hinput.symm.trans hcase
  · exact absurd rfl harray
  · exact absurd rfl hobject
  · split
    · rename_i hfault
      cases hscalar.symm.trans hfault
    · rename_i hafter
      cases hscalar.symm.trans hafter
      rfl

/-- What comes first in the brackets decides whether they are empty. -/
theorem skip_opening {char : Char} {tail : List Char}
    (hinput : skipBlank input = bracket.opening :: text) (htext : skipBlank text = char :: tail) :
    skip .value nesting input =
      if char = bracket.closing then skip .mark nesting tail
      else skip bracket.expected (bracket :: nesting) text := by
  cases bracket
  all_goals
    conv => lhs; rw [skip]
    split
    all_goals
      rename_i hcase
      cases hinput.symm.trans hcase
  · split
    · rename_i hclose
      cases htext.symm.trans hclose
      rfl
    · rename_i hopen
      have hchar : char ≠ ']' := by
        rintro rfl
        exact hopen tail htext
      exact (if_neg hchar).symm
  · rename_i hopening _
    exact absurd rfl hopening
  · split
    · rename_i hclose
      cases htext.symm.trans hclose
      rfl
    · rename_i hopen
      have hchar : char ≠ '}' := by
        rintro rfl
        exact hopen tail htext
      exact (if_neg hchar).symm
  · rename_i hopening
    exact absurd rfl hopening

theorem skip_empty (hinput : skipBlank input = bracket.opening :: text)
    (hclose : skipBlank text = bracket.closing :: after) :
    skip .value nesting input = skip .mark nesting after := by
  rw [skip_opening hinput hclose, if_pos rfl]

theorem skip_filled (hinput : skipBlank input = bracket.opening :: text)
    (hopens : Opens bracket text) :
    skip .value nesting input = skip bracket.expected (bracket :: nesting) text := by
  obtain ⟨char, tail, hskip, hclosing⟩ := hopens.exists_skipBlank
  rw [skip_opening hinput hskip, if_neg hclosing]

theorem skip_member (hkey : skipKey input = .ok after) :
    skip .member nesting input = skip .value nesting after := by
  conv => lhs; rw [skip]
  split
  · rename_i hfault
    cases hkey.symm.trans hfault
  · rename_i hafter
    cases hkey.symm.trans hafter
    rfl

theorem skip_mark {mark : Char} {expected : Expected}
    (hinput : skipBlank input = mark :: after)
    (hmark : bracket.afterMark? outer mark = some (expected, nesting)) :
    skip .mark (bracket :: outer) input = skip expected nesting after := by
  conv => lhs; rw [skip]
  split
  all_goals
    rename_i hcase
    cases hinput.symm.trans hcase
  simp only [hmark]

theorem readColon_append (hbefore : Blank before) (rest : List Char) :
    readColon (before ++ ':' :: rest) = .ok rest := by
  rw [readColon, hbefore.skipBlank_cons rfl]
  rfl

theorem skipKey_of_content {key between : List Char} (hbefore : Blank before)
    (hkey : IsContent key) (hbetween : Blank between) (rest : List Char) :
    skipKey (before ++ '"' :: (key ++ '"' :: (between ++ ':' :: rest))) = .ok rest := by
  rw [skipKey, hbefore.skipBlank_cons rfl]
  simp only [skipString_of_content hkey, bind, Except.bind, readColon_append hbetween]

theorem skipScalar_of_magnitude {char : Char} (hliteral : char ∉ ['n', 't', 'f', '"', '-'])
    (rest : List Char) : skipScalar (char :: rest) = skipMagnitude (char :: rest) := by
  unfold skipScalar
  split
  case h_6 => rfl
  all_goals
    rename_i heq
    cases heq
    simp at hliteral

theorem skipScalar_of_digit {digit : Char} (hdigit : digit.isDigit = true) (rest : List Char) :
    skipScalar (digit :: rest) = skipMagnitude (digit :: rest) := by
  apply skipScalar_of_magnitude
  simp only [List.mem_cons, List.not_mem_nil, or_false]
  rintro (rfl | rfl | rfl | rfl | rfl)
  all_goals cases hdigit

theorem skip_literal (htext : text ∈ literals) (hbefore : Blank before) :
    skip .value nesting (before ++ (text ++ rest)) = skip .mark nesting rest := by
  simp only [literals, List.mem_cons, List.not_mem_nil, or_false] at htext
  obtain rfl | rfl | rfl := htext
  all_goals
    exact skip_scalar (hbefore.skipBlank_cons rfl _) (by simp [skipScalar, literal])
      (by decide) (by decide)

theorem skip_number (hnumber : IsNumber text) (hbefore : Blank before)
    (hrest : EndsNumber rest) :
    skip .value nesting (before ++ (text ++ rest)) = skip .mark nesting rest := by
  obtain ⟨hsign, hwhole, hfraction, hexponent⟩ := hnumber
  have hskip := skipMagnitude_of_parts hwhole hfraction hexponent hrest
  simp only [List.append_assoc]
  obtain rfl | rfl := hsign
  · obtain ⟨digit, digits, rfl, hdigit⟩ := hwhole.exists_digit
    rw [List.cons_append, ← skipScalar_of_digit hdigit] at hskip
    exact skip_scalar (hbefore.skipBlank_cons (isBlank_eq_false_of_isDigit hdigit) _) hskip
      (ne_of_isDigit hdigit rfl) (ne_of_isDigit hdigit rfl)
  · exact skip_scalar (hbefore.skipBlank_cons rfl _) hskip (by decide) (by decide)

theorem skip_string {content : List Char} (hcontent : IsContent content)
    (hbefore : Blank before) :
    skip .value nesting (before ++ '"' :: (content ++ '"' :: rest)) =
      skip .mark nesting rest :=
  skip_scalar (hbefore.skipBlank_cons rfl _) (skipString_of_content hcontent rest) (by decide)
    (by decide)

/-- What it means for a part of a text to be skipped: a value up to its end, an item with the
mark after it, and all items with the bracket that closes them. -/
def Part.IsSkipped : Part → List Char → Prop
  | value, text => ∀ {before rest nesting}, Blank before → EndsNumber rest →
      skip .value nesting (before ++ (text ++ rest)) = skip .mark nesting rest
  | item bracket, text => ∀ {rest outer mark expected nesting},
      bracket.afterMark? outer mark = some (expected, nesting) →
        skip bracket.expected (bracket :: outer) (text ++ mark :: rest) =
          skip expected nesting rest
  | items bracket, text => ∀ {rest outer},
      skip bracket.expected (bracket :: outer) (text ++ bracket.closing :: rest) =
        skip .mark outer rest

theorem Part.IsSkipped.value_mark {value : List Char} {mark : Char} {expected : Expected}
    (hvalue : Part.value.IsSkipped value) (hbefore : Blank before) (hafter : Blank after)
    (hmark : bracket.afterMark? outer mark = some (expected, nesting)) :
    skip .value (bracket :: outer) (before ++ (value ++ (after ++ mark :: rest))) =
      skip expected nesting rest := by
  have hends := Bracket.eq_of_afterMark?_eq_some hmark
  have hblank : isBlank mark = false := by
    obtain rfl | rfl | rfl := hends
    all_goals rfl
  rw [hvalue hbefore (hafter.endsNumber (endsNumber_cons hends rest)),
    skip_mark (hafter.skipBlank_cons hblank rest) hmark]

theorem WellFormed.isSkipped {part : Part} (hwell : WellFormed part text) :
    part.IsSkipped text := by
  induction hwell with
  | literal htext => exact fun hbefore _ => skip_literal htext hbefore
  | number hnumber => exact skip_number hnumber
  | string hcontent =>
      intro before rest nesting hbefore _
      rw [List.cons_append, List.append_assoc]
      exact skip_string hcontent hbefore
  | @empty bracket gap hgap =>
      intro before rest nesting hbefore _
      simp only [List.cons_append, List.append_assoc, List.nil_append]
      exact skip_empty (hbefore.skipBlank_cons bracket.isBlank_opening _)
        (hgap.skipBlank_cons bracket.isBlank_closing _)
  | @filled bracket items hitems ih =>
      intro before rest nesting hbefore _
      simp only [List.cons_append, List.append_assoc, List.nil_append]
      rw [skip_filled (hbefore.skipBlank_cons bracket.isBlank_opening _)
        (hitems.opens.append _), ih]
  | element hbefore _ hafter ih =>
      intro rest outer mark expected nesting hmark
      simp only [List.append_assoc]
      exact ih.value_mark hbefore hafter hmark
  | member hbefore hkey hbetween hgap _ hafter ih =>
      intro rest outer mark expected nesting hmark
      simp only [List.append_assoc, List.cons_append]
      rw [Bracket.expected, skip_member (skipKey_of_content hbefore hkey hbetween _)]
      exact ih.value_mark hgap hafter hmark
  | @last bracket item _ ih =>
      intro rest outer
      exact ih (bracket.afterMark?_closing outer)
  | @more bracket item items _ _ ihItem ihItems =>
      intro rest outer
      rw [List.append_assoc, List.cons_append, ihItem (bracket.afterMark?_comma outer), ihItems]

/-- A well-formed value is passed over, and nothing else. -/
theorem skipValue_of_wellFormed (hvalue : WellFormed .value text) (hbefore : Blank before)
    (hrest : EndsNumber rest) : skipValue (before ++ (text ++ rest)) = .ok rest := by
  have hskip : skip .value [] (before ++ (text ++ rest)) = skip .mark [] rest :=
    hvalue.isSkipped hbefore hrest
  rw [skipValue, hskip, skip]

end WordMachine.Json
