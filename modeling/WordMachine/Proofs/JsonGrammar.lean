import WordMachine.Json.Fault

/-!
# The grammar of JSON

Numbers, strings and values as texts, with blanks around the parts of arrays and objects,
nested to any depth; and the texts that write a truth value, a natural number, a string, or
what stands in brackets.

A number is an integer without superfluous zeros in front, then perhaps a fraction, then
perhaps an exponent.  Between the quotes of a string stand plain characters, escapes of one
letter, and units of four hexadecimal digits.
-/

namespace WordMachine.Json

/-! ## Blanks -/

def blanks : List Char := [' ', '\n', '\t', '\r']

def Blank (text : List Char) : Prop := ∀ char ∈ text, char ∈ blanks

theorem Blank.nil : Blank [] := fun _ hchar => absurd hchar List.not_mem_nil

/-- A text with blanks around it. -/
inductive Padded (Writes : List Char → Prop) : List Char → Prop
  | mk {before text after : List Char} (hbefore : Blank before) (htext : Writes text)
      (hafter : Blank after) : Padded Writes (before ++ (text ++ after))

theorem exists_padded {Writes : List Char → Prop} (hwritable : ∃ text, Writes text) :
    ∃ text, Padded Writes text := by
  obtain ⟨text, htext⟩ := hwritable
  exact ⟨_, .mk Blank.nil htext Blank.nil⟩

/-! ## Numbers -/

/-- A row of digits, at least one. -/
structure IsDigits (text : List Char) : Prop where
  ne_nil : text ≠ []
  isDigit : ∀ char ∈ text, char.isDigit = true

inductive IsInteger : List Char → Prop
  | zero : IsInteger ['0']
  | positive {digit : Char} {digits : List Char} (hdigit : digit.isDigit = true)
      (hzero : digit ≠ '0') (hdigits : ∀ char ∈ digits, char.isDigit = true) :
      IsInteger (digit :: digits)

inductive IsFraction : List Char → Prop
  | absent : IsFraction []
  | present {digits : List Char} (hdigits : IsDigits digits) : IsFraction ('.' :: digits)

inductive IsExponent : List Char → Prop
  | absent : IsExponent []
  | present {mark : Char} {sign digits : List Char} (hmark : mark = 'e' ∨ mark = 'E')
      (hsign : sign = [] ∨ sign = ['+'] ∨ sign = ['-']) (hdigits : IsDigits digits) :
      IsExponent (mark :: (sign ++ digits))

inductive IsNumber : List Char → Prop
  | mk {sign whole fraction exponent : List Char} (hsign : sign = [] ∨ sign = ['-'])
      (hwhole : IsInteger whole) (hfraction : IsFraction fraction)
      (hexponent : IsExponent exponent) :
      IsNumber (sign ++ (whole ++ (fraction ++ exponent)))

/-- A natural number is written as the integer that its digits spell. -/
structure WritesNatural (value : Nat) (text : List Char) : Prop where
  isInteger : IsInteger text
  spells : Nat.ofDigitChars 10 text 0 = value

theorem exists_toDigits_eq_cons {value : Nat} (hvalue : 0 < value) :
    ∃ digit digits, Nat.toDigits 10 value = digit :: digits ∧ digit ≠ '0' := by
  induction value using Nat.strongRecOn with
  | ind value ih =>
      by_cases hlt : value < 10
      · have hdigit : ∀ value < 10, 0 < value → value.digitChar ≠ '0' := by decide
        rw [Nat.toDigits_of_lt_base hlt]
        exact ⟨_, [], rfl, hdigit value hlt hvalue⟩
      · obtain ⟨digit, digits, hdigits, hzero⟩ := ih (value / 10) (by omega) (by omega)
        rw [Nat.toDigits_of_base_le (by decide) (by omega), hdigits]
        exact ⟨digit, _, rfl, hzero⟩

/-- Every natural number can be written. -/
theorem writesNatural_toDigits (value : Nat) : WritesNatural value (Nat.toDigits 10 value) where
  isInteger := by
    have hall : ∀ char ∈ Nat.toDigits 10 value, char.isDigit = true :=
      fun _ hchar => Nat.isDigit_of_mem_toDigits (by decide) (by decide) hchar
    obtain rfl | hvalue := Nat.eq_zero_or_pos value
    · exact .zero
    · obtain ⟨digit, digits, hdigits, hzero⟩ := exists_toDigits_eq_cons hvalue
      rw [hdigits] at hall ⊢
      exact .positive (hall digit List.mem_cons_self) hzero
        fun char hchar => hall char (List.mem_cons_of_mem _ hchar)
  spells := Nat.ofDigitChars_toDigits (by decide) (by decide)

/-! ## Strings -/

/-- The letters after a backslash, and the characters that they stand for. -/
def shortEscapes : List (Char × Char) := [
  ('"', '"'), ('\\', '\\'), ('/', '/'), ('b', '\x08'), ('f', '\x0c'), ('n', '\n'), ('r', '\r'),
  ('t', '\t')]

inductive IsHexDigit (value : Nat) : Char → Prop
  | small (hlt : value < 16) : IsHexDigit value value.digitChar
  | capital (hlt : value < 16) : IsHexDigit value value.digitChar.toUpper

inductive WritesUnit : Nat → List Char → Prop
  | mk {a b c d : Nat} {first second third fourth : Char} (hfirst : IsHexDigit a first)
      (hsecond : IsHexDigit b second) (hthird : IsHexDigit c third)
      (hfourth : IsHexDigit d fourth) :
      WritesUnit (((a * 16 + b) * 16 + c) * 16 + d) [first, second, third, fourth]

/-- A character by itself, or by the letter that stands for it. -/
inductive WritesChar : Char → List Char → Prop
  | plain {char : Char} (hcontrol : ' ' ≤ char) (hquote : char ≠ '"') (hslash : char ≠ '\\') :
      WritesChar char [char]
  | short {letter char : Char} (hletter : (letter, char) ∈ shortEscapes) :
      WritesChar char ['\\', letter]

/-- The inside of a string, whether or not its units make up characters. -/
inductive IsContent : List Char → Prop
  | nil : IsContent []
  | char {char : Char} {item content : List Char} (hitem : WritesChar char item)
      (hcontent : IsContent content) : IsContent (item ++ content)
  | unit {unit : Nat} {digits content : List Char} (hdigits : WritesUnit unit digits)
      (hcontent : IsContent content) : IsContent ('\\' :: 'u' :: (digits ++ content))

/-- The inside of a string that stands for a text.  A unit that belongs to pairs stands for
no character of its own. -/
inductive WritesText : List Char → List Char → Prop
  | nil : WritesText [] []
  | char {char : Char} {text item content : List Char} (hitem : WritesChar char item)
      (hcontent : WritesText text content) : WritesText (char :: text) (item ++ content)
  | unit {char : Char} {text digits content : List Char}
      (hdigits : WritesUnit char.toNat digits) (hcontent : WritesText text content) :
      WritesText (char :: text) ('\\' :: 'u' :: (digits ++ content))
  | pair {char : Char} {leading trailing : Nat} {text first second content : List Char}
      (hfirst : WritesUnit leading first) (hsecond : WritesUnit trailing second)
      (hleading : 0xD800 ≤ leading ∧ leading ≤ 0xDBFF)
      (htrailing : 0xDC00 ≤ trailing ∧ trailing ≤ 0xDFFF)
      (hchar : char.toNat = 0x10000 + (leading - 0xD800) * 0x400 + (trailing - 0xDC00))
      (hcontent : WritesText text content) :
      WritesText (char :: text)
        ('\\' :: 'u' :: (first ++ '\\' :: 'u' :: (second ++ content)))

/-- A text without control characters, quotes and backslashes writes itself. -/
theorem WritesText.plain {text : List Char}
    (htext : (text.all fun char => ' ' ≤ char ∧ char ≠ '"' ∧ char ≠ '\\') = true) :
    WritesText text text := by
  induction text with
  | nil => exact .nil
  | cons char text ih =>
      rw [List.all_cons, Bool.and_eq_true, decide_eq_true_eq] at htext
      obtain ⟨⟨hcontrol, hquote, hslash⟩, htext⟩ := htext
      exact .char (.plain hcontrol hquote hslash) (ih htext)

/-! ## Values -/

inductive WritesBool : Bool → List Char → Prop
  | true : WritesBool .true ['t', 'r', 'u', 'e']
  | false : WritesBool .false ['f', 'a', 'l', 's', 'e']

theorem exists_writesBool (value : Bool) : ∃ text, WritesBool value text := by
  cases value
  · exact ⟨_, .false⟩
  · exact ⟨_, .true⟩

namespace Bracket

def opening : Bracket → Char
  | array => '['
  | object => '{'

def closing : Bracket → Char
  | array => ']'
  | object => '}'

end Bracket

/-- The parts of a text that make up one another. -/
inductive Part where
  | value
  /-- What stands between two commas. -/
  | item (bracket : Bracket)
  /-- One or more items with commas between them. -/
  | items (bracket : Bracket)

def literals : List (List Char) :=
  [['n', 'u', 'l', 'l'], ['t', 'r', 'u', 'e'], ['f', 'a', 'l', 's', 'e']]

inductive WellFormed : Part → List Char → Prop
  | literal {text : List Char} (htext : text ∈ literals) : WellFormed .value text
  | number {text : List Char} (hnumber : IsNumber text) : WellFormed .value text
  | string {content : List Char} (hcontent : IsContent content) :
      WellFormed .value ('"' :: (content ++ ['"']))
  | empty {bracket : Bracket} {gap : List Char} (hgap : Blank gap) :
      WellFormed .value (bracket.opening :: (gap ++ [bracket.closing]))
  | filled {bracket : Bracket} {items : List Char} (hitems : WellFormed (.items bracket) items) :
      WellFormed .value (bracket.opening :: (items ++ [bracket.closing]))
  | element {before value after : List Char} (hbefore : Blank before)
      (hvalue : WellFormed .value value) (hafter : Blank after) :
      WellFormed (.item .array) (before ++ (value ++ after))
  | member {before key between gap value after : List Char} (hbefore : Blank before)
      (hkey : IsContent key) (hbetween : Blank between) (hgap : Blank gap)
      (hvalue : WellFormed .value value) (hafter : Blank after) :
      WellFormed (.item .object)
        (before ++ '"' :: (key ++ '"' :: (between ++ ':' :: (gap ++ (value ++ after)))))
  | last {bracket : Bracket} {item : List Char} (hitem : WellFormed (.item bracket) item) :
      WellFormed (.items bracket) item
  | more {bracket : Bracket} {item items : List Char} (hitem : WellFormed (.item bracket) item)
      (hitems : WellFormed (.items bracket) items) :
      WellFormed (.items bracket) (item ++ ',' :: items)

/-! ## Items in brackets -/

/-- One or more items with commas between them. -/
inductive Separated : List (List Char) → List Char → Prop
  | last {item : List Char} : Separated [item] item
  | more {item text : List Char} {items : List (List Char)} (hitems : Separated items text) :
      Separated (item :: items) (item ++ ',' :: text)

/-- Items in brackets. -/
inductive Encloses (bracket : Bracket) : List (List Char) → List Char → Prop
  | empty {gap : List Char} (hgap : Blank gap) :
      Encloses bracket [] (bracket.opening :: (gap ++ [bracket.closing]))
  | filled {items : List (List Char)} {text : List Char} (hitems : Separated items text) :
      Encloses bracket items (bracket.opening :: (text ++ [bracket.closing]))

theorem exists_encloses (bracket : Bracket) (items : List (List Char)) :
    ∃ text, Encloses bracket items text := by
  have hseparated : ∀ item rest, ∃ text, Separated (item :: rest) text := by
    intro item rest
    induction rest generalizing item with
    | nil => exact ⟨item, .last⟩
    | cons next rest ih =>
        obtain ⟨text, htext⟩ := ih next
        exact ⟨_, .more htext⟩
  cases items with
  | nil => exact ⟨_, .empty Blank.nil⟩
  | cons item rest =>
      obtain ⟨text, htext⟩ := hseparated item rest
      exact ⟨_, .filled htext⟩

/-- A member of an object: its key, and the text of its value. -/
structure Member where
  key : String
  value : List Char

inductive WritesMember (member : Member) : List Char → Prop
  | mk {before key between : List Char} (hbefore : Blank before)
      (hkey : WritesText member.key.toList key) (hbetween : Blank between) :
      WritesMember member (before ++ '"' :: (key ++ '"' :: (between ++ ':' :: member.value)))

end WordMachine.Json
