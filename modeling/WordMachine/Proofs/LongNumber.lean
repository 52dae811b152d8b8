import Mathlib.Data.Nat.Digits.Defs
import Mathlib.Tactic.LinearCombination
import WordMachine.ConditionCodes

/-!
# Numbers of several words

A number that is too long for one word stands in several, the low word first.  Programs
go through the words one after the other, and the carry flag takes along from word to word
what one of them cannot hold.  If the operation on a single word accounts for what it
carries, then going through the words accounts for the whole number.
-/

namespace WordMachine

/-- An operation that replaces a word, and takes and leaves condition codes. -/
abbrev WordOperation := Word → ConditionCodes → Word × ConditionCodes

namespace LongWord

/-- The number that words stand for, the low word first. -/
def number (words : List Word) : Nat := Nat.ofDigits (2 ^ 16) (words.map BitVec.toNat)

/-- The long word that words make up, the low word first. -/
def ofWords (words : List Word) : BitVec (16 * words.length) := BitVec.ofNat _ (number words)

/-! ## The value of words -/

section Value

variable (word top : Word) (rest words : List Word)

theorem number_cons : number (word :: rest) = word.toNat + 2 ^ 16 * number rest :=
  Nat.ofDigits_cons

theorem number_concat :
    number (words ++ [top]) = number words + (2 ^ 16) ^ words.length * top.toNat := by
  rw [number, List.map_append, Nat.ofDigits_append, List.length_map]
  simp [number]

theorem toNat_lt_of_mem_map {digit : Nat} (hdigit : digit ∈ words.map BitVec.toNat) :
    digit < 2 ^ 16 := by
  obtain ⟨word, -, rfl⟩ := List.mem_map.mp hdigit
  exact word.isLt

theorem number_lt : number words < (2 ^ 16) ^ words.length := by
  rw [← List.length_map (f := BitVec.toNat)]
  apply Nat.ofDigits_lt_base_pow_length (by decide)
  intro digit hdigit
  exact toNat_lt_of_mem_map words hdigit

/-- As many words stand for a number in one way only. -/
theorem eq_of_number_eq {left right : List Word} (hlength : left.length = right.length)
    (hnumber : number left = number right) : left = right := by
  have hdigits : left.map BitVec.toNat = right.map BitVec.toNat := by
    apply Nat.ofDigits_inj_of_len_eq (by decide : 1 < 2 ^ 16)
    · simpa using hlength
    · exact fun _ => toNat_lt_of_mem_map left
    · exact fun _ => toNat_lt_of_mem_map right
    · exact hnumber
  exact (List.map_inj_right fun _ _ => BitVec.eq_of_toNat_eq).mp hdigits

theorem toNat_ofWords : (ofWords words).toNat = number words := by
  have hlt := number_lt words
  rw [← pow_mul] at hlt
  rw [ofWords, BitVec.toNat_ofNat, Nat.mod_eq_of_lt hlt]

end Value

/-! ## Going through the words -/

/-- Applies an operation to the first word and another to each word after it.  Each takes
the condition codes that the one before left. -/
def ascend (first next : WordOperation) :
    List Word → ConditionCodes → List Word × ConditionCodes
  | [], codes => ([], codes)
  | word :: rest, codes =>
      let (result, codes) := first word codes
      let (results, codes) := ascend next next rest codes
      (result :: results, codes)

/-- Goes through the words in the opposite order, from the last one down. -/
def descend (first next : WordOperation) (words : List Word) (codes : ConditionCodes) :
    List Word × ConditionCodes :=
  let (results, codes) := ascend first next words.reverse codes
  (results.reverse, codes)

section Traversal

variable (first next : WordOperation) (word top : Word) (rest words : List Word)
  (codes : ConditionCodes)

theorem ascend_cons :
    ascend first next (word :: rest) codes =
      ((first word codes).1 :: (ascend next next rest (first word codes).2).1,
        (ascend next next rest (first word codes).2).2) := rfl

@[simp]
theorem length_ascend : (ascend first next words codes).1.length = words.length := by
  induction words generalizing first codes with
  | nil => rfl
  | cons word rest ih => rw [ascend_cons, List.length_cons, ih, List.length_cons]

@[simp]
theorem length_descend : (descend first next words codes).1.length = words.length := by
  simp [descend]

theorem descend_concat :
    descend first next (rest ++ [top]) codes =
      ((descend next next rest (first top codes).2).1 ++ [(first top codes).1],
        (descend next next rest (first top codes).2).2) := by
  simp [descend, ascend_cons]

end Traversal

/-! ## Carrying upwards -/

/-- The operation makes a multiple of its word and adds what it takes in, or takes that
away.  The carry flag stands for the word size by which the result is then off. -/
def Carries (scale sign : Int) (input : ConditionCodes → Int) (operation : WordOperation) :
    Prop :=
  ∀ word codes, ((operation word codes).1.toNat : Int) =
    scale * word.toNat + sign * (input codes - 2 ^ 16 * (operation word codes).2.c.toInt)

/-- The carry as a number. -/
abbrev carryIn (codes : ConditionCodes) : Int := codes.c.toInt

theorem toInt_eq_toNat (flag : Bool) : flag.toInt = flag.toNat := by
  cases flag <;> rfl

section Carries

variable {scale sign : Int} {input : ConditionCodes → Int} {first next : WordOperation}

/-- What operations do to words one after the other, the same operation does to the number
that the words stand for: its carry goes in at the low word and comes out of the last. -/
theorem Carries.number_ascend (hnext : Carries scale sign carryIn next) (words : List Word)
    (codes : ConditionCodes) :
    (number (ascend next next words codes).1 : Int) =
      scale * number words + sign * (codes.c.toInt -
        (2 ^ 16) ^ words.length * (ascend next next words codes).2.c.toInt) := by
  induction words generalizing codes with
  | nil =>
      change (0 : Int) = scale * 0 + sign * (codes.c.toInt - (2 ^ 16) ^ 0 * codes.c.toInt)
      ring
  | cons word rest ih =>
      rw [ascend_cons, number_cons, number_cons, List.length_cons]
      push_cast
      linear_combination hnext word codes + 2 ^ 16 * ih (next word codes).2

/-- The first operation may take in something other than a carry. -/
theorem Carries.number_ascend_cons (hfirst : Carries scale sign input first)
    (hnext : Carries scale sign carryIn next) (word : Word) (rest : List Word)
    (codes : ConditionCodes) :
    (number (ascend first next (word :: rest) codes).1 : Int) =
      scale * number (word :: rest) + sign * (input codes -
        (2 ^ 16) ^ (rest.length + 1) *
          (ascend first next (word :: rest) codes).2.c.toInt) := by
  rw [ascend_cons, number_cons, number_cons]
  push_cast
  linear_combination hfirst word codes + 2 ^ 16 * hnext.number_ascend rest (first word codes).2

end Carries

end LongWord

end WordMachine
