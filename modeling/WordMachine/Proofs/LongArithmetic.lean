import WordMachine.Proofs.ExactArithmetic
import WordMachine.Proofs.LongNumber

/-!
# Sums and differences of long numbers

Each word of one number is added to the word at the same place of another, and the carry is
taken on to the last word before the next words have their turn.  Wherever carries ripple
to, the words then hold the sum modulo the size of the number.  Subtracting goes the same
way, with borrows for carries.
-/

namespace WordMachine

open Reading (unsigned)

namespace LongWord

/-- Combines each word of a number with the word at the same place of another, from the low
word on, and carries on to the end of the number before the next word has its turn. -/
def accumulate (combine : Word → WordOperation) (carryOn : WordOperation) :
    List Word → List Word → ConditionCodes → List Word × ConditionCodes
  | src :: sources, words, codes =>
      match ascend (combine src) carryOn words codes with
      | (low :: rest, codes) =>
          let (results, codes) := accumulate combine carryOn sources rest codes
          (low :: results, codes)
      | ([], codes) => ([], codes)
  | [], words, codes => (words, codes)

section Accumulate

variable {sign : Int} {next : WordOperation}

theorem accumulate_cons (combine : Word → WordOperation) (src word : Word)
    (sources rest : List Word) (codes : ConditionCodes) :
    accumulate combine next (src :: sources) (word :: rest) codes =
      let carried := ascend next next rest (combine src word codes).2
      let combined := accumulate combine next sources carried.1 carried.2
      ((combine src word codes).1 :: combined.1, combined.2) := rfl

/-- Carrying on leaves as many words as there still are partners for. -/
theorem length_eq_length_carried (carryOn : WordOperation) {src word : Word}
    {sources rest : List Word} (hlength : (src :: sources).length = (word :: rest).length)
    (codes : ConditionCodes) :
    sources.length = (ascend carryOn carryOn rest codes).1.length := by
  rw [length_ascend]
  exact Nat.succ.inj hlength

theorem length_accumulate (combine : Word → WordOperation) {sources words : List Word}
    (hlength : sources.length = words.length) (codes : ConditionCodes) :
    (accumulate combine next sources words codes).1.length = words.length := by
  induction sources generalizing words codes with
  | nil => rfl
  | cons src sources ih =>
      obtain ⟨word, rest, rfl⟩ := List.exists_cons_of_length_eq_add_one hlength.symm
      have hrest := length_eq_length_carried next hlength (combine src word codes).2
      rw [accumulate_cons, List.length_cons, List.length_cons, ih hrest, length_ascend]

/-- After each word has been combined with its partner and carried on from, the number is
off the exact result by a multiple of its size. -/
theorem exists_number_accumulate {combine : Word → WordOperation}
    (hcombine : ∀ src, Carries 1 sign (fun _ => src.toNat) (combine src))
    (hnext : Carries 1 sign carryIn next) {sources words : List Word}
    (hlength : sources.length = words.length) (codes : ConditionCodes) :
    ∃ excess : Int, (number (accumulate combine next sources words codes).1 : Int) =
      number words + sign * number sources + (2 ^ 16) ^ words.length * excess := by
  induction sources generalizing words codes with
  | nil =>
      refine ⟨0, ?_⟩
      change (number words : Int) = number words + sign * 0 + _
      ring
  | cons src sources ih =>
      obtain ⟨word, rest, rfl⟩ := List.exists_cons_of_length_eq_add_one hlength.symm
      have hrest := length_eq_length_carried next hlength (combine src word codes).2
      have hlow := hcombine src word codes
      have hcarried := hnext.number_ascend rest (combine src word codes).2
      obtain ⟨excess, hexcess⟩ := ih hrest (ascend next next rest (combine src word codes).2).2
      rw [length_ascend] at hexcess
      -- What the carries take out of the last word joins what the words above are off by.
      refine ⟨excess - sign * (ascend next next rest (combine src word codes).2).2.c.toInt, ?_⟩
      rw [accumulate_cons, number_cons, number_cons, number_cons, List.length_cons]
      push_cast
      linear_combination hlow + 2 ^ 16 * hcarried + 2 ^ 16 * hexcess

theorem number_accumulate {combine : Word → WordOperation}
    (hcombine : ∀ src, Carries 1 sign (fun _ => src.toNat) (combine src))
    (hnext : Carries 1 sign carryIn next) {sources words : List Word}
    (hlength : sources.length = words.length) (codes : ConditionCodes) :
    (number (accumulate combine next sources words codes).1 : Int) =
      (number words + sign * number sources) % 2 ^ (16 * words.length) := by
  obtain ⟨excess, hexcess⟩ := exists_number_accumulate hcombine hnext hlength codes
  have hlt := number_lt (accumulate combine next sources words codes).1
  rw [length_accumulate combine hlength] at hlt
  rw [pow_mul]
  calc (number (accumulate combine next sources words codes).1 : Int)
      = number (accumulate combine next sources words codes).1 %
          (2 ^ 16) ^ words.length := by
        rw [Int.emod_eq_of_lt (Int.natCast_nonneg _) (by exact_mod_cast hlt)]
    _ = (number words + sign * number sources) % (2 ^ 16) ^ words.length := by
        rw [hexcess, Int.add_mul_emod_self_left]

end Accumulate

end LongWord

/-! ## The operations on one word -/

/-- A carry is no more than a word can hold. -/
theorem toInt_bounds (flag : Bool) : 0 ≤ flag.toInt ∧ flag.toInt < 2 ^ 16 := by
  cases flag <;> decide

namespace Arithmetic

open LongWord (Carries carryIn)

theorem MarksCarry.toInt_cases {exact : Reading → Int} {codes : ConditionCodes}
    (hcarry : MarksCarry exact codes) :
    codes.c.toInt = 0 ∧ unsigned.Holds (exact unsigned) ∨
      codes.c.toInt = 1 ∧ ¬unsigned.Holds (exact unsigned) := by
  by_cases hholds : unsigned.Holds (exact unsigned)
  · have hclear : codes.c = false := Bool.eq_false_iff.mpr fun hset => hcarry.mp hset hholds
    rw [hclear]
    exact .inl ⟨rfl, hholds⟩
  · rw [hcarry.mpr hholds]
    exact .inr ⟨rfl, hholds⟩

/-- An operation carries if it adds to its word, or takes from it, no more than a word can
hold, and marks the carry. -/
theorem carries_of_wraps {sign : Int} (hsign : sign = 1 ∨ sign = -1)
    {input : ConditionCodes → Int} (hinput : ∀ codes, 0 ≤ input codes ∧ input codes < 2 ^ 16)
    {operation : WordOperation} {exact : Word → ConditionCodes → Reading → Int}
    (hwraps : ∀ word codes,
      Wraps (exact word codes) (operation word codes).1 (operation word codes).2)
    (hcarry : ∀ word codes, MarksCarry (exact word codes) (operation word codes).2)
    (hexact : ∀ word codes, exact word codes unsigned = word.toNat + sign * input codes) :
    Carries 1 sign input operation := by
  intro word codes
  have hword := word.isLt
  have hbounds := hinput codes
  have hmodulo := (hwraps word codes).modulo unsigned
  have hcases := (hcarry word codes).toInt_cases
  rw [hexact] at hmodulo hcases
  simp only [Reading.Holds] at hcases
  obtain rfl | rfl := hsign <;> omega

theorem carries_add (src : Word) : Carries 1 1 (fun _ => src.toNat) (add src) := by
  apply carries_of_wraps (.inl rfl)
  · exact fun _ => ⟨Int.natCast_nonneg _, Int.ofNat_lt.mpr src.isLt⟩
  · exact fun word codes => (tells_add src word codes).toWraps
  · exact fun word codes => (tells_add src word codes).carry
  · intro word codes
    rw [Int.one_mul]
    rfl

theorem carries_sub (src : Word) : Carries 1 (-1) (fun _ => src.toNat) (sub src) := by
  apply carries_of_wraps (.inr rfl)
  · exact fun _ => ⟨Int.natCast_nonneg _, Int.ofNat_lt.mpr src.isLt⟩
  · exact fun word codes => (tells_sub src word codes).toWraps
  · exact fun word codes => (tells_sub src word codes).carry
  · intro word codes
    rw [Int.neg_one_mul]
    rfl

theorem carries_adc : Carries 1 1 carryIn adc := by
  apply carries_of_wraps (.inl rfl)
  · exact fun codes => toInt_bounds codes.c
  · exact fun word codes => (tells_adc word codes).toWraps
  · exact fun word codes => (tells_adc word codes).carry
  · intro word codes
    rw [Int.one_mul]
    rfl

theorem carries_sbc : Carries 1 (-1) carryIn sbc := by
  apply carries_of_wraps (.inr rfl)
  · exact fun codes => toInt_bounds codes.c
  · exact wraps_sbc
  · exact marksCarry_sbc
  · intro word codes
    rw [Int.neg_one_mul]
    rfl

end Arithmetic

namespace LongWord

/-- Adds one number to another, word by word. -/
def add (sources words : List Word) (codes : ConditionCodes) : List Word × ConditionCodes :=
  accumulate Arithmetic.add Arithmetic.adc sources words codes

/-- Takes one number from another, word by word. -/
def sub (sources words : List Word) (codes : ConditionCodes) : List Word × ConditionCodes :=
  accumulate Arithmetic.sub Arithmetic.sbc sources words codes

/-- Adding and subtracting word by word, with carries taken on each time, leave the sum and
the difference of the two numbers modulo their size, whatever the condition codes were at
the start. -/
theorem number_add_and_number_sub {sources words : List Word}
    (hlength : sources.length = words.length) (codes : ConditionCodes) :
    ((add sources words codes).1.length = words.length ∧
        number (add sources words codes).1 =
          (number words + number sources) % 2 ^ (16 * words.length)) ∧
      (sub sources words codes).1.length = words.length ∧
        (number (sub sources words codes).1 : Int) =
          (number words - number sources) % 2 ^ (16 * words.length) := by
  have hsum := number_accumulate Arithmetic.carries_add Arithmetic.carries_adc hlength codes
  have hdifference :=
    number_accumulate Arithmetic.carries_sub Arithmetic.carries_sbc hlength codes
  rw [Int.one_mul] at hsum
  rw [Int.neg_one_mul, ← Int.sub_eq_add_neg] at hdifference
  refine ⟨⟨length_accumulate _ hlength codes, ?_⟩, length_accumulate _ hlength codes, hdifference⟩
  exact_mod_cast hsum

/-- A carry ripples through all words above, and so does a borrow. -/
theorem number_add_and_number_sub_of_ripple :
    ([1, 0, 0] : List Word).length = ([0xFFFF, 0xFFFF, 0] : List Word).length ∧
      number (add [1, 0, 0] [0xFFFF, 0xFFFF, 0] .allSet).1 = 2 ^ 32 ∧
      (number (sub [1, 0, 0] [0, 0, 0] .allSet).1 : Int) = 2 ^ 48 - 1 := by
  have hripple : ([1, 0, 0] : List Word).length = ([0xFFFF, 0xFFFF, 0] : List Word).length := rfl
  have hborrow : ([1, 0, 0] : List Word).length = ([0, 0, 0] : List Word).length := rfl
  have hsum := (number_add_and_number_sub hripple .allSet).1.2
  have hdifference := (number_add_and_number_sub hborrow .allSet).2.2
  exact ⟨hripple, hsum, hdifference⟩

end LongWord

end WordMachine
