import Mathlib.Data.List.Induction
import WordMachine.Operation.Bitwise
import WordMachine.Proofs.ExactArithmetic
import WordMachine.Proofs.LongNumber

/-!
# Shifts of long numbers

A shift to the left goes through the words of a number upwards, and one to the right
downwards.  Only the word at which it starts is shifted; all others are rotated and so take
in the bit that the word before let fall out.  The last such bit is the carry that the whole
shift leaves.
-/

namespace WordMachine

open LongWord (Carries carryIn toInt_eq_toNat)

namespace Bitwise

section Shifts

variable (word : Word) (codes : ConditionCodes)

theorem toNat_isNegative : word.isNegative.toNat = word.toNat / 2 ^ 15 := by
  have hword := word.isLt
  rw [Word.isNegative_eq_msb, BitVec.msb_eq_decide]
  by_cases hhigh : 2 ^ 15 ≤ word.toNat
  · rw [decide_eq_true hhigh, Bool.toNat_true]
    omega
  · rw [decide_eq_false hhigh, Bool.toNat_false]
    omega

theorem toNat_lowBit : (word &&& 1 != 0).toNat = word.toNat % 2 := by
  have hbit : (word &&& 1).toNat = word.toNat % 2 :=
    (BitVec.toNat_and word 1).trans (Nat.and_one_is_mod word.toNat)
  by_cases hclear : word &&& 1 = 0
  · rw [hclear] at hbit ⊢
    exact hbit
  · have hset : (word &&& 1).toNat ≠ 0 := fun h => hclear (BitVec.eq_of_toNat_eq h)
    rw [bne_iff_ne.mpr hclear, Bool.toNat_true]
    omega

theorem toNat_rol : (rol word codes).1.toNat = 2 * (word.toNat % 2 ^ 15) + codes.c.toNat := by
  have hshift : (word <<< 1).toNat = 2 ^ 1 * (word.toNat % 2 ^ 15) := by
    rw [BitVec.toNat_shiftLeft, Nat.shiftLeft_eq]
    omega
  have hbit : (if codes.c then 1 else 0 : Word).toNat = codes.c.toNat := by
    cases codes.c <;> rfl
  have hlow : codes.c.toNat < 2 ^ 1 := codes.c.toNat_lt
  change (word <<< 1 ||| (if codes.c then 1 else 0)).toNat = _
  rw [BitVec.toNat_or, hbit, hshift, ← Nat.two_pow_add_eq_or_of_lt hlow, pow_one]

theorem toNat_ror : (ror word codes).1.toNat = word.toNat / 2 + 2 ^ 15 * codes.c.toNat := by
  have hshift : (word >>> 1).toNat = word.toNat / 2 := by
    rw [BitVec.toNat_ushiftRight, Nat.shiftRight_eq_div_pow, pow_one]
  have hbit : (if codes.c then 0x8000 else 0 : Word).toNat = 2 ^ 15 * codes.c.toNat := by
    cases codes.c <;> rfl
  have hlow : word.toNat / 2 < 2 ^ 15 := by omega
  change (word >>> 1 ||| (if codes.c then 0x8000 else 0)).toNat = _
  rw [BitVec.toNat_or, hbit, hshift, Nat.or_comm, ← Nat.two_pow_add_eq_or_of_lt hlow,
    Nat.add_comm]

/-- Rotating left doubles a word and takes the carry in below. -/
theorem carries_rol : Carries 2 1 carryIn rol := by
  intro word codes
  have hresult := toNat_rol word codes
  have hcarry : (rol word codes).2.c.toNat = word.toNat / 2 ^ 15 := toNat_isNegative word
  rw [carryIn, toInt_eq_toNat, toInt_eq_toNat, hresult, hcarry]
  push_cast
  omega

/-- Shifting left is rotating left without a carry. -/
theorem carries_asl : Carries 2 1 (fun _ => 0) asl := by
  intro word codes
  have hrotated := carries_rol word .cleared
  have hresult : (rol word .cleared).1 = (asl word codes).1 := BitVec.or_zero
  rw [hresult] at hrotated
  exact hrotated

/-- Rotating right halves a word, with the carry on top of it. -/
theorem two_mul_ror :
    2 * (ror word codes).1.toNat + (ror word codes).2.c.toNat =
      word.toNat + 2 ^ 16 * codes.c.toNat := by
  have hresult := toNat_ror word codes
  have hcarry : (ror word codes).2.c.toNat = word.toNat % 2 := toNat_lowBit word
  omega

/-- Shifting right halves a signed word. -/
theorem two_mul_asr :
    2 * (asr word codes).1.toInt + (asr word codes).2.c.toNat = word.toInt := by
  have hresult : (asr word codes).1.toInt = word.toInt / 2 := by
    change (word.sshiftRight 1).toInt = _
    rw [BitVec.toInt_sshiftRight, Int.shiftRight_eq_div_pow]
    rfl
  have hcarry : (asr word codes).2.c.toNat = word.toNat % 2 := toNat_lowBit word
  have hmodulo : word.toInt % 2 ^ 16 = word.toNat := Reading.value_emod .signed word
  omega

end Shifts

end Bitwise

namespace LongWord

/-! ## Carrying downwards -/

section Downwards

variable (top : Word) (rest words : List Word) (codes : ConditionCodes)

/-- Only the last word has a sign. -/
theorem toInt_ofWords_concat :
    (ofWords (rest ++ [top])).toInt = number rest + (2 ^ 16) ^ rest.length * top.toInt := by
  have hrest := number_lt rest
  have htop : -32768 ≤ top.toInt ∧ top.toInt ≤ 32767 := Reading.holds_value .signed top
  obtain ⟨excess, hexcess⟩ : ∃ excess, top.toInt = top.toNat + 2 ^ 16 * excess := by
    have hmodulo : top.toInt % 2 ^ 16 = top.toNat := Reading.value_emod .signed top
    exact ⟨top.toInt / 2 ^ 16, by omega⟩
  have hwhole : 2 ^ (16 * (rest ++ [top]).length) = (2 ^ 16) ^ rest.length * 2 ^ 16 := by
    rw [pow_mul, List.length_append, List.length_singleton, pow_succ]
  have hcast : ((2 : Int) ^ 16) ^ rest.length = ((2 ^ 16) ^ rest.length : Nat) := by
    push_cast
    rfl
  rw [BitVec.toInt_eq_toNat_bmod, toNat_ofWords, number_concat, hwhole, hcast]
  generalize (2 ^ 16) ^ rest.length = size at *
  have hleast : (size : Int) * -32768 ≤ size * top.toInt :=
    Int.mul_le_mul_of_nonneg_left htop.1 (Int.natCast_nonneg size)
  have hgreatest : (size : Int) * top.toInt ≤ size * 32767 :=
    Int.mul_le_mul_of_nonneg_left htop.2 (Int.natCast_nonneg size)
  rw [Int.bmod_eq_iff (by omega)]
  refine ⟨by omega, by omega, excess, ?_⟩
  push_cast
  linear_combination (size : Int) * hexcess

/-- Rotating to the right goes through the words from the last one down.  The carry goes in
above it and comes out of the low word. -/
theorem two_mul_number_descend :
    2 * number (descend Bitwise.ror Bitwise.ror words codes).1 +
        (descend Bitwise.ror Bitwise.ror words codes).2.c.toNat =
      number words + (2 ^ 16) ^ words.length * codes.c.toNat := by
  -- By induction from the last word, where the carry goes in.
  induction words using List.reverseRecOn generalizing codes with
  | nil =>
      change 2 * 0 + codes.c.toNat = 0 + (2 ^ 16) ^ 0 * codes.c.toNat
      ring
  | append_singleton rest top ih =>
      rw [descend_concat, number_concat, number_concat, length_descend, List.length_append]
      have htop := Bitwise.two_mul_ror top codes
      have hrest := ih (Bitwise.ror top codes).2
      rw [List.length_singleton]
      zify at *
      linear_combination hrest + (2 ^ 16) ^ rest.length * htop

theorem two_mul_toInt_descend :
    2 * (ofWords (descend Bitwise.asr Bitwise.ror (rest ++ [top]) codes).1).toInt +
        (descend Bitwise.asr Bitwise.ror (rest ++ [top]) codes).2.c.toNat =
      (ofWords (rest ++ [top])).toInt := by
  have htop := Bitwise.two_mul_asr top codes
  have hrest := two_mul_number_descend rest (Bitwise.asr top codes).2
  rw [descend_concat, toInt_ofWords_concat, toInt_ofWords_concat, length_descend]
  zify at hrest
  linear_combination hrest + (2 ^ 16) ^ rest.length * htop

end Downwards

/-! ## What falls out -/

section FallsOut

variable {width : Nat} {bits : BitVec width} {flag : Bool}

/-- What does not fit of twice a long word is the bit at its top. -/
theorem double_and_msb_of_eq (hwidth : 0 < width) {result : Nat} (hresult : result < 2 ^ width)
    (heq : result + 2 ^ width * flag.toNat = 2 * bits.toNat) :
    result = 2 * bits.toNat % 2 ^ width ∧ flag = bits.msb := by
  have heven : 2 ^ (width - 1) * 2 = 2 ^ width := Nat.two_pow_pred_mul_two hwidth
  constructor
  · rw [← heq, Nat.add_mul_mod_self_left, Nat.mod_eq_of_lt hresult]
  · rw [BitVec.msb_eq_decide, Bool.eq_iff_iff, decide_eq_true_eq]
    cases flag with
    | false =>
        rw [Bool.toNat_false] at heq
        exact iff_of_false Bool.false_ne_true (by omega)
    | true =>
        rw [Bool.toNat_true] at heq
        exact iff_of_true rfl (by omega)

/-- What does not fit of half a long word is the bit at its bottom. -/
theorem half_and_lowest_of_eq (hwidth : 0 < width) {half : Int}
    (heq : 2 * half + flag.toNat = bits.toInt) :
    half = bits.toInt / 2 ∧ flag = bits.getLsbD 0 := by
  have heven : 2 ^ (width - 1) * 2 = 2 ^ width := Nat.two_pow_pred_mul_two hwidth
  have hparity : bits.toInt % 2 = bits.toNat % 2 := by
    rw [BitVec.toInt_eq_toNat_cond]
    split <;> omega
  have hflag := flag.toNat_lt
  constructor
  · omega
  · rw [BitVec.getLsbD, Nat.testBit_zero, Bool.eq_iff_iff, decide_eq_true_eq, ← Bool.toNat_eq_one]
    omega

end FallsOut

/-! ## Shifts and rotates -/

/-- Shifts to the left, with nothing coming in. -/
def shiftLeft : List Word → ConditionCodes → List Word × ConditionCodes :=
  ascend Bitwise.asl Bitwise.rol

/-- Shifts to the right, with the sign coming in. -/
def shiftRight : List Word → ConditionCodes → List Word × ConditionCodes :=
  descend Bitwise.asr Bitwise.ror

/-- Rotates to the left through the carry. -/
def rotateLeft : List Word → ConditionCodes → List Word × ConditionCodes :=
  ascend Bitwise.rol Bitwise.rol

/-- Rotates to the right through the carry. -/
def rotateRight : List Word → ConditionCodes → List Word × ConditionCodes :=
  descend Bitwise.ror Bitwise.ror

theorem number_shiftLeft (word : Word) (rest : List Word) (codes : ConditionCodes) :
    number (shiftLeft (word :: rest) codes).1 +
        2 ^ (16 * (word :: rest).length) * (shiftLeft (word :: rest) codes).2.c.toNat =
      2 * number (word :: rest) := by
  have hdouble := Bitwise.carries_asl.number_ascend_cons Bitwise.carries_rol word rest codes
  rw [toInt_eq_toNat] at hdouble
  rw [shiftLeft, pow_mul, List.length_cons]
  zify
  linear_combination hdouble

theorem number_rotateLeft (words : List Word) (codes : ConditionCodes) :
    number (rotateLeft words codes).1 +
        (2 ^ 16) ^ words.length * (rotateLeft words codes).2.c.toNat =
      2 * number words + codes.c.toNat := by
  have hdouble := Bitwise.carries_rol.number_ascend words codes
  rw [toInt_eq_toNat, toInt_eq_toNat] at hdouble
  rw [rotateLeft]
  zify
  linear_combination hdouble

/-- Rotating to the right takes back what rotating to the left has done. -/
theorem rotateRight_rotateLeft (words : List Word) (codes : ConditionCodes) :
    (rotateRight (rotateLeft words codes).1 (rotateLeft words codes).2).1 = words ∧
      (rotateRight (rotateLeft words codes).1 (rotateLeft words codes).2).2.c = codes.c := by
  have hlength : (rotateLeft words codes).1.length = words.length := length_ascend _ _ _ _
  have hleft := number_rotateLeft words codes
  have hright := two_mul_number_descend (rotateLeft words codes).1 (rotateLeft words codes).2
  rw [hlength, hleft, ← rotateRight] at hright
  have hin := codes.c.toNat_lt
  have hout := (rotateRight (rotateLeft words codes).1 (rotateLeft words codes).2).2.c.toNat_lt
  constructor
  · apply eq_of_number_eq
    · rw [rotateRight, length_descend, hlength]
    · omega
  · rw [Bool.eq_iff_iff, ← Bool.toNat_eq_one, ← Bool.toNat_eq_one]
    omega

/-- Shifting a long number to the left doubles it modulo its size, and the bit at its top
becomes the carry.  Shifting it to the right halves it as a signed number, rounding down,
and the bit at its bottom becomes the carry.  Rotating to the left and then to the right
gives back every word and the carry. -/
theorem shifts_double_and_halve {words : List Word} (hwords : words ≠ [])
    (codes : ConditionCodes) :
    ((shiftLeft words codes).1.length = words.length ∧
        number (shiftLeft words codes).1 = 2 * number words % 2 ^ (16 * words.length) ∧
        (shiftLeft words codes).2.c = (ofWords words).msb) ∧
      ((shiftRight words codes).1.length = words.length ∧
        (ofWords (shiftRight words codes).1).toInt = (ofWords words).toInt / 2 ∧
        (shiftRight words codes).2.c = (ofWords words).getLsbD 0) ∧
      (rotateRight (rotateLeft words codes).1 (rotateLeft words codes).2).1 = words ∧
        (rotateRight (rotateLeft words codes).1 (rotateLeft words codes).2).2.c = codes.c := by
  have hwidth : 0 < 16 * words.length :=
    Nat.mul_pos (by decide) (List.length_pos_iff.mpr hwords)
  refine ⟨⟨length_ascend _ _ _ _, ?_⟩, ⟨length_descend _ _ _ _, ?_⟩,
    rotateRight_rotateLeft words codes⟩
  · obtain ⟨word, rest, rfl⟩ := List.exists_cons_of_ne_nil hwords
    have hlt := number_lt (shiftLeft (word :: rest) codes).1
    rw [shiftLeft, length_ascend, ← pow_mul] at hlt
    rw [← toNat_ofWords (word :: rest)]
    apply double_and_msb_of_eq hwidth hlt
    rw [toNat_ofWords]
    exact number_shiftLeft word rest codes
  · obtain ⟨rest, top, rfl⟩ : ∃ rest top, words = rest ++ [top] :=
      ⟨_, _, (List.dropLast_concat_getLast hwords).symm⟩
    exact half_and_lowest_of_eq hwidth (two_mul_toInt_descend top rest codes)

/-- Twice minus three is minus six, and half of it rounded down is minus two. -/
theorem shifts_double_and_halve_of_minus_three :
    ([0xFFFD, 0xFFFF] : List Word) ≠ [] ∧
      number (shiftLeft [0xFFFD, 0xFFFF] .cleared).1 = 0xFFFFFFFA ∧
      (shiftLeft [0xFFFD, 0xFFFF] .cleared).2.c = true ∧
      (ofWords (shiftRight [0xFFFD, 0xFFFF] .cleared).1).toInt = -2 ∧
      (shiftRight [0xFFFD, 0xFFFF] .cleared).2.c = true := by
  have hwords : ([0xFFFD, 0xFFFF] : List Word) ≠ [] := List.cons_ne_nil _ _
  obtain ⟨⟨-, hdouble, htop⟩, ⟨-, hhalf, hbottom⟩, -⟩ := shifts_double_and_halve hwords .cleared
  exact ⟨hwords, hdouble, htop, hhalf, hbottom⟩

end LongWord

end WordMachine
