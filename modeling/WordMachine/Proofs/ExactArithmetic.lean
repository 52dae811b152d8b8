import Mathlib.Algebra.Ring.Int.Defs
import WordMachine.Operation.Arithmetic

/-!
# Exact results

An operation on words stands for an operation on integers, whichever way the words are
read.  Its result is the exact one modulo the word size.  The overflow flag says that the
exact result is not a signed word, and the carry flag that it is not an unsigned one.
There is one exception: taking the carry from the most negative word sets the overflow
flag even if there is no carry to take.
-/

namespace WordMachine

/-! ## Words as integers -/

/-- The ways in which a word is read as an integer. -/
inductive Reading where
  | signed
  | unsigned
deriving DecidableEq, Repr

namespace Reading

/-- The integer that a word is. -/
def value : Reading → Word → Int
  | signed, word => word.toInt
  | unsigned, word => word.toNat

/-- Whether an integer is the value of a word. -/
def Holds : Reading → Int → Prop
  | signed, exact => -32768 ≤ exact ∧ exact ≤ 32767
  | unsigned, exact => 0 ≤ exact ∧ exact ≤ 65535

instance (reading : Reading) (exact : Int) : Decidable (reading.Holds exact) :=
  match reading with
  | signed | unsigned => inferInstanceAs (Decidable (_ ∧ _))

/-- The word with the least value. -/
def least : Reading → Word
  | signed => 0x8000
  | unsigned => 0

/-- The word with the greatest value. -/
def greatest : Reading → Word
  | signed => 0x7FFF
  | unsigned => 0xFFFF

variable (reading : Reading)

theorem holds_iff (exact : Int) :
    reading.Holds exact ↔
      reading.value reading.least ≤ exact ∧ exact ≤ reading.value reading.greatest := by
  cases reading <;> rfl

theorem value_inj {left right : Word} :
    reading.value left = reading.value right ↔ left = right := by
  cases reading with
  | signed => exact BitVec.toInt_inj
  | unsigned => exact Int.ofNat_inj.trans BitVec.toNat_inj

/-- Both readings of a word agree modulo the word size. -/
theorem value_emod (word : Word) : reading.value word % 2 ^ 16 = word.toNat := by
  have hword : (word.toNat : Int) % 2 ^ 16 = word.toNat :=
    Int.emod_eq_of_lt (Int.natCast_nonneg _) (Int.ofNat_lt.mpr word.isLt)
  cases reading with
  | signed =>
      rw [value, BitVec.toInt_eq_toNat_bmod]
      exact Int.bmod_emod.trans hword
  | unsigned => exact hword

@[simp]
theorem value_zero : reading.value 0 = 0 := by
  cases reading <;> rfl

@[simp]
theorem value_one : reading.value 1 = 1 := by
  cases reading <;> rfl

@[simp]
theorem value_carryWord (codes : ConditionCodes) :
    reading.value (Arithmetic.carryWord codes) = codes.c.toInt := by
  rw [Arithmetic.carryWord]
  cases codes.c
  · exact reading.value_zero
  · exact reading.value_one

theorem holds_value (word : Word) : reading.Holds (reading.value word) := by
  cases reading with
  | signed =>
      have hhigh : word.toInt < 32768 := BitVec.toInt_lt
      exact ⟨BitVec.le_toInt word, Int.le_of_lt_add_one hhigh⟩
  | unsigned =>
      have hhigh : word.toNat < 65536 := word.isLt
      exact ⟨Int.natCast_nonneg _, Int.ofNat_le.mpr (Nat.le_of_lt_succ hhigh)⟩

/-! ### The ends of the range -/

/-- Only the greatest word has no successor. -/
theorem beq_greatest_iff (word : Word) :
    (word == reading.greatest) = true ↔ ¬reading.Holds (reading.value word + 1) := by
  have hrange := (reading.holds_iff _).mp (reading.holds_value word)
  rw [beq_iff_eq, ← reading.value_inj, holds_iff]
  omega

/-- Only the least word has no predecessor. -/
theorem beq_least_iff (word : Word) :
    (word == reading.least) = true ↔ ¬reading.Holds (reading.value word - 1) := by
  have hrange := (reading.holds_iff _).mp (reading.holds_value word)
  rw [beq_iff_eq, ← reading.value_inj, holds_iff]
  omega

theorem beq_greatest_and_carry_iff (word : Word) (carry : Bool) :
    (word == reading.greatest && carry) = true ↔
      ¬reading.Holds (reading.value word + carry.toInt) := by
  cases carry with
  | false => simpa using reading.holds_value word
  | true => simpa using reading.beq_greatest_iff word

theorem beq_least_and_carry_iff (word : Word) (carry : Bool) :
    (word == reading.least && carry) = true ↔
      ¬reading.Holds (reading.value word - carry.toInt) := by
  cases carry with
  | false => simpa using reading.holds_value word
  | true => simpa using reading.beq_least_iff word

/-! ### Sums and differences -/

theorem toNat_add (left right : Word) :
    ((left + right).toNat : Int) = (reading.value left + reading.value right) % 2 ^ 16 := by
  rw [Int.add_emod, value_emod, value_emod, BitVec.toNat_add]
  rfl

theorem toNat_sub (left right : Word) :
    ((left - right).toNat : Int) = (reading.value left - reading.value right) % 2 ^ 16 := by
  have hright := right.isLt
  rw [Int.sub_emod, value_emod, value_emod, BitVec.toNat_sub]
  omega

end Reading

namespace Word

theorem isNegative_eq_msb (word : Word) : word.isNegative = word.msb := by
  have hbit : signBit = BitVec.twoPow 16 15 := rfl
  rw [isNegative, hbit, BitVec.and_twoPow, BitVec.msb_eq_getLsbD_last]
  cases word.getLsbD 15 <;> rfl

theorem isNegative_iff (word : Word) : word.isNegative = true ↔ word.toInt < 0 := by
  rw [isNegative_eq_msb, BitVec.msb_eq_toInt, decide_eq_true_eq]

end Word

namespace Arithmetic

open Reading (signed unsigned)

/-! ## What the flags tell -/

/-- A result is the exact one modulo the word size, in whichever way words are read, and
`n` and `z` describe it. -/
structure Wraps (exact : Reading → Int) (result : Word) (codes : ConditionCodes) : Prop where
  modulo : ∀ reading, (result.toNat : Int) = exact reading % 2 ^ 16
  negative : codes.n = true ↔ result.toInt < 0
  zero : codes.z = true ↔ result = 0

/-- The overflow flag says that the exact result is not a signed word. -/
def MarksOverflow (exact : Reading → Int) (codes : ConditionCodes) : Prop :=
  codes.v = true ↔ ¬signed.Holds (exact signed)

/-- The carry flag says that the exact result is not an unsigned word. -/
def MarksCarry (exact : Reading → Int) (codes : ConditionCodes) : Prop :=
  codes.c = true ↔ ¬unsigned.Holds (exact unsigned)

/-- A result and its condition codes give a full account of the exact result. -/
structure Tells (exact : Reading → Int) (result : Word) (codes : ConditionCodes) : Prop
    extends Wraps exact result codes where
  overflow : MarksOverflow exact codes
  carry : MarksCarry exact codes

theorem Wraps.of_describe {exact : Reading → Int} {result : Word}
    (hmodulo : ∀ reading, (result.toNat : Int) = exact reading % 2 ^ 16)
    (codes : ConditionCodes) (v c : Bool) :
    Wraps exact result { codes.describe result with v := v, c := c } where
  modulo := hmodulo
  negative := result.isNegative_iff
  zero := beq_iff_eq

/-! ## Sums and differences of words -/

section Words

variable (left right word : Word)

/-- A sum overflows if its summands have one sign and the sum has the other. -/
theorem isNegative_sum_iff :
    (~~~(right ^^^ left) &&& (right ^^^ (left + right))).isNegative = true ↔
      ¬signed.Holds (signed.value left + signed.value right) := by
  have hsigns : (~~~(right ^^^ left) &&& (right ^^^ (left + right))).isNegative =
      left.saddOverflow right := by
    rw [Word.isNegative_eq_msb, BitVec.saddOverflow_eq, BitVec.msb_and, BitVec.msb_not,
      BitVec.msb_xor, BitVec.msb_xor]
    cases left.msb <;> cases right.msb <;> cases (left + right).msb <;> rfl
  rw [hsigns]
  simp only [BitVec.saddOverflow, Reading.Holds, Reading.value, Bool.or_eq_true, decide_eq_true_eq]
  omega

/-- A difference overflows if its two words have different signs and the difference does
not have that of the first. -/
theorem isNegative_difference_iff :
    ((left ^^^ right) &&& (left ^^^ (left - right))).isNegative = true ↔
      ¬signed.Holds (signed.value left - signed.value right) := by
  have hsigns : ((left ^^^ right) &&& (left ^^^ (left - right))).isNegative =
      left.ssubOverflow right := by
    rw [Word.isNegative_eq_msb, BitVec.ssubOverflow_eq, BitVec.msb_and, BitVec.msb_xor,
      BitVec.msb_xor]
    cases left.msb <;> cases right.msb <;> cases (left - right).msb <;> rfl
  rw [hsigns]
  simp only [BitVec.ssubOverflow, Reading.Holds, Reading.value, Bool.or_eq_true, decide_eq_true_eq]
  omega

theorem uaddOverflow_iff :
    left.uaddOverflow right = true ↔
      ¬unsigned.Holds (unsigned.value left + unsigned.value right) := by
  simp only [BitVec.uaddOverflow, Reading.Holds, Reading.value, decide_eq_true_eq]
  omega

theorem usubOverflow_iff :
    left.usubOverflow right = true ↔
      ¬unsigned.Holds (unsigned.value left - unsigned.value right) := by
  simp only [BitVec.usubOverflow, Reading.Holds, Reading.value, decide_eq_true_eq]
  omega

/-- Only the least signed word has no opposite among the signed words. -/
theorem neg_beq_least_iff :
    (-word == 0x8000) = true ↔ ¬signed.Holds (0 - signed.value word) := by
  have hopposite : (-word = 0x8000) ↔ word = 0x8000 := BitVec.neg_inj (y := 0x8000)
  have hleast : signed.value 0x8000 = -32768 := rfl
  have hrange : -32768 ≤ signed.value word ∧ signed.value word ≤ 32767 := signed.holds_value word
  rw [beq_iff_eq, hopposite, ← signed.value_inj, hleast, Reading.Holds]
  omega

/-- Only zero has an opposite among the unsigned words. -/
theorem neg_bne_zero_iff : (-word != 0) = true ↔ ¬unsigned.Holds (0 - unsigned.value word) := by
  have hopposite : (-word = 0) ↔ word = 0 := BitVec.neg_eq_zero_iff
  have hrange : 0 ≤ unsigned.value word ∧ unsigned.value word ≤ 65535 := unsigned.holds_value word
  rw [bne_iff_ne, ne_eq, hopposite, ← unsigned.value_inj, Reading.value_zero, Reading.Holds]
  omega

end Words

/-! ## The operations -/

section Operations

variable (src dst : Word) (codes : ConditionCodes)

theorem tells_add :
    Tells (fun reading => reading.value dst + reading.value src) (add src dst codes).1
      (add src dst codes).2 where
  toWraps := .of_describe (fun reading => reading.toNat_add dst src) _ _ _
  overflow := isNegative_sum_iff dst src
  carry := uaddOverflow_iff dst src

theorem tells_sub :
    Tells (fun reading => reading.value dst - reading.value src) (sub src dst codes).1
      (sub src dst codes).2 where
  toWraps := .of_describe (fun reading => reading.toNat_sub dst src) _ _ _
  overflow := by
    rw [MarksOverflow, ← isNegative_difference_iff, BitVec.xor_comm dst src]
    rfl
  carry := usubOverflow_iff dst src

/-- Comparing has no result, and tells of the difference that subtracting the other way
round would give. -/
theorem tells_cmp :
    Tells (fun reading => reading.value src - reading.value dst) (src - dst)
      (cmp src dst codes) where
  toWraps := .of_describe (fun reading => reading.toNat_sub src dst) _ _ _
  overflow := isNegative_difference_iff src dst
  carry := usubOverflow_iff src dst

theorem wraps_inc :
    Wraps (fun reading => reading.value dst + 1) (inc dst codes).1 (inc dst codes).2 := by
  refine .of_describe (fun reading => ?_) _ _ _
  rw [← reading.value_one]
  exact reading.toNat_add dst 1

theorem wraps_dec :
    Wraps (fun reading => reading.value dst - 1) (dec dst codes).1 (dec dst codes).2 := by
  refine .of_describe (fun reading => ?_) _ _ _
  rw [← reading.value_one]
  exact reading.toNat_sub dst 1

theorem tells_neg :
    Tells (fun reading => 0 - reading.value dst) (neg dst codes).1 (neg dst codes).2 where
  toWraps := by
    refine .of_describe (fun reading => ?_) _ _ _
    have hopposite := reading.toNat_sub 0 dst
    rw [reading.value_zero] at hopposite
    exact (congrArg (fun word : Word => (word.toNat : Int)) (BitVec.zero_sub dst)).symm.trans
      hopposite
  overflow := neg_beq_least_iff dst
  carry := neg_bne_zero_iff dst

theorem tells_adc :
    Tells (fun reading => reading.value dst + codes.c.toInt) (adc dst codes).1
      (adc dst codes).2 where
  toWraps := by
    refine .of_describe (fun reading => ?_) _ _ _
    rw [← reading.value_carryWord]
    exact reading.toNat_add dst (carryWord codes)
  overflow := signed.beq_greatest_and_carry_iff dst codes.c
  carry := unsigned.beq_greatest_and_carry_iff dst codes.c

theorem wraps_sbc :
    Wraps (fun reading => reading.value dst - codes.c.toInt) (sbc dst codes).1
      (sbc dst codes).2 := by
  refine .of_describe (fun reading => ?_) _ _ _
  rw [← reading.value_carryWord]
  exact reading.toNat_sub dst (carryWord codes)

theorem marksCarry_sbc :
    MarksCarry (fun reading => reading.value dst - codes.c.toInt) (sbc dst codes).2 :=
  unsigned.beq_least_and_carry_iff dst codes.c

theorem overflow_sbc_iff :
    (sbc dst codes).2.v = true ↔
      ¬signed.Holds (signed.value dst - codes.c.toInt) ∨ dst = 0x8000 ∧ codes.c = false := by
  have hholds : signed.Holds (signed.value dst) := signed.holds_value dst
  change (dst == signed.least) = true ↔ _ ∨ dst = signed.least ∧ _
  cases codes.c with
  | false => simp [hholds]
  | true => simpa using signed.beq_least_iff dst

end Operations

/-- Every arithmetic operation gives the exact result modulo the word size and describes
it by `n` and `z`.  The overflow flag is set if and only if the exact result is not a
signed word, and the carry flag if and only if it is not an unsigned one.  Counting up
and down leave the carry flag alone.  Taking the carry from the most negative word also
sets the overflow flag when there is no carry to take. -/
theorem codes_tell_exact (src dst : Word) (codes : ConditionCodes) :
    Tells (fun reading => reading.value dst + reading.value src)
        (add src dst codes).1 (add src dst codes).2 ∧
      Tells (fun reading => reading.value dst - reading.value src)
        (sub src dst codes).1 (sub src dst codes).2 ∧
      Tells (fun reading => reading.value src - reading.value dst)
        (src - dst) (cmp src dst codes) ∧
      (Wraps (fun reading => reading.value dst + 1) (inc dst codes).1 (inc dst codes).2 ∧
        MarksOverflow (fun reading => reading.value dst + 1) (inc dst codes).2 ∧
        (inc dst codes).2.c = codes.c) ∧
      (Wraps (fun reading => reading.value dst - 1) (dec dst codes).1 (dec dst codes).2 ∧
        MarksOverflow (fun reading => reading.value dst - 1) (dec dst codes).2 ∧
        (dec dst codes).2.c = codes.c) ∧
      Tells (fun reading => 0 - reading.value dst) (neg dst codes).1 (neg dst codes).2 ∧
      Tells (fun reading => reading.value dst + codes.c.toInt)
        (adc dst codes).1 (adc dst codes).2 ∧
      (Wraps (fun reading => reading.value dst - codes.c.toInt)
          (sbc dst codes).1 (sbc dst codes).2 ∧
        MarksCarry (fun reading => reading.value dst - codes.c.toInt) (sbc dst codes).2 ∧
        ((sbc dst codes).2.v = true ↔
          ¬signed.Holds (signed.value dst - codes.c.toInt) ∨
            dst = 0x8000 ∧ codes.c = false)) :=
  ⟨tells_add src dst codes, tells_sub src dst codes, tells_cmp src dst codes,
    ⟨wraps_inc dst codes, signed.beq_greatest_iff dst, rfl⟩,
    ⟨wraps_dec dst codes, signed.beq_least_iff dst, rfl⟩,
    tells_neg dst codes, tells_adc dst codes,
    ⟨wraps_sbc dst codes, marksCarry_sbc dst codes, overflow_sbc_iff dst codes⟩⟩

/-- With no carry to take, the most negative word stays as it is, and is nonetheless
marked as an overflow. -/
theorem overflow_without_carry :
    (sbc 0x8000 .cleared).1 = 0x8000 ∧
      ¬MarksOverflow (fun reading => reading.value 0x8000 - ConditionCodes.cleared.c.toInt)
        (sbc 0x8000 .cleared).2 := by
  refine ⟨rfl, ?_⟩
  rw [MarksOverflow]
  decide

end Arithmetic

end WordMachine
