import WordMachine.Operation.Bitwise
import WordMachine.Operation.Condition
import WordMachine.Proofs.ExactArithmetic

/-!
# Comparing and branching

A comparison subtracts, and the branch conditions read off its condition codes how the
two words are ordered.  The sign of the difference alone does not tell: it is wrong where
the difference overflows, and the signed conditions correct it by the overflow flag.  The
unsigned conditions look at the borrow instead.  Testing a word compares it with zero, and
so does moving it, as far as signed numbers are concerned.
-/

namespace WordMachine

open Reading (signed unsigned)

/-- The conditions that tell two words apart, or order them as signed numbers, hold
exactly if the words are in that order. -/
structure OrdersSigned (left right : Word) (codes : ConditionCodes) : Prop where
  equal : Condition.equal.holds codes = true ↔ left = right
  notEqual : Condition.notEqual.holds codes = true ↔ left ≠ right
  greaterOrEqual : Condition.greaterOrEqual.holds codes = true ↔ left.toInt ≥ right.toInt
  lessThan : Condition.lessThan.holds codes = true ↔ left.toInt < right.toInt
  greaterThan : Condition.greaterThan.holds codes = true ↔ left.toInt > right.toInt
  lessOrEqual : Condition.lessOrEqual.holds codes = true ↔ left.toInt ≤ right.toInt

/-- The conditions that order two words as unsigned numbers hold exactly if the words are
in that order. -/
structure OrdersUnsigned (left right : Word) (codes : ConditionCodes) : Prop where
  higher : Condition.higher.holds codes = true ↔ left.toNat > right.toNat
  lowerOrSame : Condition.lowerOrSame.holds codes = true ↔ left.toNat ≤ right.toNat
  carrySet : Condition.carrySet.holds codes = true ↔ left.toNat < right.toNat
  carryClear : Condition.carryClear.holds codes = true ↔ left.toNat ≥ right.toNat

variable {left right : Word} {codes : ConditionCodes}

/-! ## From flags to conditions -/

/-- The signed conditions depend on the zero flag and on whether the negative flag and the
overflow flag differ. -/
theorem OrdersSigned.of_flags (hzero : codes.z = true ↔ left = right)
    (hless : (codes.n ^^ codes.v) = true ↔ left.toInt < right.toInt) :
    OrdersSigned left right codes := by
  have hequal : left = right ↔ left.toInt = right.toInt := BitVec.toInt_inj.symm
  have hnotEqual : codes.z = false ↔ left ≠ right := by
    rw [← Bool.not_eq_true, hzero]
  have hnotLess : (codes.n ^^ codes.v) = false ↔ ¬left.toInt < right.toInt := by
    rw [← Bool.not_eq_true, hless]
  constructor
  · exact hzero
  · rw [Condition.holds, Bool.not_eq_true', hnotEqual]
  · rw [Condition.holds, Bool.not_eq_true', hnotLess]
    exact Int.not_lt
  · exact hless
  · rw [Condition.holds, Bool.not_eq_true', Bool.or_eq_false_iff, hnotEqual, hnotLess, hequal.ne]
    omega
  · rw [Condition.holds, Bool.or_eq_true, hzero, hless, hequal]
    omega

/-- The unsigned conditions depend on the zero flag and on the carry flag. -/
theorem OrdersUnsigned.of_flags (hzero : codes.z = true ↔ left = right)
    (hlower : codes.c = true ↔ left.toNat < right.toNat) : OrdersUnsigned left right codes := by
  have hequal : left = right ↔ left.toNat = right.toNat := BitVec.toNat_inj.symm
  have hnotEqual : codes.z = false ↔ left ≠ right := by
    rw [← Bool.not_eq_true, hzero]
  have hnotLower : codes.c = false ↔ ¬left.toNat < right.toNat := by
    rw [← Bool.not_eq_true, hlower]
  constructor
  · rw [Condition.holds, Bool.and_eq_true, Bool.not_eq_true', Bool.not_eq_true', hnotLower,
      hnotEqual, hequal.ne]
    omega
  · rw [Condition.holds, Bool.or_eq_true, hlower, hzero, hequal]
    omega
  · exact hlower
  · rw [Condition.holds, Bool.not_eq_true', hnotLower]
    exact Nat.not_lt

namespace Arithmetic

/-! ## From a difference to flags -/

section Difference

variable {exact : Reading → Int} {result : Word}

/-- A difference is zero modulo the word size only if its words are equal. -/
theorem Wraps.zero_iff_eq
    (hwraps : Wraps (fun reading => reading.value left - reading.value right) result codes) :
    codes.z = true ↔ left = right := by
  have hmodulo : (result.toNat : Int) = (left.toNat - right.toNat) % 2 ^ 16 :=
    hwraps.modulo unsigned
  have hleft := left.isLt
  have hright := right.isLt
  have hresult : result = 0 ↔ result.toNat = 0 := BitVec.toNat_inj.symm
  rw [hwraps.zero, hresult, ← BitVec.toNat_inj]
  omega

/-- Where the exact result is less than the word size off zero, its sign is that of the
result unless the result overflows. -/
theorem Wraps.negative_xor_overflow_iff (hwraps : Wraps exact result codes)
    (hoverflow : MarksOverflow exact codes)
    (hrange : -2 ^ 16 ≤ exact signed ∧ exact signed < 2 ^ 16) :
    (codes.n ^^ codes.v) = true ↔ exact signed < 0 := by
  have hresult : -32768 ≤ result.toInt ∧ result.toInt ≤ 32767 := signed.holds_value result
  have hmodulo : result.toInt % 2 ^ 16 = exact signed % 2 ^ 16 :=
    (signed.value_emod result).trans (hwraps.modulo signed)
  have hflag : codes.v = true ↔ ¬(-32768 ≤ exact signed ∧ exact signed ≤ 32767) := hoverflow
  have hxor : (codes.n ^^ codes.v) = true ↔ ¬(codes.n = true ↔ codes.v = true) := by
    rw [bne_iff_ne, ne_eq, Bool.eq_iff_iff]
  rw [hxor, hwraps.negative, hflag]
  omega

theorem ordersSigned_of_difference
    (hwraps : Wraps (fun reading => reading.value left - reading.value right) result codes)
    (hoverflow : MarksOverflow (fun reading => reading.value left - reading.value right) codes) :
    OrdersSigned left right codes := by
  have hleft : -32768 ≤ left.toInt ∧ left.toInt ≤ 32767 := signed.holds_value left
  have hright : -32768 ≤ right.toInt ∧ right.toInt ≤ 32767 := signed.holds_value right
  have hrange : -2 ^ 16 ≤ left.toInt - right.toInt ∧ left.toInt - right.toInt < 2 ^ 16 := by
    omega
  apply OrdersSigned.of_flags hwraps.zero_iff_eq
  rw [hwraps.negative_xor_overflow_iff hoverflow hrange]
  exact ⟨Int.lt_of_sub_neg, Int.sub_neg_of_lt⟩

theorem ordersUnsigned_of_difference
    (htells : Tells (fun reading => reading.value left - reading.value right) result codes) :
    OrdersUnsigned left right codes := by
  apply OrdersUnsigned.of_flags htells.zero_iff_eq
  have hborrow := htells.carry
  rw [MarksCarry, ← usubOverflow_iff, BitVec.usubOverflow, decide_eq_true_eq] at hborrow
  exact hborrow

end Difference

/-! ## The operations that compare -/

section Zero

variable (word : Word) (codes : ConditionCodes)

theorem wraps_describe (v c : Bool) :
    Wraps (fun reading => reading.value word - reading.value 0) word
      { codes.describe word with v := v, c := c } := by
  apply Wraps.of_describe
  intro reading
  rw [reading.value_zero, Int.sub_zero, reading.value_emod]

/-- A word less zero is a word, so nothing overflows. -/
theorem holds_value_sub_zero (reading : Reading) :
    reading.Holds (reading.value word - reading.value 0) := by
  rw [reading.value_zero, Int.sub_zero]
  exact reading.holds_value word

theorem marksOverflow_logical :
    MarksOverflow (fun reading => reading.value word - reading.value 0)
      (Bitwise.logical codes word) :=
  iff_of_false Bool.false_ne_true (not_not_intro (holds_value_sub_zero word signed))

theorem tells_tst :
    Tells (fun reading => reading.value word - reading.value 0) word (Bitwise.tst word codes) where
  toWraps := wraps_describe word codes false false
  overflow := marksOverflow_logical word codes
  carry := iff_of_false Bool.false_ne_true (not_not_intro (holds_value_sub_zero word unsigned))

end Zero

/-- Subtracting the other way round leaves the same condition codes as comparing. -/
theorem codes_sub_eq_cmp (src dst : Word) (codes : ConditionCodes) :
    (sub src dst codes).2 = cmp dst src codes := by
  rw [sub, cmp, BitVec.xor_comm]

/-- After a comparison of two words every branch condition holds exactly if the words are
in the order that it stands for, as signed or as unsigned numbers, and subtracting leaves
the same condition codes.  After a test the conditions order a word and zero, and after a
move those do that tell equality or order signed numbers. -/
theorem conditions_decide_order (left right : Word) (codes : ConditionCodes) :
    (OrdersSigned left right (cmp left right codes) ∧
        OrdersUnsigned left right (cmp left right codes)) ∧
      (sub right left codes).2 = cmp left right codes ∧
      (OrdersSigned left 0 (Bitwise.tst left codes) ∧
        OrdersUnsigned left 0 (Bitwise.tst left codes)) ∧
      OrdersSigned left 0 (Bitwise.mov left codes).2 := by
  have hcmp := tells_cmp left right codes
  have htst := tells_tst left codes
  refine ⟨⟨?_, ?_⟩, codes_sub_eq_cmp right left codes, ⟨?_, ?_⟩, ?_⟩
  · exact ordersSigned_of_difference hcmp.toWraps hcmp.overflow
  · exact ordersUnsigned_of_difference hcmp
  · exact ordersSigned_of_difference htst.toWraps htst.overflow
  · exact ordersUnsigned_of_difference htst
  · exact ordersSigned_of_difference (wraps_describe left codes false codes.c)
      (marksOverflow_logical left codes)

/-- As signed words these two differ by more than a word can hold: the first is the greater
one, but their difference is negative. -/
example : (cmp 0x7FFF 0x8000 .cleared).n = true ∧
    Condition.greaterThan.holds (cmp 0x7FFF 0x8000 .cleared) = true := by decide

end Arithmetic

end WordMachine
