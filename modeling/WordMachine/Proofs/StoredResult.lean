import WordMachine.Proofs.Execution
import WordMachine.Proofs.LongShift

/-!
# The stored word and its flags

Eighteen of the standard instructions store a word.  It is made of what the operands hold
once all of them have been followed, so it does not matter whether they share a register,
a byte of memory or the program counter.  The condition codes that the instruction leaves
describe the word that is then found at the destination.
-/

namespace WordMachine

/-! ## What the instructions are to store -/

/-- The names of the instructions that store a word. -/
def storingNames : List String :=
  ["mov", "bic", "bis", "add", "sub", "xor", "clr", "com", "inc", "dec", "neg", "adc", "sbc",
    "ror", "rol", "asr", "asl", "swab"]

/-- The word that an instruction makes of the values of its operands, the destination last,
and of the carry.  Shifts and rotates work on a word as a number: the carry stands above it
on the way right, and below it on the way left. -/
def madeBy? (name : String) (values : List Word) (carry : Bool) : Option Word :=
  match name, values with
  | "mov", [src, _] => some src
  | "bic", [src, dst] => some (dst &&& ~~~src)
  | "bis", [src, dst] => some (dst ||| src)
  | "add", [src, dst] => some (dst + src)
  | "sub", [src, dst] => some (dst - src)
  | "xor", [src, dst] => some (dst ^^^ src)
  | "clr", [_] => some 0
  | "com", [dst] => some (~~~dst)
  | "inc", [dst] => some (dst + 1)
  | "dec", [dst] => some (dst - 1)
  | "neg", [dst] => some (0 - dst)
  | "adc", [dst] => some (dst + .ofNat 16 carry.toNat)
  | "sbc", [dst] => some (dst - .ofNat 16 carry.toNat)
  | "ror", [dst] => some (.ofNat 16 ((dst.toNat + 2 ^ 16 * carry.toNat) / 2))
  | "rol", [dst] => some (.ofNat 16 (2 * dst.toNat + carry.toNat))
  | "asr", [dst] => some (.ofInt 16 (dst.toInt / 2))
  | "asl", [dst] => some (.ofNat 16 (2 * dst.toNat))
  | "swab", [dst] => some (dst.rotateLeft 8)
  | _, _ => none

/-- The number that `n` and `z` describe after an instruction made a word: the word, but
only its low byte if its bytes were exchanged. -/
def describedBy (name : String) (result : Word) : Int :=
  if name = "swab" then result.lowByte.toInt else result.toInt

/-- The condition codes say whether what an instruction made is negative or zero. -/
structure Describes (name : String) (result : Word) (codes : ConditionCodes) : Prop where
  negative : codes.n = true ↔ describedBy name result < 0
  zero : codes.z = true ↔ describedBy name result = 0

theorem Describes.of_flags {name : String} {result : Word} {codes : ConditionCodes}
    (hname : name ≠ "swab") (hnegative : codes.n = result.isNegative)
    (hzero : codes.z = (result == 0)) : Describes name result codes := by
  have hwhole : describedBy name result = result.toInt := if_neg hname
  have hvanishes : result = 0 ↔ result.toInt = 0 := BitVec.toInt_inj.symm
  constructor
  · rw [hwhole, hnegative, Word.isNegative_iff]
  · rw [hwhole, hzero, beq_iff_eq, hvanishes]

/-! ## What the operations compute -/

/-- The name of the instruction that performs an operation. -/
def UnaryOperation.mnemonic : UnaryOperation → String
  | clr => "clr"
  | com => "com"
  | inc => "inc"
  | dec => "dec"
  | neg => "neg"
  | adc => "adc"
  | sbc => "sbc"
  | tst => "tst"
  | ror => "ror"
  | rol => "rol"
  | asr => "asr"
  | asl => "asl"
  | swab => "swab"

/-- The name of the instruction that performs an operation. -/
def BinaryOperation.mnemonic : BinaryOperation → String
  | mov => "mov"
  | cmp => "cmp"
  | bit => "bit"
  | bic => "bic"
  | bis => "bis"
  | add => "add"
  | sub => "sub"
  | xor => "xor"

theorem Arithmetic.carryWord_eq (codes : ConditionCodes) :
    carryWord codes = .ofNat 16 codes.c.toNat := by
  rw [carryWord]
  cases codes.c <;> rfl

namespace Bitwise

variable (word : Word) (codes : ConditionCodes)

theorem ror_eq :
    (ror word codes).1 = .ofNat 16 ((word.toNat + 2 ^ 16 * codes.c.toNat) / 2) := by
  have hcarry := codes.c.toNat_lt
  apply BitVec.eq_of_toNat_eq
  rw [toNat_ror, BitVec.toNat_ofNat]
  omega

theorem rol_eq : (rol word codes).1 = .ofNat 16 (2 * word.toNat + codes.c.toNat) := by
  have hcarry := codes.c.toNat_lt
  apply BitVec.eq_of_toNat_eq
  rw [toNat_rol, BitVec.toNat_ofNat]
  omega

theorem asr_eq : (asr word codes).1 = .ofInt 16 (word.toInt / 2) := by
  have hhalved := two_mul_asr word codes
  have hcarry := (asr word codes).2.c.toNat_lt
  have hresult : word.toInt / 2 = (asr word codes).1.toInt := by omega
  rw [hresult, BitVec.ofInt_toInt]

theorem asl_eq : (asl word codes).1 = .ofNat 16 (2 * word.toNat) := by
  apply BitVec.eq_of_toNat_eq
  change (word <<< 1).toNat = _
  rw [BitVec.toNat_shiftLeft, BitVec.toNat_ofNat, Nat.shiftLeft_eq, Nat.mul_comm, pow_one]

/-- Exchanging the two bytes of a word rotates it by one of them. -/
theorem swab_eq : (swab word codes).1 = word.rotateLeft 8 := by
  have hword := word.isLt
  have hhigh : word.toNat / 2 ^ 8 < 2 ^ 8 := by omega
  have hlow : word.toNat <<< 8 % 2 ^ 16 = 2 ^ 8 * (word.toNat % 2 ^ 8) := by
    rw [Nat.shiftLeft_eq]
    omega
  apply BitVec.eq_of_toNat_eq
  calc (swab word codes).1.toNat
      = word.highByte.toNat + 256 * word.lowByte.toNat := Word.toNat_ofBytes _ _
    _ = 2 ^ 8 * (word.toNat % 2 ^ 8) + word.toNat / 2 ^ 8 := by
        rw [Word.highByte, Word.lowByte, BitVec.toNat_setWidth, BitVec.toNat_setWidth,
          BitVec.toNat_ushiftRight, Nat.shiftRight_eq_div_pow]
        omega
    _ = (word.rotateLeft 8).toNat := by
        rw [BitVec.toNat_rotateLeft, hlow, Nat.shiftRight_eq_div_pow,
          ← Nat.two_pow_add_eq_or_of_lt hhigh]

/-- The highest bit of a byte is its sign. -/
theorem byte_and_sign_bne_zero_iff (byte : Byte) :
    (byte &&& 0x80 != 0) = true ↔ byte.toInt < 0 := by
  have hbit : (0x80 : Byte) = BitVec.twoPow 8 7 := rfl
  have hmsb : (byte &&& 0x80 != 0) = byte.msb := by
    rw [hbit, BitVec.and_twoPow, BitVec.msb_eq_getLsbD_last]
    cases byte.getLsbD 7 <;> rfl
  rw [hmsb, BitVec.msb_eq_toInt, decide_eq_true_eq]

/-- The flags after an exchange describe the new low byte. -/
theorem describes_swab : Describes "swab" (swab word codes).1 (swab word codes).2 := by
  have hzero (byte : Byte) : byte = 0 ↔ byte.toInt = 0 := BitVec.toInt_inj.symm
  constructor
  · exact byte_and_sign_bne_zero_iff _
  · exact beq_iff_eq.trans (hzero _)

end Bitwise

namespace UnaryOperation

variable (operation : UnaryOperation) (dst : Word) (codes : ConditionCodes)

theorem compute_eq :
    (operation.compute dst codes).1 = madeBy? operation.mnemonic [dst] codes.c := by
  cases operation with
  | clr | com | inc | dec | tst => rfl
  | neg => exact congrArg some (BitVec.zero_sub dst).symm
  | adc => exact congrArg (fun carry => some (dst + carry)) (Arithmetic.carryWord_eq codes)
  | sbc => exact congrArg (fun carry => some (dst - carry)) (Arithmetic.carryWord_eq codes)
  | ror => exact congrArg some (Bitwise.ror_eq dst codes)
  | rol => exact congrArg some (Bitwise.rol_eq dst codes)
  | asr => exact congrArg some (Bitwise.asr_eq dst codes)
  | asl => exact congrArg some (Bitwise.asl_eq dst codes)
  | swab => exact congrArg some (Bitwise.swab_eq dst codes)

theorem describes_compute {result : Word}
    (hresult : (operation.compute dst codes).1 = some result) :
    Describes operation.mnemonic result (operation.compute dst codes).2 := by
  cases operation with
  | tst => cases hresult
  | clr =>
      cases hresult
      -- Its flags are seen to be those of zero only once the result is.
      have hzero : (Bitwise.clr codes).1 = 0 := rfl
      rw [hzero]
      exact .of_flags (by decide) rfl rfl
  | swab =>
      cases hresult
      exact Bitwise.describes_swab dst codes
  | _ =>
      cases hresult
      exact .of_flags (by decide) rfl rfl

end UnaryOperation

namespace BinaryOperation

variable (operation : BinaryOperation) (src dst : Word) (codes : ConditionCodes)

theorem compute_eq :
    (operation.compute src dst codes).1 = madeBy? operation.mnemonic [src, dst] codes.c := by
  cases operation <;> rfl

theorem describes_compute {result : Word}
    (hresult : (operation.compute src dst codes).1 = some result) :
    Describes operation.mnemonic result (operation.compute src dst codes).2 := by
  cases operation with
  | cmp | bit => cases hresult
  | _ =>
      cases hresult
      exact .of_flags (by decide) rfl rfl

end BinaryOperation

/-! ## What an instruction stores -/

/-- The locations of the operands, the destination last. -/
def Operands.locations : Operands → List Location
  | none | displacement _ => []
  | one dst => [dst]
  | two src dst => [src, dst]

namespace Effect

/-- The name of the instruction that has the effect, if it works on words. -/
def mnemonic? : Effect → Option String
  | control _ | branch _ => none
  | unary operation => some operation.mnemonic
  | binary operation => some operation.mnemonic

variable {effect : Effect} {operands : Operands} {name : String}

/-- An effect with a name is an operation, and its operands are those of the operation. -/
theorem operation_of_mnemonic? (hsuits : effect.suits operands = true)
    (hname : effect.mnemonic? = some name) :
    (∃ operation dst, effect = .unary operation ∧ operands = .one dst ∧
      operation.mnemonic = name) ∨
    (∃ operation src dst, effect = .binary operation ∧ operands = .two src dst ∧
      operation.mnemonic = name) := by
  cases effect with
  | control operation | branch condition => cases hname
  | unary operation =>
      cases operands with
      | one dst => exact .inl ⟨operation, dst, rfl, rfl, Option.some.inj hname⟩
      | _ => cases hsuits
  | binary operation =>
      cases operands with
      | two src dst => exact .inr ⟨operation, src, dst, rfl, rfl, Option.some.inj hname⟩
      | _ => cases hsuits

/-- An effect that writes stores what its instruction makes of the operands, and leaves it
described. -/
theorem exists_stored_of_writes (hsuits : effect.suits operands = true)
    (hname : effect.mnemonic? = some name) (hwrites : effect.writes = true)
    (space : AddressSpace) :
    ∃ dst result, effect.stored? operands space = some (dst, result) ∧
      madeBy? name (operands.locations.map space.valueAt) space.codes.c = some result ∧
      Describes name result (effect.computed operands space).2 := by
  rw [← isSome_computed hsuits space, Option.isSome_iff_exists] at hwrites
  obtain ⟨result, hresult⟩ := hwrites
  obtain ⟨operation, dst, rfl, rfl, rfl⟩ | ⟨operation, src, dst, rfl, rfl, rfl⟩ :=
    operation_of_mnemonic? hsuits hname
  all_goals refine ⟨dst, result, stored?_eq_some_iff.mpr ⟨rfl, hresult⟩, ?_, ?_⟩
  · exact (operation.compute_eq _ _).symm.trans hresult
  · exact operation.describes_compute _ _ hresult
  · exact (operation.compute_eq _ _ _).symm.trans hresult
  · exact operation.describes_compute _ _ _ hresult

end Effect

/-- The standard table gives every operation the name of its instruction, and the
instructions that store a word are those that are to store one. -/
theorem Table.storing_standard :
    ∀ entry ∈ standard.entries, entry.name ∈ storingNames →
      entry.effect.writes = true ∧ entry.effect.mnemonic? = some entry.name := by
  decide

namespace Machine

/-- An instruction that stores a word and finds its operands makes its result of what they
then hold, leaves it at its destination and has the condition codes describe it.  The
source, the destination, the words of the instruction and the program counter may coincide
or overlap in any way. -/
theorem step_stores_and_describes {machine : Machine} (htable : machine.table = .standard)
    {fetched : Fetched} (hinstruction : machine.instruction? = some fetched)
    (hname : fetched.entry.name ∈ storingNames) {resolved : ResolvedOperands}
    (hresolved : machine.operandSpace.resolveOperands fetched.fields = .ok resolved)
    {operands : Operands} (hfound : resolved.operands = .ok operands) :
    ∃ dst result transition,
      operands.destination? = some dst ∧
      madeBy? fetched.entry.name (operands.locations.map resolved.space.valueAt)
        machine.codes.c = some result ∧
      machine.step = .ok transition ∧
      transition.outcome = .ok .continuing ∧
      transition.machine.space.load dst = .ok result ∧
      Describes fetched.entry.name result transition.machine.codes := by
  have hshaped : machine.table.WellShaped := htable ▸ Table.standard_wellShaped
  have hfields := suitsFields_of_instruction? hshaped hinstruction
  have hentry : fetched.entry ∈ Table.standard.entries := by
    obtain ⟨-, _, -, entry, hdecode, rfl⟩ := instruction?_eq_some_iff.mp hinstruction
    exact Table.mem_of_decode (htable ▸ hdecode)
  obtain ⟨hwrites, hmnemonic⟩ := Table.storing_standard fetched.entry hentry hname
  rw [AddressSpace.resolveOperands_eq] at hresolved
  cases hresolved
  have hsuits := Effect.suits_of_operandsOf hfields hfound
  obtain ⟨dst, result, hstored, hmade, hdescribes⟩ := Effect.exists_stored_of_writes hsuits
    hmnemonic hwrites (machine.operandSpace.followedAll fetched.fields.specs)
  have hspace := (machine.space_executed_of_found hfound).trans (Effect.after_of_stored hstored)
  refine ⟨dst, result, _, (Effect.stored?_eq_some_iff.mp hstored).1, ?_,
    machine.step_of_instruction hshaped hinstruction, rfl, ?_, ?_⟩
  · -- The carry is the one before the step: following operands leaves it alone.
    rw [codes_followedAll_operandSpace] at hmade
    exact hmade
  · change (machine.executed fetched).machine.space.load dst = .ok result
    rw [AddressSpace.load_eq, hspace, AddressSpace.valueAt_withValue]
  · change Describes _ result (machine.executed fetched).machine.space.codes
    rw [hspace, AddressSpace.codes_withValue, AddressSpace.codes_setCodes]
    exact hdescribes

/-- Adding the program counter to itself doubles the address of the word after the
instruction. -/
theorem step_stores_and_describes_of_doubled_pc :
    ∃ transition, (facing 0o060707).step = .ok transition ∧
      transition.machine.space.load (.register .pc) = .ok 4 ∧
      Describes "add" 4 transition.machine.codes := by
  have hinstruction := instruction?_facing
    (rfl : Table.standard.decode? 0o060707 = some (.double "add" 0o060000 .add))
  have hname : "add" ∈ storingNames := by decide
  have hfound : (facing 0o060707).operandSpace.operandsOf (.decoded .doubleOperand 0o060707) =
      .ok (.two (.register .pc) (.register .pc)) := rfl
  obtain ⟨dst, result, transition, hdst, hmade, hstep, -, hload, hdescribes⟩ :=
    step_stores_and_describes rfl hinstruction hname (AddressSpace.resolveOperands_eq _ _) hfound
  cases hdst
  cases hmade
  exact ⟨transition, hstep, hload, hdescribes⟩

end Machine

end WordMachine
