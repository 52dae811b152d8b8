import WordMachine.Instruction.Resolution
import WordMachine.Proofs.AddressSpace

/-!
# What following an operand does

Following an operand finds a location and moves at most one register.  Both
are given here as functions of the space that cannot breach: `locate` is what
is found, and `followed` is what is left behind.  Where the operand takes a
word out of the instruction stream, the move does not depend on what is found.
-/

namespace WordMachine

namespace AddressingMode

/-- How far a mode moves its register once the location is found. -/
def motion : AddressingMode → Int
  | autoIncrement | autoIncrementDeferred => 2
  | autoDecrement | autoDecrementDeferred => -2
  | _ => 0

end AddressingMode

namespace OperandSpec

/-- Whether the operand takes a word out of the instruction stream: an index, an
immediate value or an absolute address. -/
def takesWord (spec : OperandSpec) : Bool :=
  match spec.mode with
  | .index | .indexDeferred => true
  | .autoIncrement | .autoIncrementDeferred => spec.reg == .pc
  | _ => false

end OperandSpec

theorem Resolution.settle_eq (found : Except MemoryFault WordAddress)
    (onSuccess onFault : AddressSpace) :
    settle found onSuccess onFault =
      (found.map .memory, if (found.map Location.memory).isOk then onSuccess else onFault) := by
  cases found <;> rfl

namespace AddressSpace

open AddressingMode (motion)
open OperandSpec (takesWord)
open Resolution (settle_eq)

variable (space : AddressSpace)

/-! ## The instruction stream -/

/-- The space after a word was taken out of the instruction stream, if there was
one to be taken. -/
def advance : AddressSpace :=
  if space.pc.toNat + 1 < Layout.spaceSize then space.adjust .pc 2 else space

theorem isOk_wordAt? (address : Word) :
    (space.wordAt? address).isOk = decide (address.toNat + 1 < Layout.spaceSize) := by
  rw [wordAt?, isOk_map, WordAddress.ofWord_isOk]

theorem advance_eq_ite_isOk :
    space.advance = if (space.wordAt? space.pc).isOk then space.adjust .pc 2 else space := by
  simp only [advance, isOk_wordAt?, decide_eq_true_eq]

theorem nextWord_eq : space.nextWord = .ok (space.wordAt? space.pc, space.advance) := by
  rw [nextWord, readWord_eq, advance_eq_ite_isOk]
  cases space.wordAt? space.pc <;> rfl

/-! ## One operand -/

/-- The address that a mode computes, before the operand is looked for there. -/
def effectiveAddress (spec : OperandSpec) : Except MemoryFault Word :=
  match spec.mode with
  | .autoDecrement | .autoDecrementDeferred =>
      if (space.register spec.reg).toNat < wordSize then .error (.decrementUnderflow spec.reg)
      else .ok (space.register spec.reg - 2)
  | .index | .indexDeferred =>
      (space.wordAt? space.pc).map (space.advance.register spec.reg + ·)
  | _ => .ok (space.register spec.reg)

/-- The word address at which an operand in memory is found.  A deferred mode
finds it in the word at the address that it computes. -/
def memoryOperand (spec : OperandSpec) : Except MemoryFault WordAddress :=
  space.effectiveAddress spec >>= fun address =>
    if spec.mode.isDeferred then space.pointerAt? address else WordAddress.ofWord address

/-- The location at which an operand is found. -/
def locate (spec : OperandSpec) : Except MemoryFault Location :=
  if spec.mode = .register then .ok (.register spec.reg)
  else (space.memoryOperand spec).map .memory

/-- The space after an operand was followed. -/
def followed (spec : OperandSpec) : AddressSpace :=
  if spec.takesWord then space.advance
  else if (space.locate spec).isOk then space.adjust spec.reg spec.mode.motion
  else space

theorem followed_of_takesWord {spec : OperandSpec} (htakes : spec.takesWord = true) :
    space.followed spec = space.advance :=
  if_pos htakes

theorem followed_of_not_takesWord {spec : OperandSpec} (htakes : spec.takesWord = false) :
    space.followed spec =
      if (space.locate spec).isOk then space.adjust spec.reg spec.mode.motion else space :=
  if_neg (by simp [htakes])

/-- Past the end of memory, an operand that takes a word is not found. -/
theorem locate_of_past {spec : OperandSpec} (htakes : spec.takesWord = true)
    (hpast : Layout.spaceSize ≤ space.pc.toNat + 1) :
    space.locate spec = .error (.addressOutOfRange space.pc.toNat Layout.spaceSize) := by
  have hword : WordAddress.ofWord space.pc =
      .error (.addressOutOfRange space.pc.toNat Layout.spaceSize) := dif_neg (Nat.not_lt.mpr hpast)
  have hread : space.wordAt? space.pc =
      .error (.addressOutOfRange space.pc.toNat Layout.spaceSize) := by
    rw [wordAt?, hword]
    rfl
  obtain ⟨mode, reg⟩ := spec
  cases mode with
  | register | registerDeferred | autoDecrement | autoDecrementDeferred => cases htakes
  | autoIncrement =>
      obtain rfl : reg = .pc := beq_iff_eq.mp htakes
      change (WordAddress.ofWord space.pc).map Location.memory = _
      rw [hword]
      rfl
  | autoIncrementDeferred =>
      obtain rfl : reg = .pc := beq_iff_eq.mp htakes
      change (space.wordAt? space.pc >>= WordAddress.ofWord).map Location.memory = _
      rw [hread]
      rfl
  | index =>
      change Except.map Location.memory ((space.wordAt? space.pc).map _ >>= _) = _
      rw [hread]
      rfl
  | indexDeferred =>
      change Except.map Location.memory ((space.wordAt? space.pc).map _ >>= _) = _
      rw [hread]
      rfl

@[simp]
theorem pointerAt?_advance (address : Word) :
    space.advance.pointerAt? address = space.pointerAt? address := by
  rw [advance]
  split <;> rfl

theorem preDecrement_eq (reg : Register) :
    space.preDecrement reg =
      if (space.register reg).toNat < wordSize then .error (.decrementUnderflow reg)
      else .ok (space.adjust reg (-2)) := rfl

theorem register_adjust_back (reg : Register) :
    (space.adjust reg (-2)).register reg = space.register reg - 2 := by
  rw [adjust_eq_setRegister, register_setRegister, if_pos rfl, BitVec.sub_eq_add_neg]
  rfl

theorem adjust_back_adjust (reg : Register) : (space.adjust reg (-2)).adjust reg 2 = space := by
  rw [adjust_adjust]
  exact space.adjust_zero reg

/-- An operand that takes a word out of the instruction stream takes it before
anything else is looked at. -/
theorem resolve_of_takesWord {spec : OperandSpec} (htakes : spec.takesWord = true) :
    space.resolve spec.reg spec.mode = .ok (space.locate spec, space.followed spec) := by
  rw [followed_of_takesWord space htakes]
  obtain ⟨mode, reg⟩ := spec
  cases mode with
  | register | registerDeferred | autoDecrement | autoDecrementDeferred => cases htakes
  | autoIncrement =>
      obtain rfl : reg = .pc := by simpa [takesWord] using htakes
      change _ = Except.ok ((WordAddress.ofWord space.pc).map Location.memory, space.advance)
      simp only [resolve, settle_eq, isOk_map, WordAddress.ofWord_isOk, advance, decide_eq_true_eq]
      rfl
  | autoIncrementDeferred =>
      obtain rfl : reg = .pc := by simpa [takesWord] using htakes
      change _ = Except.ok ((space.pointerAt? space.pc).map Location.memory, space.advance)
      simp only [resolve, nextWord_eq, if_true, ok_bind, pointerAt?, settle_eq, ite_self]
      cases space.wordAt? space.pc <;> rfl
  | index =>
      change _ = Except.ok (Except.map Location.memory
        ((space.wordAt? space.pc).map (space.advance.register reg + ·) >>= WordAddress.ofWord),
        space.advance)
      simp only [resolve, nextWord_eq, ok_bind, settle_eq, ite_self]
      cases space.wordAt? space.pc <;> rfl
  | indexDeferred =>
      change _ = Except.ok (Except.map Location.memory
        ((space.wordAt? space.pc).map (space.advance.register reg + ·) >>= space.pointerAt?),
        space.advance)
      simp only [resolve, nextWord_eq, ok_bind, settle_eq, ite_self, dereference_eq]
      cases space.wordAt? space.pc with
      | error fault => rfl
      | ok offset =>
          simp only [pointerAt?_advance]
          rfl

/-- Any other operand moves its register only when its location is found.  A
register that was moved back beforehand is moved forward again when it is
not. -/
theorem resolve_of_not_takesWord {spec : OperandSpec} (htakes : spec.takesWord = false) :
    space.resolve spec.reg spec.mode = .ok (space.locate spec, space.followed spec) := by
  rw [followed_of_not_takesWord space htakes]
  obtain ⟨mode, reg⟩ := spec
  cases mode with
  | register =>
      simp only [motion, adjust_zero, ite_self]
      rfl
  | registerDeferred =>
      simp only [resolve, settle_eq, motion, adjust_zero, ite_self]
      rfl
  | autoIncrement =>
      simp only [resolve, settle_eq]
      rfl
  | autoIncrementDeferred =>
      have hpc : reg ≠ .pc := by simpa [takesWord] using htakes
      simp only [resolve, if_neg hpc, dereference_eq, ok_bind, settle_eq]
      rfl
  | autoDecrement =>
      simp only [resolve, locate, memoryOperand, effectiveAddress, preDecrement_eq, settle_eq]
      by_cases hlow : (space.register reg).toNat < wordSize
      · simp only [if_pos hlow]
        rfl
      · simp only [if_neg hlow, register_adjust_back, adjust_back_adjust, ok_bind]
        rfl
  | autoDecrementDeferred =>
      simp only [resolve, locate, memoryOperand, effectiveAddress, preDecrement_eq, settle_eq]
      by_cases hlow : (space.register reg).toNat < wordSize
      · simp only [if_pos hlow]
        rfl
      · simp only [if_neg hlow, register_adjust_back, adjust_back_adjust, dereference_eq, ok_bind]
        rfl
  | index | indexDeferred => cases htakes

/-- Following an operand finds what `locate` says and leaves what `followed`
says, and never breaches. -/
theorem resolve_eq (spec : OperandSpec) :
    space.resolve spec.reg spec.mode = .ok (space.locate spec, space.followed spec) := by
  cases htakes : spec.takesWord with
  | true => exact space.resolve_of_takesWord htakes
  | false => exact space.resolve_of_not_takesWord htakes

/-! ## What following an operand keeps -/

/-- Following an operand moves one register or nothing. -/
theorem exists_followed_eq_adjust (spec : OperandSpec) :
    ∃ reg amount, space.followed spec = space.adjust reg amount := by
  rw [followed, advance]
  split
  · split
    · exact ⟨.pc, 2, rfl⟩
    · exact ⟨.pc, 0, (space.adjust_zero _).symm⟩
  · split
    · exact ⟨_, _, rfl⟩
    · exact ⟨.pc, 0, (space.adjust_zero _).symm⟩

/-- Following an operand keeps all that moving a register keeps. -/
theorem keeps_followed {β : Type} (observe : AddressSpace → β)
    (hadjust : ∀ space reg amount, observe (adjust space reg amount) = observe space)
    (spec : OperandSpec) : observe (space.followed spec) = observe space := by
  obtain ⟨reg, amount, hmoved⟩ := space.exists_followed_eq_adjust spec
  rw [hmoved, hadjust]

theorem memory_followed (spec : OperandSpec) : (space.followed spec).memory = space.memory :=
  space.keeps_followed memory (fun _ _ _ => rfl) spec

/-- Register mode, and no other, finds a register. -/
theorem eq_register_iff_of_locate {spec : OperandSpec} {location : Location}
    (hfound : space.locate spec = .ok location) (reg : Register) :
    location = .register reg ↔ spec = .direct reg := by
  obtain ⟨mode, named⟩ := spec
  rw [locate] at hfound
  split at hfound
  · rename_i hmode
    cases hmode
    cases hfound
    simp [OperandSpec.direct]
  · rename_i hmode
    cases hmemory : space.memoryOperand ⟨mode, named⟩ with
    | error fault =>
        rw [hmemory] at hfound
        cases hfound
    | ok address =>
        rw [hmemory] at hfound
        cases hfound
        simp [OperandSpec.direct, hmode]

/-! ## Auto-increment -/

theorem locate_autoIncrement {reg : Register} {address : WordAddress}
    (haddress : WordAddress.ofWord (space.register reg) = .ok address) :
    space.locate ⟨.autoIncrement, reg⟩ = .ok (.memory address) := by
  change ((WordAddress.ofWord (space.register reg)).map Location.memory) = _
  rw [haddress]
  rfl

/-- A register that points to a word is moved past it. -/
theorem followed_autoIncrement {reg : Register} (hreg : reg ≠ .pc) {address : WordAddress}
    (haddress : WordAddress.ofWord (space.register reg) = .ok address) :
    space.followed ⟨.autoIncrement, reg⟩ = space.adjust reg 2 := by
  have htakes : takesWord ⟨.autoIncrement, reg⟩ = false := by
    simpa [takesWord] using hreg
  rw [space.followed_of_not_takesWord htakes, space.locate_autoIncrement haddress]
  rfl

end AddressSpace

end WordMachine
