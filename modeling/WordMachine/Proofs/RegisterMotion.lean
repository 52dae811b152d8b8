import WordMachine.Proofs.Operands

/-!
# How far registers move

An operand that is found moves its register by as much as its mode says, and
never around the end of the address range.  The program counter is moved by the
words that operands take out of the instruction stream, and those depend on the
modes alone.
-/

namespace WordMachine

namespace OperandSpec

/-- Whether the operand can move the program counter back. -/
def backsUp (spec : OperandSpec) : Bool :=
  spec.reg == .pc && (spec.mode == .autoDecrement || spec.mode == .autoDecrementDeferred)

/-- How far the operand moves a register other than the program counter, given
what was found. -/
def shift (spec : OperandSpec) (found : Except MemoryFault Location) (reg : Register) : Int :=
  if spec.reg = reg ∧ found.isOk then spec.mode.motion else 0

/-- Where in the instruction stream the next word is, after an operand that was
followed with the stream at `cursor`. -/
def nextCursor (spec : OperandSpec) (cursor : Nat) : Nat :=
  if spec.takesWord ∧ cursor + 1 < Layout.spaceSize then cursor + wordSize else cursor

/-- An operand that takes a word out of the instruction stream moves the program
counter only. -/
theorem shift_of_takesWord {spec : OperandSpec} (htakes : spec.takesWord = true) {reg : Register}
    (hreg : reg ≠ .pc) (found : Except MemoryFault Location) : spec.shift found reg = 0 := by
  obtain ⟨mode, named⟩ := spec
  rw [shift, ite_eq_right_iff]
  rintro ⟨rfl, -⟩
  cases mode with
  | index | indexDeferred => rfl
  | autoIncrement | autoIncrementDeferred => exact absurd (by simpa [takesWord] using htakes) hreg
  | _ => cases htakes

/-- On the program counter, only the modes that are left out here move their
register. -/
theorem motion_eq_zero_of_pc {spec : OperandSpec} (hpc : spec.reg = .pc)
    (htakes : spec.takesWord = false) (hback : spec.backsUp = false) : spec.mode.motion = 0 := by
  obtain ⟨mode, reg⟩ := spec
  cases hpc
  cases mode with
  | register | registerDeferred | index | indexDeferred => rfl
  | autoIncrement | autoIncrementDeferred => cases htakes
  | autoDecrement | autoDecrementDeferred => cases hback

theorem nextCursor_le {spec : OperandSpec} {cursor : Nat} (hcursor : cursor ≤ Layout.spaceSize) :
    spec.nextCursor cursor ≤ Layout.spaceSize := by
  rw [nextCursor]
  split
  · rename_i htaken
    exact htaken.2
  · exact hcursor

/-- An operand takes whole words out of the instruction stream. -/
theorem exists_nextCursor_eq (spec : OperandSpec) (cursor : Nat) :
    ∃ words, spec.nextCursor cursor = cursor + wordSize * words := by
  rw [nextCursor]
  split
  · exact ⟨1, rfl⟩
  · exact ⟨0, rfl⟩

end OperandSpec

/-- Where in the instruction stream the next word is, after operands that were
followed one after the other. -/
def cursorAfter (specs : List OperandSpec) (cursor : Nat) : Nat :=
  specs.foldl (fun cursor spec => spec.nextCursor cursor) cursor

theorem cursorAfter_le (specs : List OperandSpec) {cursor : Nat}
    (hcursor : cursor ≤ Layout.spaceSize) : cursorAfter specs cursor ≤ Layout.spaceSize := by
  induction specs generalizing cursor with
  | nil => exact hcursor
  | cons spec rest ih => exact ih (OperandSpec.nextCursor_le hcursor)

/-- Operands take whole words out of the instruction stream. -/
theorem exists_cursorAfter_eq (specs : List OperandSpec) (cursor : Nat) :
    ∃ words, cursorAfter specs cursor = cursor + wordSize * words := by
  induction specs generalizing cursor with
  | nil => exact ⟨0, rfl⟩
  | cons spec rest ih =>
      obtain ⟨first, hfirst⟩ := spec.exists_nextCursor_eq cursor
      obtain ⟨others, hothers⟩ := ih (spec.nextCursor cursor)
      refine ⟨first + others, ?_⟩
      calc cursorAfter (spec :: rest) cursor
          = spec.nextCursor cursor + wordSize * others := hothers
        _ = cursor + wordSize * (first + others) := by
            rw [hfirst, Nat.mul_add, Nat.add_assoc]

namespace AddressSpace

open AddressingMode (motion)

variable (space : AddressSpace)

/-! ## One operand -/

theorem register_adjust_of_ne {reg other : Register} (hne : reg ≠ other) (amount : Int) :
    (space.adjust reg amount).register other = space.register other := by
  rw [adjust_eq_setRegister, register_setRegister, if_neg hne]

theorem register_advance_of_ne {reg : Register} (hne : reg ≠ .pc) :
    space.advance.register reg = space.register reg := by
  rw [advance]
  split
  · exact space.register_adjust_of_ne hne.symm 2
  · rfl

theorem toNat_register_adjust_forward {reg : Register}
    (hroom : (space.register reg).toNat + 1 < Layout.spaceSize) :
    ((space.adjust reg 2).register reg).toNat = (space.register reg).toNat + 2 := by
  have htwo : BitVec.ofInt 16 2 = 2#16 := rfl
  rw [adjust_eq_setRegister, register_setRegister, if_pos rfl, htwo, BitVec.toNat_add_of_lt]
  · rfl
  · have hsize : Layout.spaceSize = 0xC000 := rfl
    have htwo : (2#16).toNat = 2 := rfl
    omega

theorem toNat_register_adjust_back {reg : Register}
    (hroom : wordSize ≤ (space.register reg).toNat) :
    ((space.adjust reg (-2)).register reg).toNat + 2 = (space.register reg).toNat := by
  rw [register_adjust_back, BitVec.toNat_sub_of_le hroom]
  exact Nat.sub_add_cancel hroom

theorem room_of_isOk_wordAt? {address : Word} (hfound : (space.wordAt? address).isOk = true) :
    address.toNat + 1 < Layout.spaceSize := by
  rwa [isOk_wordAt?, decide_eq_true_eq] at hfound

theorem room_of_isOk_effectiveAddress_back {spec : OperandSpec} (hback : spec.mode.motion = -2)
    (hfound : (space.effectiveAddress spec).isOk = true) :
    wordSize ≤ (space.register spec.reg).toNat := by
  obtain ⟨mode, reg⟩ := spec
  cases mode with
  | autoDecrement | autoDecrementDeferred =>
      by_contra hlow
      rw [effectiveAddress, if_pos (Nat.lt_of_not_le hlow)] at hfound
      cases hfound
  | _ => cases hback

/-- A register that is moved by an operand that was found does not wrap
around. -/
theorem toNat_register_adjust_motion {spec : OperandSpec}
    (hfound : (space.locate spec).isOk = true) :
    (((space.adjust spec.reg spec.mode.motion).register spec.reg).toNat : Int) =
      (space.register spec.reg).toNat + spec.mode.motion := by
  obtain ⟨mode, reg⟩ := spec
  cases mode with
  | autoIncrement =>
      change (Except.map _ (WordAddress.ofWord (space.register reg))).isOk = true at hfound
      rw [isOk_map, WordAddress.ofWord_isOk, decide_eq_true_eq] at hfound
      exact congrArg Int.ofNat (space.toNat_register_adjust_forward hfound)
  | autoIncrementDeferred =>
      change (Except.map _ (space.pointerAt? (space.register reg))).isOk = true at hfound
      rw [isOk_map] at hfound
      have hroom := space.room_of_isOk_wordAt? (isOk_of_isOk_bind hfound)
      exact congrArg Int.ofNat (space.toNat_register_adjust_forward hroom)
  | autoDecrement | autoDecrementDeferred =>
      rw [locate, if_neg (by simp), isOk_map] at hfound
      have hroom := space.room_of_isOk_effectiveAddress_back rfl (isOk_of_isOk_bind hfound)
      have hback : ((space.adjust reg (-2)).register reg).toNat + 2 = (space.register reg).toNat :=
        space.toNat_register_adjust_back hroom
      simp only [motion]
      omega
  | _ =>
      simp only [motion, adjust_zero, Int.add_zero]

/-- Following an operand moves a register other than the program counter by as
much as the operand's mode says, if the operand was found. -/
theorem toNat_register_followed {reg : Register} (hreg : reg ≠ .pc) (spec : OperandSpec) :
    (((space.followed spec).register reg).toNat : Int) =
      (space.register reg).toNat + spec.shift (space.locate spec) reg := by
  cases htakes : spec.takesWord with
  | true =>
      have hshift : spec.shift (space.locate spec) reg = 0 :=
        spec.shift_of_takesWord htakes hreg _
      rw [followed_of_takesWord space htakes, register_advance_of_ne space hreg, hshift,
        Int.add_zero]
  | false =>
      rw [followed_of_not_takesWord space htakes, OperandSpec.shift]
      by_cases hfound : (space.locate spec).isOk
      · rw [if_pos hfound]
        by_cases hnamed : spec.reg = reg
        · subst hnamed
          rw [if_pos ⟨rfl, hfound⟩, space.toNat_register_adjust_motion hfound]
        · rw [if_neg (fun h => hnamed h.1), space.register_adjust_of_ne hnamed, Int.add_zero]
      · rw [if_neg hfound, if_neg (fun h => hfound h.2), Int.add_zero]

theorem toNat_pc_advance :
    space.advance.pc.toNat =
      if space.pc.toNat + 1 < Layout.spaceSize then space.pc.toNat + wordSize
      else space.pc.toNat := by
  rw [advance]
  split
  · rename_i hroom
    exact space.toNat_register_adjust_forward hroom
  · rfl

/-- An operand that cannot move the program counter back moves it past the word
that it takes, if there is one, whatever comes of the operand. -/
theorem toNat_pc_followed {spec : OperandSpec} (hback : spec.backsUp = false) :
    (space.followed spec).pc.toNat = spec.nextCursor space.pc.toNat := by
  cases htakes : spec.takesWord with
  | true =>
      rw [followed_of_takesWord space htakes, toNat_pc_advance, OperandSpec.nextCursor, htakes]
      simp only [true_and]
  | false =>
      have hstays : (space.adjust spec.reg spec.mode.motion).pc = space.pc := by
        by_cases hpc : spec.reg = .pc
        · rw [spec.motion_eq_zero_of_pc hpc htakes hback, adjust_zero]
        · exact space.register_adjust_of_ne hpc _
      rw [followed_of_not_takesWord space htakes, OperandSpec.nextCursor, htakes]
      simp only [Bool.false_eq_true, false_and, if_false]
      split
      · rw [hstays]
      · rfl

/-! ## Several operands -/

/-- How far operands together move a register other than the program counter. -/
def shiftOf (reg : Register) (trail : List (OperandSpec × Except MemoryFault Location)) : Int :=
  trail.foldr (fun step total => step.1.shift step.2 reg + total) 0

theorem shiftOf_cons (reg : Register) (step : OperandSpec × Except MemoryFault Location)
    (rest : List (OperandSpec × Except MemoryFault Location)) :
    shiftOf reg (step :: rest) = step.1.shift step.2 reg + shiftOf reg rest := rfl

theorem toNat_register_followedAll {reg : Register} (hreg : reg ≠ .pc) (specs : List OperandSpec) :
    (((space.followedAll specs).register reg).toNat : Int) =
      (space.register reg).toNat + shiftOf reg (space.trail specs) := by
  induction specs generalizing space with
  | nil => simp [followedAll, trail, shiftOf]
  | cons spec rest ih =>
      -- The operands after the first are followed in the space that it left.
      have hrest := ih (space.followed spec)
      rw [toNat_register_followed space hreg] at hrest
      rw [followedAll_cons, hrest, trail, shiftOf_cons, Int.add_assoc]

theorem toNat_pc_followedAll {specs : List OperandSpec}
    (hback : ∀ spec ∈ specs, spec.backsUp = false) :
    (space.followedAll specs).pc.toNat = cursorAfter specs space.pc.toNat := by
  induction specs generalizing space with
  | nil => rfl
  | cons spec rest ih =>
      rw [List.forall_mem_cons] at hback
      rw [followedAll_cons, ih _ hback.2, space.toNat_pc_followed hback.1]
      rfl

end AddressSpace

end WordMachine
