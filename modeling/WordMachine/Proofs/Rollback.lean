import WordMachine.Proofs.RegisterMotion

/-!
# What following an operand commits

An operand that is found moves its register as its mode says.  One that is not found
leaves every register as it was, also when its register had been moved beforehand.  Only
a word that an index mode, or absolute mode on the program counter, took out of the
instruction stream stays taken.  Nothing but registers is ever touched.
-/

namespace WordMachine

namespace OperandSpec

/-- Whether the operand's register is moved back before anything is looked at. -/
def decrements (spec : OperandSpec) : Prop :=
  spec.mode = .autoDecrement ∨ spec.mode = .autoDecrementDeferred

/-- Whether the operand's address is relative to a word of the instruction stream. -/
def indexes (spec : OperandSpec) : Prop :=
  spec.mode = .index ∨ spec.mode = .indexDeferred

/-- Whether the word that the operand takes out of the instruction stream stays taken
when the operand is not found. -/
def keepsWord (spec : OperandSpec) : Prop :=
  spec.indexes ∨ spec.mode = .autoIncrementDeferred ∧ spec.reg = .pc

instance (spec : OperandSpec) : Decidable spec.keepsWord :=
  inferInstanceAs (Decidable ((_ ∨ _) ∨ _ ∧ _))

/-- An operand takes a word out of the instruction stream if and only if the word stays
taken, or is an immediate value. -/
theorem takesWord_iff (spec : OperandSpec) :
    spec.takesWord = true ↔
      spec.keepsWord ∨ spec.mode = .autoIncrement ∧ spec.reg = .pc := by
  obtain ⟨mode, reg⟩ := spec
  cases mode <;> simp [takesWord, keepsWord, indexes]

theorem takesWord_of_indexes {spec : OperandSpec} (hindexes : spec.indexes) :
    spec.takesWord = true :=
  spec.takesWord_iff.mpr (.inl (.inl hindexes))

/-- On the program counter, an operand that takes a word but no index moves the counter
as its mode says. -/
theorem motion_of_takesWord {spec : OperandSpec} (htakes : spec.takesWord = true)
    (hindexes : ¬spec.indexes) : spec.reg = .pc ∧ spec.mode.motion = 2 := by
  obtain ⟨mode, reg⟩ := spec
  cases mode with
  | autoIncrement | autoIncrementDeferred => exact ⟨beq_iff_eq.mp htakes, rfl⟩
  | index | indexDeferred => simp [indexes] at hindexes
  | register | registerDeferred | autoDecrement | autoDecrementDeferred => cases htakes

end OperandSpec

namespace WordAddress

/-- That a word lies outside memory is no underflow. -/
theorem ofWord_ne_underflow (address : Word) (reg : Register) :
    ofWord address ≠ .error (.decrementUnderflow reg) := by
  rw [ofWord]
  split
  · simp
  · simp

end WordAddress

namespace AddressSpace

variable (space : AddressSpace) (spec : OperandSpec)

/-! ## Faults -/

theorem wordAt?_ne_underflow (address : Word) (reg : Register) :
    space.wordAt? address ≠ .error (.decrementUnderflow reg) := by
  rw [wordAt?]
  cases haddress : WordAddress.ofWord address with
  | error fault =>
      intro hfault
      cases hfault
      exact WordAddress.ofWord_ne_underflow address reg haddress
  | ok checked => simp [Except.map]

theorem pointerAt?_ne_underflow (address : Word) (reg : Register) :
    space.pointerAt? address ≠ .error (.decrementUnderflow reg) := by
  rw [pointerAt?]
  cases hword : space.wordAt? address with
  | error fault =>
      intro hfault
      cases hfault
      exact space.wordAt?_ne_underflow address reg hword
  | ok word => exact WordAddress.ofWord_ne_underflow word reg

/-- Underflow is the fault of a decrement of a register that holds less than the size of
a word, and of nothing else. -/
theorem effectiveAddress_eq_underflow_iff (other : Register) :
    space.effectiveAddress spec = .error (.decrementUnderflow other) ↔
      other = spec.reg ∧ spec.decrements ∧ (space.register spec.reg).toNat < wordSize := by
  obtain ⟨mode, reg⟩ := spec
  cases mode with
  | autoDecrement | autoDecrementDeferred =>
      simp only [effectiveAddress, OperandSpec.decrements]
      split
      · rename_i hlow
        simp [hlow, eq_comm]
      · rename_i hroom
        simp [hroom]
  | index | indexDeferred =>
      have hword := space.wordAt?_ne_underflow space.pc other
      simp only [effectiveAddress, OperandSpec.decrements]
      cases hread : space.wordAt? space.pc with
      | error fault =>
          rw [hread] at hword
          simpa [Except.map] using hword
      | ok word => simp [Except.map]
  | register | registerDeferred | autoIncrement | autoIncrementDeferred =>
      simp [effectiveAddress, OperandSpec.decrements]

/-- An underflow is found by computing the address, and not by looking there. -/
theorem memoryOperand_eq_underflow_iff (other : Register) :
    space.memoryOperand spec = .error (.decrementUnderflow other) ↔
      space.effectiveAddress spec = .error (.decrementUnderflow other) := by
  rw [memoryOperand]
  cases space.effectiveAddress spec with
  | error fault => simp [bind, Except.bind]
  | ok address =>
      rw [ok_bind]
      split
      · simp [space.pointerAt?_ne_underflow]
      · simp [WordAddress.ofWord_ne_underflow]

theorem locate_eq_underflow_iff (other : Register) :
    space.locate spec = .error (.decrementUnderflow other) ↔
      other = spec.reg ∧ spec.decrements ∧ (space.register spec.reg).toNat < wordSize := by
  rw [← effectiveAddress_eq_underflow_iff, ← memoryOperand_eq_underflow_iff, locate]
  split
  · rename_i hmode
    rw [memoryOperand_eq_underflow_iff, effectiveAddress_eq_underflow_iff,
      OperandSpec.decrements, hmode]
    simp
  · cases space.memoryOperand spec with
    | error fault => simp [Except.map]
    | ok address => simp [Except.map]

/-! ## Registers -/

theorem register_followed_of_ne {other : Register} (hreg : other ≠ spec.reg) (hpc : other ≠ .pc) :
    (space.followed spec).register other = space.register other := by
  cases htakes : spec.takesWord with
  | true => rw [followed_of_takesWord space htakes, space.register_advance_of_ne hpc]
  | false =>
      rw [followed_of_not_takesWord space htakes]
      split
      · exact space.register_adjust_of_ne hreg.symm _
      · rfl

variable {space spec}

/-- An operand that is not found moves nothing but the program counter. -/
theorem register_followed_of_fault {fault : MemoryFault}
    (hfault : space.locate spec = .error fault) {other : Register} (hpc : other ≠ .pc) :
    (space.followed spec).register other = space.register other := by
  cases htakes : spec.takesWord with
  | true => rw [followed_of_takesWord space htakes, space.register_advance_of_ne hpc]
  | false =>
      rw [followed_of_not_takesWord space htakes, hfault]
      rfl

/-- An operand that is not found leaves the program counter past the word that stays
taken, if there was one to be taken, and where it was otherwise. -/
theorem toNat_pc_followed_of_fault {fault : MemoryFault}
    (hfault : space.locate spec = .error fault) :
    (space.followed spec).pc.toNat =
      if spec.keepsWord ∧ space.pc.toNat + 1 < Layout.spaceSize then space.pc.toNat + wordSize
      else space.pc.toNat := by
  cases htakes : spec.takesWord with
  | false =>
      have hkeeps : ¬spec.keepsWord := fun hkeeps =>
        Bool.false_ne_true (htakes.symm.trans (spec.takesWord_iff.mpr (.inl hkeeps)))
      rw [if_neg (fun h => hkeeps h.1), followed_of_not_takesWord space htakes, hfault]
      rfl
  | true =>
      rw [followed_of_takesWord space htakes, toNat_pc_advance]
      obtain hkeeps | ⟨hmode, hpc⟩ := spec.takesWord_iff.mp htakes
      · simp only [hkeeps, true_and]
      · -- An immediate value is found wherever there is a word to be taken.
        have hnone : ¬space.pc.toNat + 1 < Layout.spaceSize := by
          intro hroom
          obtain ⟨mode, reg⟩ := spec
          obtain rfl : mode = .autoIncrement := hmode
          obtain rfl : reg = .pc := hpc
          rw [space.locate_autoIncrement (dif_pos hroom)] at hfault
          cases hfault
        rw [if_neg hnone, if_neg (fun h => hnone h.2)]

/-- An operand that takes a word and is found had a word to take. -/
theorem room_of_found {location : Location} (htakes : spec.takesWord = true)
    (hfound : space.locate spec = .ok location) : space.pc.toNat + 1 < Layout.spaceSize := by
  by_contra hpast
  rw [space.locate_of_past htakes (Nat.not_lt.mp hpast)] at hfound
  cases hfound

/-- An operand that takes a word and is found moves the program counter past it, and
nothing else. -/
theorem followed_of_found_of_takesWord {location : Location} (htakes : spec.takesWord = true)
    (hfound : space.locate spec = .ok location) :
    (space.followed spec).pc.toNat = space.pc.toNat + wordSize ∧
      ∀ other, other ≠ .pc → (space.followed spec).register other = space.register other := by
  rw [followed_of_takesWord space htakes]
  refine ⟨?_, fun other hpc => space.register_advance_of_ne hpc⟩
  rw [toNat_pc_advance, if_pos (room_of_found htakes hfound)]

/-- An operand that is found without an index moves its register as its mode says, and
nothing else. -/
theorem followed_of_found_of_not_indexes {location : Location} (hindexes : ¬spec.indexes)
    (hfound : space.locate spec = .ok location) :
    (((space.followed spec).register spec.reg).toNat : Int) =
        (space.register spec.reg).toNat + spec.mode.motion ∧
      ∀ other, other ≠ spec.reg →
        (space.followed spec).register other = space.register other := by
  cases htakes : spec.takesWord with
  | true =>
      obtain ⟨hpc, hmotion⟩ := spec.motion_of_takesWord htakes hindexes
      obtain ⟨hmoved, hothers⟩ := followed_of_found_of_takesWord htakes hfound
      rw [hpc, hmotion]
      exact ⟨congrArg Int.ofNat hmoved, hothers⟩
  | false =>
      have hok : (space.locate spec).isOk = true := by
        rw [hfound]
        rfl
      rw [followed_of_not_takesWord space htakes, if_pos hok]
      exact ⟨space.toNat_register_adjust_motion hok,
        fun other hother => space.register_adjust_of_ne hother.symm _⟩

/-! ## What is committed -/

/-- What following an operand leaves behind, given what was found. -/
structure Commits (space : AddressSpace) (spec : OperandSpec)
    (found : Except MemoryFault Location) (after : AddressSpace) : Prop where
  memory : after.memory = space.memory
  romLength : after.romLength = space.romLength
  codes : after.codes = space.codes
  register : ∀ other, other ≠ spec.reg → other ≠ .pc →
    after.register other = space.register other
  /-- What a fault leaves behind is what was there before, as far as registers other
  than the program counter are concerned. -/
  restored : ∀ fault, found = .error fault → ∀ other, other ≠ .pc →
    after.register other = space.register other
  pcOfFault : ∀ fault, found = .error fault → after.pc.toNat =
    if spec.keepsWord ∧ space.pc.toNat + 1 < Layout.spaceSize then space.pc.toNat + wordSize
    else space.pc.toNat
  underflow : ∀ other, found = .error (.decrementUnderflow other) ↔
    other = spec.reg ∧ spec.decrements ∧ (space.register spec.reg).toNat < wordSize
  moved : ∀ location, found = .ok location → ¬spec.indexes →
    ((after.register spec.reg).toNat : Int) =
        (space.register spec.reg).toNat + spec.mode.motion ∧
      ∀ other, other ≠ spec.reg → after.register other = space.register other
  indexed : ∀ location, found = .ok location → spec.indexes →
    after.pc.toNat = space.pc.toNat + wordSize ∧
      ∀ other, other ≠ .pc → after.register other = space.register other
  /-- Both bytes of a word that is found lie in memory. -/
  inSpace : ∀ address, found = .ok (.memory address) → address.offset + 1 < Layout.spaceSize

/-- Following an operand never breaches.  It touches no more than registers, commits the
moves that its mode asks for when the operand is found, and takes them back when it is
not. -/
theorem resolve_commits (space : AddressSpace) (reg : Register) (mode : AddressingMode) :
    ∃ found after, space.resolve reg mode = .ok (found, after) ∧
      space.Commits ⟨mode, reg⟩ found after := by
  refine ⟨_, _, space.resolve_eq ⟨mode, reg⟩, ?_⟩
  exact {
    memory := space.memory_followed _
    romLength := space.keeps_followed AddressSpace.romLength (fun _ _ _ => rfl) _
    codes := space.keeps_followed AddressSpace.codes (fun _ _ _ => rfl) _
    register := fun _ hreg hpc => space.register_followed_of_ne _ hreg hpc
    restored := fun _ hfault _ hpc => register_followed_of_fault hfault hpc
    pcOfFault := fun _ hfault => toNat_pc_followed_of_fault hfault
    underflow := space.locate_eq_underflow_iff _
    moved := fun _ hfound hindexes => followed_of_found_of_not_indexes hindexes hfound
    indexed := fun _ hfound hindexes =>
      followed_of_found_of_takesWord (OperandSpec.takesWord_of_indexes hindexes) hfound
    inSpace := fun address _ => address.offset_lt }

end AddressSpace

end WordMachine
