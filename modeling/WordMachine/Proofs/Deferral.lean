import WordMachine.Proofs.Rollback

/-!
# Going through a pointer

A deferred mode is its plain mode and one more step: the word that the plain mode finds
is taken as an address.  Where the plain mode fails, so does the deferred mode, in the
same way.  Where the pointer leads out of memory, the deferred mode takes back the move
of its register, but a word that was taken out of the instruction stream stays taken.
-/

namespace WordMachine

namespace AddressingMode

open OperandSpec (takesWord keepsWord)

@[simp]
theorem motion_plain (mode : AddressingMode) : mode.plain.motion = mode.motion := by
  cases mode <;> rfl

@[simp]
theorem takesWord_plain (mode : AddressingMode) (reg : Register) :
    takesWord ⟨mode.plain, reg⟩ = takesWord ⟨mode, reg⟩ := by
  cases mode <;> rfl

variable {mode : AddressingMode}

theorem ne_register_of_isDeferred (hdeferred : mode.isDeferred = true) : mode ≠ .register := by
  rintro rfl
  cases hdeferred

theorem plain_ne_register_of_isDeferred (hdeferred : mode.isDeferred = true) :
    mode.plain ≠ .register := by
  cases mode with
  | autoIncrementDeferred | autoDecrementDeferred | indexDeferred => simp [plain]
  | _ => cases hdeferred

/-- In a deferred mode, what is taken out of the instruction stream is an address or an
index, and not the operand itself, so that it stays taken. -/
theorem keepsWord_iff_of_isDeferred (hdeferred : mode.isDeferred = true) (reg : Register) :
    keepsWord ⟨mode, reg⟩ ↔ takesWord ⟨mode, reg⟩ = true := by
  rw [OperandSpec.takesWord_iff, iff_self_or]
  rintro ⟨rfl, -⟩
  cases hdeferred

end AddressingMode

namespace AddressSpace

open OperandSpec (keepsWord)
open Resolution (settle settle_eq)

variable (space : AddressSpace)

@[simp]
theorem effectiveAddress_plain (mode : AddressingMode) (reg : Register) :
    space.effectiveAddress ⟨mode.plain, reg⟩ = space.effectiveAddress ⟨mode, reg⟩ := by
  cases mode <;> rfl

/-- A pointer is found by finding a word. -/
theorem pointerAt?_eq_bind (address : Word) :
    space.pointerAt? address =
      WordAddress.ofWord address >>= fun found => WordAddress.ofWord (space.wordAt found) := by
  rw [pointerAt?, wordAt?]
  cases WordAddress.ofWord address <;> rfl

section Deferred

variable {mode : AddressingMode} (hdeferred : mode.isDeferred = true) (reg : Register)

include hdeferred

/-- A deferred mode takes the word that its plain mode finds as an address. -/
theorem memoryOperand_of_isDeferred :
    space.memoryOperand ⟨mode, reg⟩ =
      space.memoryOperand ⟨mode.plain, reg⟩ >>= fun found =>
        WordAddress.ofWord (space.wordAt found) := by
  simp only [memoryOperand, hdeferred, mode.isDeferred_plain, effectiveAddress_plain, if_true,
    pointerAt?_eq_bind]
  cases space.effectiveAddress ⟨mode, reg⟩ <;> rfl

/-- A plain mode that some deferred mode goes on from finds a word of memory. -/
theorem locate_plain_of_isDeferred :
    space.locate ⟨mode.plain, reg⟩ = (space.memoryOperand ⟨mode.plain, reg⟩).map .memory :=
  if_neg (AddressingMode.plain_ne_register_of_isDeferred hdeferred)

theorem locate_of_isDeferred :
    space.locate ⟨mode, reg⟩ =
      (space.memoryOperand ⟨mode.plain, reg⟩ >>= fun found =>
        WordAddress.ofWord (space.wordAt found)).map .memory := by
  rw [locate, if_neg (AddressingMode.ne_register_of_isDeferred hdeferred),
    space.memoryOperand_of_isDeferred hdeferred]

variable {reg}

/-- Where the plain mode fails, the deferred mode fails with the same fault. -/
theorem locate_of_plain_fault {fault : MemoryFault}
    (hfault : space.locate ⟨mode.plain, reg⟩ = .error fault) :
    space.locate ⟨mode, reg⟩ = .error fault := by
  rw [space.locate_plain_of_isDeferred hdeferred] at hfault
  rw [space.locate_of_isDeferred hdeferred]
  cases hmemory : space.memoryOperand ⟨mode.plain, reg⟩ with
  | error other =>
      rw [hmemory] at hfault
      exact hfault
  | ok address =>
      rw [hmemory] at hfault
      cases hfault

/-- Where the plain mode finds a location, it is a word of memory, and the deferred mode
goes on from that word. -/
theorem locate_of_plain_found {location : Location}
    (hfound : space.locate ⟨mode.plain, reg⟩ = .ok location) :
    ∃ address, location = .memory address ∧
      space.locate ⟨mode, reg⟩ = (WordAddress.ofWord (space.wordAt address)).map .memory := by
  rw [space.locate_plain_of_isDeferred hdeferred] at hfound
  rw [space.locate_of_isDeferred hdeferred]
  cases hmemory : space.memoryOperand ⟨mode.plain, reg⟩ with
  | error fault =>
      rw [hmemory] at hfound
      cases hfound
  | ok address =>
      rw [hmemory] at hfound
      cases hfound
      exact ⟨address, rfl, rfl⟩

/-- Where the plain mode fails, the deferred mode leaves the same space behind. -/
theorem followed_of_plain_fault {fault : MemoryFault}
    (hfault : space.locate ⟨mode.plain, reg⟩ = .error fault) :
    space.followed ⟨mode, reg⟩ = space.followed ⟨mode.plain, reg⟩ := by
  have hdeeper := space.locate_of_plain_fault hdeferred hfault
  rw [followed, followed, mode.takesWord_plain, hfault, hdeeper]
  rfl

/-- Where the plain mode finds a location, the deferred mode leaves the same space behind,
unless the pointer leads out of memory and nothing stays taken. -/
theorem followed_of_plain_found {location : Location}
    (hfound : space.locate ⟨mode.plain, reg⟩ = .ok location) :
    space.followed ⟨mode, reg⟩ =
      if (space.locate ⟨mode, reg⟩).isOk ∨ keepsWord ⟨mode, reg⟩ then
        space.followed ⟨mode.plain, reg⟩
      else space := by
  have hkeeps := AddressingMode.keepsWord_iff_of_isDeferred hdeferred reg
  have hplain := mode.takesWord_plain reg
  cases htakes : OperandSpec.takesWord ⟨mode, reg⟩ with
  | true =>
      rw [if_pos (.inr (hkeeps.mpr htakes)), followed_of_takesWord space htakes,
        followed_of_takesWord space (hplain.trans htakes)]
  | false =>
      have hleaves : ¬keepsWord ⟨mode, reg⟩ := by
        rw [hkeeps, htakes]
        exact Bool.false_ne_true
      rw [followed_of_not_takesWord space htakes,
        followed_of_not_takesWord space (hplain.trans htakes), hfound, mode.motion_plain]
      simp only [hleaves, or_false]
      rfl

end Deferred

/-- A deferred mode is its plain mode and one dereference.  If the plain mode fails, the
deferred mode fails alike.  If it finds a word of memory, that word is the address at
which the deferred mode looks; when nothing is there, the space is as it was at first,
save for a word of the instruction stream that stays taken. -/
theorem resolve_deferred {mode : AddressingMode} (hdeferred : mode.isDeferred = true)
    (space : AddressSpace) (reg : Register) :
    ∃ found after, space.resolve reg mode.plain = .ok (found, after) ∧
      (∀ fault, found = .error fault → space.resolve reg mode = .ok (.error fault, after)) ∧
      ∀ location, found = .ok location →
        ∃ address pointer, location = .memory address ∧
          space.loadWord address = .ok pointer ∧ after.loadWord address = .ok pointer ∧
          space.resolve reg mode = .ok (settle (WordAddress.ofWord pointer) after
            (if keepsWord ⟨mode, reg⟩ then after else space)) := by
  have hmode := space.resolve_eq ⟨mode, reg⟩
  refine ⟨_, _, space.resolve_eq ⟨mode.plain, reg⟩, ?_, ?_⟩
  · intro fault hfault
    rw [hmode, space.locate_of_plain_fault hdeferred hfault,
      space.followed_of_plain_fault hdeferred hfault]
  · intro location hfound
    obtain ⟨address, hlocation, hpointer⟩ := space.locate_of_plain_found hdeferred hfound
    have hmemory : (space.followed ⟨mode.plain, reg⟩).wordAt address = space.wordAt address := by
      rw [wordAt_congr (space.memory_followed _)]
    refine ⟨address, space.wordAt address, hlocation, space.loadWord_eq address, ?_, ?_⟩
    · rw [loadWord_eq, hmemory]
    · rw [hmode, space.followed_of_plain_found hdeferred hfound, hpointer, settle_eq, ite_or]

/-- A space whose first word leads out of memory when it is taken as a pointer. -/
def astray : AddressSpace := blank.withWord ⟨0, by decide⟩ 0xFFFF

/-- Where a pointer leads out of memory, the program counter stays past it, and any other
register stays before it. -/
theorem resolve_deferred_of_astray :
    AddressingMode.autoIncrementDeferred.isDeferred = true ∧
    astray.resolve .pc .autoIncrementDeferred =
      .ok (.error (.addressOutOfRange 0xFFFF 0xC000), astray.adjust .pc 2) ∧
    astray.resolve .r1 .autoIncrementDeferred =
      .ok (.error (.addressOutOfRange 0xFFFF 0xC000), astray) := by
  have hword : astray.loadWord ⟨0, by decide⟩ = .ok 0xFFFF := by
    rw [loadWord_eq, astray, wordAt_withWord]
  have hlost (reg : Register) (hreg : astray.register reg = 0) :
      astray.resolve reg .autoIncrementDeferred =
        .ok (.error (.addressOutOfRange 0xFFFF 0xC000),
          if keepsWord ⟨.autoIncrementDeferred, reg⟩ then astray.adjust reg 2 else astray) := by
    have hdeferred : AddressingMode.autoIncrementDeferred.isDeferred = true := rfl
    obtain ⟨found, after, hplain, -, hgoes⟩ := resolve_deferred hdeferred astray reg
    have hfirst : astray.resolve reg .autoIncrement =
        .ok (.ok (.memory ⟨0, by decide⟩), astray.adjust reg 2) := by
      simp only [resolve, hreg]
      rfl
    cases hfirst.symm.trans hplain
    obtain ⟨address, pointer, haddress, hload, -, hresolve⟩ := hgoes _ rfl
    cases haddress
    cases hword.symm.trans hload
    exact hresolve
  exact ⟨rfl, hlost .pc rfl, hlost .r1 rfl⟩

end AddressSpace

end WordMachine
