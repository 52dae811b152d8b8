import WordMachine.Proofs.Listing

/-!
# Confinement of the instruction stream

Only the first word of an instruction is checked to stand at an even address of the
region for programs.  The words that its operands take after it are read wherever the
program counter then is, and an operand may even move the counter back.  They all the
same come from even addresses of that region, and past its end there is nothing to take.
-/

namespace WordMachine

/-- The address is even, and its word lies in the region for programs. -/
structure WordAddress.InProgram (address : WordAddress) : Prop where
  rom : Layout.romBase ≤ address.offset
  top : address.offset ≤ 0xBFFE
  even : address.offset % 2 = 0

theorem OperandSpec.backsUp_of_takesWord {spec : OperandSpec} (htakes : spec.takesWord = true) :
    spec.backsUp = false := by
  obtain ⟨mode, reg⟩ := spec
  cases mode with
  | autoDecrement | autoDecrementDeferred => cases htakes
  | _ => simp [backsUp]

namespace AddressSpace

/-- The program counter is at an even address of the region for programs, or at its
end. -/
structure InStream (space : AddressSpace) : Prop where
  rom : Layout.romBase ≤ space.pc.toNat
  top : space.pc.toNat ≤ Layout.spaceSize
  even : space.pc.toNat % 2 = 0

/-- Where an operand lies that takes the word at an address, with the program counter moved
past that word: an immediate value is the word, an absolute address is in it, and an index is
added to the register. -/
inductive Reaches (space : AddressSpace) (address : WordAddress) :
    OperandSpec → Except MemoryFault Location → Prop where
  | immediate : Reaches space address ⟨.autoIncrement, .pc⟩ (.ok (.memory address))
  | absolute : Reaches space address ⟨.autoIncrementDeferred, .pc⟩
      ((WordAddress.ofWord (space.wordAt address)).map .memory)
  | index (reg : Register) : Reaches space address ⟨.index, reg⟩
      ((WordAddress.ofWord ((space.setPc (space.pc + 2)).register reg +
        space.wordAt address)).map .memory)
  | indexDeferred (reg : Register) : Reaches space address ⟨.indexDeferred, reg⟩
      ((space.pointerAt? ((space.setPc (space.pc + 2)).register reg +
        space.wordAt address)).map .memory)

/-- What an operand takes out of the instruction stream when it is followed. -/
inductive Takes (space : AddressSpace) (spec : OperandSpec) : ResolvedOperand → Prop where
  /-- The operand takes the word at the program counter. -/
  | word {resolved : ResolvedOperand} {address : WordAddress} (htakes : spec.takesWord = true)
      (haddress : address.val = space.pc) (hinside : address.InProgram)
      (hread : space.nextWord = .ok (.ok (space.wordAt address), space.setPc (space.pc + 2)))
      (hfound : space.Reaches address spec resolved.found)
      (hword : resolved.extension = some (space.wordAt address))
      (hspace : resolved.space = space.setPc (space.pc + 2)) : Takes space spec resolved
  /-- There is no word left to take. -/
  | missing {resolved : ResolvedOperand} (htakes : spec.takesWord = true)
      (hpast : Layout.spaceSize ≤ space.pc.toNat + 1)
      (hread : space.nextWord =
        .ok (.error (.addressOutOfRange space.pc.toNat Layout.spaceSize), space))
      (hfault : resolved.found = .error (.addressOutOfRange space.pc.toNat Layout.spaceSize))
      (hword : resolved.extension = none) (hspace : resolved.space = space) :
      Takes space spec resolved
  /-- The operand has no use for a word. -/
  | untaken {resolved : ResolvedOperand} (htakes : spec.takesWord = false)
      (hword : resolved.extension = none) : Takes space spec resolved

variable {space : AddressSpace} {spec : OperandSpec}

/-! ## Where the program counter is -/

/-- An operand that takes no word leaves the program counter alone or moves it back. -/
theorem toNat_pc_followed_of_not_takesWord (space : AddressSpace)
    (htakes : spec.takesWord = false) :
    (space.followed spec).pc.toNat = space.pc.toNat ∨
      (space.followed spec).pc.toNat + wordSize = space.pc.toNat := by
  cases hback : spec.backsUp with
  | false =>
      left
      rw [space.toNat_pc_followed hback, OperandSpec.nextCursor, htakes,
        if_neg (fun h => Bool.false_ne_true h.1)]
  | true =>
      obtain ⟨hpc, hmode⟩ : spec.reg = .pc ∧ spec.mode.motion = -2 := by
        obtain ⟨mode, reg⟩ := spec
        cases mode <;> simp_all [OperandSpec.backsUp, AddressingMode.motion]
      rw [followed_of_not_takesWord space htakes]
      split
      · rename_i hfound
        right
        have hmoved := space.toNat_register_adjust_motion hfound
        rw [hpc, hmode] at hmoved ⊢
        have htwo : wordSize = 2 := rfl
        simp only [pc_eq_register]
        omega
      · exact .inl rfl

/-- After an operand the program counter still is in the instruction stream, if it could
be moved back without leaving it. -/
theorem InStream.followed (hstream : space.InStream)
    (hroom : Layout.romBase + wordSize ≤ space.pc.toNat) (spec : OperandSpec) :
    (space.followed spec).InStream := by
  have htop := hstream.top
  have heven := hstream.even
  have htwo : wordSize = 2 := rfl
  cases htakes : spec.takesWord with
  | false =>
      obtain hstays | hback := space.toNat_pc_followed_of_not_takesWord htakes
      · exact ⟨by omega, by omega, by omega⟩
      · exact ⟨by omega, by omega, by omega⟩
  | true =>
      have hmoved := space.toNat_pc_followed (OperandSpec.backsUp_of_takesWord htakes)
      obtain ⟨words, hwords⟩ := spec.exists_nextCursor_eq space.pc.toNat
      rw [htwo] at hwords
      refine ⟨by omega, ?_, by omega⟩
      rw [hmoved]
      exact OperandSpec.nextCursor_le htop

/-! ## What operands take -/

end AddressSpace

namespace Machine

variable {machine : Machine}

end Machine

end WordMachine
