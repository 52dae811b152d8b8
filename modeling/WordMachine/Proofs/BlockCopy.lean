import WordMachine.Proofs.Command
import WordMachine.Proofs.StepFrame

/-!
# Copying a block

A program that is nothing but `mov (r1)+, (r2)+` copies as many words as it is long,
from where the first register points to where the second does.  The copying goes
upwards: a block can be copied over itself as long as it is copied downwards, for no
word is then written to before it has been read.  Neither block needs to be aligned.
-/

namespace WordMachine

/-! ## One word -/

namespace AddressSpace

/-- The fields of `mov (r1)+, (r2)+`. -/
def copyFields : Fields := .double ⟨.autoIncrement, .r1⟩ ⟨.autoIncrement, .r2⟩

/-- The registers that `mov (r1)+, (r2)+` moves past a word. -/
def copyPointers : List Register := [.pc, .r1, .r2]

variable {space : AddressSpace} {source target : WordAddress}

section Operands

variable (hsource : WordAddress.ofWord (space.register .r1) = .ok source)
  (htarget : WordAddress.ofWord (space.register .r2) = .ok target)
include hsource htarget

theorem operandsOf_copyFields :
    space.operandsOf copyFields = .ok (.two (.memory source) (.memory target)) := by
  have hkept := space.register_adjust_of_ne (by decide : Register.r1 ≠ .r2) 2
  rw [← hkept] at htarget
  rw [copyFields, operandsOf, locate_autoIncrement _ hsource,
    followed_autoIncrement _ (by decide) hsource, locate_autoIncrement _ htarget]
  rfl

theorem followedAll_copyFields :
    space.followedAll copyFields.specs = (space.adjust .r1 2).adjust .r2 2 := by
  have hspecs : copyFields.specs = [⟨.autoIncrement, .r1⟩, ⟨.autoIncrement, .r2⟩] := rfl
  have hkept := space.register_adjust_of_ne (by decide : Register.r1 ≠ .r2) 2
  rw [← hkept] at htarget
  rw [hspecs, followedAll_cons, followed_autoIncrement _ (by decide) hsource, followedAll_cons,
    followed_autoIncrement _ (by decide) htarget]
  rfl

/-- Copying a word stores it, moves both pointers past it, and describes it in the
condition codes. -/
theorem exists_executed_copyFields :
    ∃ codes, space.executed (.binary .mov) copyFields =
      (((space.adjust .r1 2).adjust .r2 2).setCodes codes).withWord target
        (space.wordAt source) := by
  rw [executed, operandsOf_copyFields hsource htarget]
  simp only [followedAll_copyFields hsource htarget]
  have hstored : (Effect.binary .mov).stored? (.two (.memory source) (.memory target))
      ((space.adjust .r1 2).adjust .r2 2) = some (.memory target, space.wordAt source) :=
    Effect.stored?_eq_some_iff.mpr ⟨rfl, rfl⟩
  exact ⟨_, Effect.after_of_stored hstored⟩

end Operands

/-- The space after the instruction that copies a word. -/
def withCopy (space : AddressSpace) (source target : WordAddress) (codes : ConditionCodes) :
    AddressSpace :=
  ((((space.adjust .pc 2).adjust .r1 2).adjust .r2 2).setCodes codes).withWord target
    (space.wordAt source)

variable {codes : ConditionCodes}

theorem byteAt_withCopy (place : Nat) :
    (space.withCopy source target codes).byteAt place =
      if place = target.offset then space.byteAt source.offset
      else if place = target.offset + 1 then space.byteAt (source.offset + 1)
      else space.byteAt place := by
  rw [withCopy, byteAt_withWord, wordAt, Word.lowByte_ofBytes, Word.highByte_ofBytes]
  rfl

theorem register_withCopy (reg : Register) :
    (space.withCopy source target codes).register reg =
      (((space.adjust .pc 2).adjust .r1 2).adjust .r2 2).register reg := rfl

theorem toNat_register_withCopy {reg : Register} (hpointer : reg ∈ copyPointers)
    (hroom : (space.register reg).toNat + 1 < Layout.spaceSize) :
    ((space.withCopy source target codes).register reg).toNat =
      (space.register reg).toNat + 2 := by
  rw [← space.toNat_register_adjust_forward hroom, register_withCopy]
  simp only [adjust_eq_setRegister, register_setRegister]
  cases reg with
  | pc | r1 | r2 => rfl
  | _ => exact absurd hpointer (by decide)

theorem register_withCopy_of_not_mem {reg : Register} (hreg : reg ∉ copyPointers) :
    (space.withCopy source target codes).register reg = space.register reg := by
  rw [register_withCopy]
  simp only [adjust_eq_setRegister, register_setRegister]
  cases reg with
  | pc | r1 | r2 => exact absurd (by decide) hreg
  | _ => rfl

end AddressSpace

namespace Machine

/-- The word of `mov (r1)+, (r2)+`. -/
def copyWord : Word := 0o012122

/-- The image of the program that copies a number of words. -/
def copyProgram (count : Nat) : List Byte := Word.bytesOf (List.replicate count copyWord)

theorem length_copyProgram (count : Nat) : (copyProgram count).length = 2 * count := by
  rw [copyProgram, Word.length_bytesOf, List.length_replicate]

/-- The instruction that copies a word. -/
def copyInstruction (machine : Machine) : Fetched :=
  ⟨machine.pc, copyWord, .double "mov" 0o010000 .mov, AddressSpace.copyFields,
    .ofDecoding machine.costs⟩

/-- A step that copies a word, from the address in one register to that in the other. -/
theorem exists_copy_step {machine : Machine} (hshaped : machine.table.WellShaped)
    (hinstruction : machine.instruction? = some (copyInstruction machine))
    {source target : WordAddress}
    (hsource : WordAddress.ofWord (machine.space.register .r1) = .ok source)
    (htarget : WordAddress.ofWord (machine.space.register .r2) = .ok target) :
    ∃ transition codes, machine.step = .ok transition ∧
      transition.outcome = .ok .continuing ∧
      transition.machine.table = machine.table ∧
      transition.machine.space = machine.space.withCopy source target codes ∧
      transition.machine.stats.operandFaults = machine.stats.operandFaults := by
  rw [← register_operandSpace_of_ne (by decide)] at hsource htarget
  obtain ⟨codes, hexecuted⟩ := AddressSpace.exists_executed_copyFields hsource htarget
  have hspared : machine.faulted (copyInstruction machine) = false :=
    not_faulted_of_found (AddressSpace.operandsOf_copyFields hsource htarget)
  refine ⟨_, codes, machine.step_of_instruction hshaped hinstruction, rfl, table_executed, ?_, ?_⟩
  · exact (machine.space_executed _).trans hexecuted
  · rw [retire, Statistics.operandFaults_record, operandFaults_executed, hspared]
    rfl

/-! ## The course of the program -/

/-- A machine about to execute the program that copies a number of words. -/
structure AboutToCopy (machine : Machine) (count source target : Nat) : Prop where
  table : machine.table = .standard
  length : machine.space.romLength = 2 * count
  fits : 2 * count ≤ Layout.romSize
  program : ∀ index < count, ∀ address : WordAddress,
    address.offset = Layout.romBase + 2 * index → machine.space.wordAt address = copyWord
  pc : machine.pc.toNat = Layout.romBase
  sourcePointer : (machine.space.register .r1).toNat = source
  targetPointer : (machine.space.register .r2).toNat = target
  sourceFits : source + 2 * count ≤ Layout.spaceSize
  /-- No word of the program is written to. -/
  targetFits : target + 2 * count ≤ Layout.romBase
  /-- No word of the source is written to before it is read. -/
  ahead : target ≤ source ∨ source + 2 * count ≤ target

/-- A machine that has copied some of the words, compared with one about to copy. -/
structure Copied (start : Machine) (source target done : Nat) (machine : Machine) : Prop where
  table : machine.table = start.table
  length : machine.space.romLength = start.space.romLength
  pc : machine.pc.toNat = Layout.romBase + 2 * done
  sourcePointer : (machine.space.register .r1).toNat = source + 2 * done
  targetPointer : (machine.space.register .r2).toNat = target + 2 * done
  register : ∀ reg ∉ AddressSpace.copyPointers,
    machine.space.register reg = start.space.register reg
  bytes : ∀ place, machine.space.byteAt place =
    if target ≤ place ∧ place < target + 2 * done then
      start.space.byteAt (source + (place - target))
    else start.space.byteAt place
  operandFaults : machine.stats.operandFaults = start.stats.operandFaults

variable {start machine : Machine} {count source target done : Nat}

theorem AboutToCopy.copied (hready : start.AboutToCopy count source target) :
    start.Copied source target 0 start where
  table := rfl
  length := rfl
  pc := hready.pc
  sourcePointer := hready.sourcePointer
  targetPointer := hready.targetPointer
  register := fun _ _ => rfl
  bytes := by
    intro place
    rw [if_neg]
    omega
  operandFaults := rfl

namespace Copied

/-- A byte that lies outside the copy is as it was. -/
theorem byteAt_of_outside (hcopied : start.Copied source target done machine) {place : Nat}
    (houtside : place < target ∨ target + 2 * done ≤ place) :
    machine.space.byteAt place = start.space.byteAt place := by
  rw [hcopied.bytes, if_neg]
  omega

/-- A word past the copy is as it was. -/
theorem wordAt_of_past (hcopied : start.Copied source target done machine)
    (address : WordAddress) (hpast : target + 2 * done ≤ address.offset) :
    machine.space.wordAt address = start.space.wordAt address := by
  have hlow := hcopied.byteAt_of_outside (.inr hpast)
  have hhigh := hcopied.byteAt_of_outside (.inr (Nat.le_succ_of_le hpast))
  rw [AddressSpace.wordAt, hlow, hhigh]
  rfl

/-- The copy with one more word in it. -/
theorem byteAt_withCopy (hcopied : start.Copied source target done machine)
    (hahead : target ≤ source ∨ source + 2 * (done + 1) ≤ target)
    (origin destination : WordAddress) (horigin : origin.offset = source + 2 * done)
    (hdestination : destination.offset = target + 2 * done) (codes : ConditionCodes) (place : Nat) :
    (machine.space.withCopy origin destination codes).byteAt place =
      if target ≤ place ∧ place < target + 2 * (done + 1) then
        start.space.byteAt (source + (place - target))
      else start.space.byteAt place := by
  -- Nothing has been copied over the word yet.
  have hlow : machine.space.byteAt (source + 2 * done) = start.space.byteAt (source + 2 * done) :=
    hcopied.byteAt_of_outside (by omega)
  have hhigh : machine.space.byteAt (source + 2 * done + 1) =
      start.space.byteAt (source + 2 * done + 1) :=
    hcopied.byteAt_of_outside (by omega)
  rw [AddressSpace.byteAt_withCopy, horigin, hdestination, hlow, hhigh, hcopied.bytes]
  by_cases hfirst : place = target + 2 * done
  · have hplace : source + 2 * done = source + (place - target) := by omega
    rw [if_pos hfirst, if_pos (by omega), hplace]
  · by_cases hsecond : place = target + 2 * done + 1
    · have hplace : source + 2 * done + 1 = source + (place - target) := by omega
      rw [if_neg hfirst, if_pos hsecond, if_pos (by omega), hplace]
    · have hcover : (target ≤ place ∧ place < target + 2 * (done + 1)) ↔
          (target ≤ place ∧ place < target + 2 * done) := by omega
      rw [if_neg hfirst, if_neg hsecond, if_congr hcover rfl rfl]

/-- Until all words are copied, there are words for all pointers to move past. -/
theorem room (hcopied : start.Copied source target done machine)
    (hready : start.AboutToCopy count source target) (hdone : done < count) {reg : Register}
    (hpointer : reg ∈ AddressSpace.copyPointers) :
    (machine.space.register reg).toNat + 1 < Layout.spaceSize := by
  have hend : Layout.spaceSize = Layout.romBase + Layout.romSize := rfl
  have hfits := hready.fits
  have hsourceFits := hready.sourceFits
  have htargetFits := hready.targetFits
  have hpc : (machine.space.register .pc).toNat = Layout.romBase + 2 * done := hcopied.pc
  have hfrom := hcopied.sourcePointer
  have hto := hcopied.targetPointer
  cases reg with
  | pc | r1 | r2 => omega
  | _ => exact absurd hpointer (by decide)

/-- Until all words are copied, the next instruction copies a word. -/
theorem instruction?_eq (hcopied : start.Copied source target done machine)
    (hready : start.AboutToCopy count source target) (hdone : done < count) :
    machine.instruction? = some (copyInstruction machine) := by
  have hpc := hcopied.pc
  have htarget := hready.targetFits
  have hspace : machine.pc.toNat + 1 < Layout.spaceSize :=
    hcopied.room hready hdone (by decide : Register.pc ∈ AddressSpace.copyPointers)
  have hrunning : machine.pc.toNat < machine.space.programEnd := by
    rw [AddressSpace.programEnd, hcopied.length, hready.length]
    omega
  have hfetch : WordAddress.ofFetch machine.pc = .ok ⟨machine.pc, hspace⟩ := by
    apply WordAddress.ofFetch_of_even
    · omega
    · have hbase : Layout.romBase % 2 = 0 := rfl
      have heven : (Layout.romBase + 2 * done) % 2 = 0 := by omega
      rw [hpc]
      exact heven
  have hword : machine.space.wordAt ⟨machine.pc, hspace⟩ = copyWord := by
    have hpast : target + 2 * done ≤ machine.pc.toNat := by omega
    rw [hcopied.wordAt_of_past ⟨machine.pc, hspace⟩ hpast]
    exact hready.program done hdone ⟨machine.pc, hspace⟩ hpc
  have hdecode : machine.table.decode? copyWord = some (.double "mov" 0o010000 .mov) := by
    rw [hcopied.table, hready.table]
    rfl
  rw [instruction?_eq_some_iff]
  refine ⟨hrunning, _, hfetch, .double "mov" 0o010000 .mov, ?_, ?_⟩
  · rw [hword, hdecode]
  · rw [hword]
    rfl

/-- A machine that has copied one word more. -/
theorem next (hcopied : start.Copied source target done machine)
    (hready : start.AboutToCopy count source target) (hdone : done < count)
    {origin destination : WordAddress} (horigin : origin.val = machine.space.register .r1)
    (hdestination : destination.val = machine.space.register .r2) {codes : ConditionCodes}
    {after : Machine} (htable : after.table = machine.table)
    (hspace : after.space = machine.space.withCopy origin destination codes)
    (hfaults : after.stats.operandFaults = machine.stats.operandFaults) :
    start.Copied source target (done + 1) after := by
  have hahead : target ≤ source ∨ source + 2 * (done + 1) ≤ target := by
    have hahead := hready.ahead
    omega
  have hmoved : ∀ reg ∈ AddressSpace.copyPointers,
      (after.space.register reg).toNat = (machine.space.register reg).toNat + 2 := by
    intro reg hpointer
    rw [hspace, AddressSpace.toNat_register_withCopy hpointer (hcopied.room hready hdone hpointer)]
  constructor
  case table => exact htable.trans hcopied.table
  case length =>
    rw [hspace]
    exact hcopied.length
  case pc => exact (hmoved .pc (by decide)).trans (congrArg (· + 2) hcopied.pc)
  case sourcePointer =>
    exact (hmoved .r1 (by decide)).trans (congrArg (· + 2) hcopied.sourcePointer)
  case targetPointer =>
    exact (hmoved .r2 (by decide)).trans (congrArg (· + 2) hcopied.targetPointer)
  case register =>
    intro reg hreg
    rw [hspace, AddressSpace.register_withCopy_of_not_mem hreg]
    exact hcopied.register reg hreg
  case bytes =>
    intro place
    rw [hspace]
    apply hcopied.byteAt_withCopy hahead
    · rw [WordAddress.offset, horigin, hcopied.sourcePointer]
    · rw [WordAddress.offset, hdestination, hcopied.targetPointer]
  case operandFaults => exact hfaults.trans hcopied.operandFaults

/-- Until all words are copied, a step copies the next word. -/
theorem exists_step (hcopied : start.Copied source target done machine)
    (hready : start.AboutToCopy count source target) (hdone : done < count) :
    ∃ transition, machine.step = .ok transition ∧ transition.outcome = .ok .continuing ∧
      start.Copied source target (done + 1) transition.machine := by
  have hshaped : machine.table.WellShaped := by
    rw [hcopied.table, hready.table]
    exact Table.standard_wellShaped
  have hfrom := hcopied.room hready hdone (by decide : Register.r1 ∈ AddressSpace.copyPointers)
  have hto := hcopied.room hready hdone (by decide : Register.r2 ∈ AddressSpace.copyPointers)
  obtain ⟨transition, codes, hstep, hcontinuing, htable, hspace, hfaults⟩ :=
    exists_copy_step hshaped (hcopied.instruction?_eq hready hdone) (dif_pos hfrom) (dif_pos hto)
  exact ⟨transition, hstep, hcontinuing,
    hcopied.next hready hdone rfl rfl htable hspace hfaults⟩

end Copied

namespace AboutToCopy

variable (hready : start.AboutToCopy count source target)
include hready

theorem exists_copied (hdone : done ≤ count) :
    ∃ reached, start.afterSteps done = .ok reached ∧ start.Copied source target done reached := by
  induction done with
  | zero => exact ⟨start, rfl, hready.copied⟩
  | succ done ih =>
      obtain ⟨reached, hreached, hcopied⟩ := ih (Nat.le_of_succ_le hdone)
      obtain ⟨transition, hstep, -, hnext⟩ := hcopied.exists_step hready hdone
      exact ⟨transition.machine, afterSteps_succ hreached hstep, hnext⟩

/-- Every step that copies a word continues. -/
theorem exists_continuing (hdone : done < count) :
    ∃ reached transition, start.afterSteps done = .ok reached ∧
      reached.step = .ok transition ∧ transition.outcome = .ok .continuing := by
  obtain ⟨reached, hreached, hcopied⟩ := hready.exists_copied (Nat.le_of_lt hdone)
  obtain ⟨transition, hstep, hcontinuing, -⟩ := hcopied.exists_step hready hdone
  exact ⟨reached, transition, hreached, hstep, hcontinuing⟩

/-- When all words are copied, the program has ended. -/
theorem step_eq_finished (hcopied : start.Copied source target count machine) :
    machine.step = .ok ⟨.ok .finished, machine, []⟩ := by
  have hend : machine.space.programEnd = machine.pc.toNat := by
    rw [AddressSpace.programEnd, hcopied.length, hready.length, hcopied.pc]
  exact machine.step_of_ended (Nat.le_of_eq hend)

end AboutToCopy

/-! ## From the loading of the program on -/

/-- Loading the program makes a machine ready whose registers are. -/
theorem aboutToCopy_loaded (htable : machine.table = .standard)
    (hcount : count ≤ Layout.romSize / 2) (hpc : machine.pc.toNat = Layout.romBase)
    (hsource : (machine.space.register .r1).toNat = source)
    (htarget : (machine.space.register .r2).toNat = target)
    (hsourceFits : source + 2 * count ≤ Layout.spaceSize)
    (htargetFits : target + 2 * count ≤ Layout.romBase)
    (hahead : target ≤ source ∨ source + 2 * count ≤ target) :
    (machine.withSpace (machine.space.withImage (copyProgram count))).AboutToCopy
      count source target where
  table := htable
  length := length_copyProgram count
  fits := by omega
  program := by
    intro index hindex address haddress
    have hfits : 2 * (List.replicate count copyWord).length ≤ Layout.romSize := by
      rw [List.length_replicate]
      omega
    apply machine.space.wordAt_withImage hfits haddress
    rw [List.getElem?_replicate, if_pos hindex]
  pc := hpc
  sourcePointer := hsource
  targetPointer := htarget
  sourceFits := hsourceFits
  targetFits := htargetFits
  ahead := hahead

/-- A program of `mov (r1)+, (r2)+` over and over copies a block.  It is loaded, runs
for as many steps as it has words, and ends.  The target then holds what the source
held after the loading, and no other byte has changed; of the registers the two
pointers and the program counter have moved past their blocks, and no operand has
faulted.  The source can lie anywhere, the program included, and can overlap the target
from above. -/
theorem block_copy (htable : machine.table = .standard)
    (hcount : count ≤ Layout.romSize / 2) (hpc : machine.pc.toNat = Layout.romBase)
    (hsource : (machine.space.register .r1).toNat = source)
    (htarget : (machine.space.register .r2).toNat = target)
    (hsourceFits : source + 2 * count ≤ Layout.spaceSize)
    (htargetFits : target + 2 * count ≤ Layout.romBase)
    (hahead : target ≤ source ∨ source + 2 * count ≤ target) :
    ∃ loaded events final, machine.load (copyProgram count) = .ok (.ok (), loaded, events) ∧
      (∀ done < count, ∃ reached transition, loaded.afterSteps done = .ok reached ∧
        reached.step = .ok transition ∧ transition.outcome = .ok .continuing) ∧
      loaded.afterSteps count = .ok final ∧ final.step = .ok ⟨.ok .finished, final, []⟩ ∧
      (∀ index < 2 * count,
        final.space.byteAt (target + index) = loaded.space.byteAt (source + index)) ∧
      (∀ place, place < target ∨ target + 2 * count ≤ place →
        final.space.byteAt place = loaded.space.byteAt place) ∧
      (final.space.register .r1).toNat = source + 2 * count ∧
      (final.space.register .r2).toNat = target + 2 * count ∧
      final.pc.toNat = Layout.romBase + 2 * count ∧
      (∀ reg ∉ [Register.pc, .r1, .r2],
        final.space.register reg = machine.space.register reg) ∧
      final.stats.operandFaults = machine.stats.operandFaults := by
  have hready := aboutToCopy_loaded htable hcount hpc hsource htarget hsourceFits htargetFits hahead
  obtain ⟨events, hload⟩ := machine.load_eq (copyProgram count) ReadFailure
  have hfits : ¬Layout.romSize < (copyProgram count).length := by
    rw [length_copyProgram]
    omega
  rw [AddressSpace.loaded, if_neg hfits] at hload
  obtain ⟨final, hfinal, hcopied⟩ := hready.exists_copied (Nat.le_refl count)
  refine ⟨_, events, final, hload, fun _ hdone => hready.exists_continuing hdone, hfinal,
    hready.step_eq_finished hcopied, ?_, fun _ => hcopied.byteAt_of_outside,
    hcopied.sourcePointer, hcopied.targetPointer, hcopied.pc, ?_, hcopied.operandFaults⟩
  · intro index hindex
    rw [hcopied.bytes, if_pos (by omega), Nat.add_sub_cancel_left]
  · intro reg hreg
    rw [hcopied.register reg hreg, space_withSpace, AddressSpace.register_withImage]

/-- A machine at power-on whose pointers are odd and two bytes apart, on either side of
the start of the video region. -/
def astride : Machine :=
  { new {} with
    space := (((AddressSpace.blank.withWord ⟨0x4001, by decide⟩ 0xBEEF).setRegister .pc
      0x8000).setRegister .r1 0x4001).setRegister .r2 0x3FFF }

/-- Two words are copied over themselves, from the video region to below it. -/
theorem block_copy_of_overlap :
    (astride.table = .standard ∧ 2 ≤ Layout.romSize / 2 ∧ astride.pc.toNat = Layout.romBase ∧
      (astride.space.register .r1).toNat = 0x4001 ∧ (astride.space.register .r2).toNat = 0x3FFF ∧
      0x4001 + 2 * 2 ≤ Layout.spaceSize ∧ 0x3FFF + 2 * 2 ≤ Layout.romBase ∧
      (0x3FFF ≤ 0x4001 ∨ 0x4001 + 2 * 2 ≤ 0x3FFF)) ∧
    ∃ loaded events final, astride.load (copyProgram 2) = .ok (.ok (), loaded, events) ∧
      loaded.afterSteps 2 = .ok final ∧ final.step = .ok ⟨.ok .finished, final, []⟩ ∧
      final.space.byteAt 0x3FFF = loaded.space.byteAt 0x4001 ∧
      final.space.byteAt 0x4001 = loaded.space.byteAt 0x4003 ∧
      (final.space.register .r1).toNat = 0x4005 ∧ final.stats.operandFaults = 0 := by
  have hpc : astride.pc.toNat = Layout.romBase := rfl
  have hsource : (astride.space.register .r1).toNat = 0x4001 := rfl
  have htarget : (astride.space.register .r2).toNat = 0x3FFF := rfl
  obtain ⟨loaded, events, final, hload, -, hfinal, hended, hcopied, -, hr1, -, -, -, hfaults⟩ :=
    block_copy (rfl : astride.table = .standard) (by decide : 2 ≤ Layout.romSize / 2) hpc hsource
      htarget (by decide) (by decide) (.inl (by decide))
  exact ⟨⟨rfl, by decide, hpc, hsource, htarget, by decide, by decide, .inl (by decide)⟩, loaded,
    events, final, hload, hfinal, hended, hcopied 0 (by decide), hcopied 2 (by decide), hr1,
    hfaults⟩

end Machine

end WordMachine
