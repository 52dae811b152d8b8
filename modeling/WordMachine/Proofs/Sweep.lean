import WordMachine.Proofs.RegisterMotion

/-!
# Sweeping through memory

Auto-increment and auto-decrement, followed over and over from one register, find the
words on one side of the register one after the other.  Once the end of memory is
reached, every further attempt fails, and the register stays where it is.
-/

namespace WordMachine

namespace AddressSpace

open AddressingMode (motion)

/-! ## One word -/

section OneWord

variable {space : AddressSpace} {reg : Register}

/-- Auto-increment finds the word that the register points to and moves on past it. -/
theorem exists_found_autoIncrement (hroom : (space.register reg).toNat + 1 < Layout.spaceSize) :
    ∃ address : WordAddress, address.offset = (space.register reg).toNat ∧
      space.resolve reg .autoIncrement = .ok (.ok (.memory address), space.adjust reg 2) := by
  have hword : WordAddress.ofWord (space.register reg) = .ok ⟨space.register reg, hroom⟩ :=
    dif_pos hroom
  refine ⟨⟨space.register reg, hroom⟩, rfl, ?_⟩
  simp only [resolve, hword]
  rfl

theorem exists_fault_autoIncrement (hpast : Layout.spaceSize ≤ (space.register reg).toNat + 1) :
    ∃ fault, space.resolve reg .autoIncrement = .ok (.error fault, space) := by
  have hword : WordAddress.ofWord (space.register reg) =
      .error (.addressOutOfRange (space.register reg).toNat Layout.spaceSize) :=
    dif_neg (Nat.not_lt.mpr hpast)
  refine ⟨.addressOutOfRange (space.register reg).toNat Layout.spaceSize, ?_⟩
  simp only [resolve, hword]
  rfl

theorem resolve_autoDecrement_eq (hlow : wordSize ≤ (space.register reg).toNat) :
    space.resolve reg .autoDecrement =
      .ok (.settle (WordAddress.ofWord (space.register reg - 2)) (space.adjust reg (-2)) space) := by
  simp only [resolve, preDecrement_eq, if_neg (Nat.not_lt.mpr hlow), register_adjust_back,
    adjust_back_adjust]
  rfl

/-- Auto-decrement moves back by a word and finds the word that the register then points
to. -/
theorem exists_found_autoDecrement (hlow : wordSize ≤ (space.register reg).toNat)
    (hhigh : (space.register reg).toNat ≤ Layout.spaceSize) :
    ∃ address : WordAddress, address.offset + wordSize = (space.register reg).toNat ∧
      space.resolve reg .autoDecrement = .ok (.ok (.memory address), space.adjust reg (-2)) := by
  have hback : (space.register reg - 2).toNat + wordSize = (space.register reg).toNat := by
    rw [BitVec.toNat_sub_of_le hlow]
    exact Nat.sub_add_cancel hlow
  have hroom : (space.register reg - 2).toNat + 1 < Layout.spaceSize := by
    rw [← hback] at hhigh
    exact hhigh
  have hword : WordAddress.ofWord (space.register reg - 2) = .ok ⟨space.register reg - 2, hroom⟩ :=
    dif_pos hroom
  refine ⟨⟨space.register reg - 2, hroom⟩, hback, ?_⟩
  rw [resolve_autoDecrement_eq hlow, hword]
  rfl

/-- Auto-decrement fails both at the lower end of memory and past its upper end. -/
theorem exists_fault_autoDecrement
    (hout : (space.register reg).toNat < wordSize ∨
      Layout.spaceSize < (space.register reg).toNat) :
    ∃ fault, space.resolve reg .autoDecrement = .ok (.error fault, space) := by
  by_cases hlow : (space.register reg).toNat < wordSize
  · refine ⟨.decrementUnderflow reg, ?_⟩
    simp only [resolve, preDecrement_eq, if_pos hlow]
    rfl
  · have hroom := Nat.not_lt.mp hlow
    have hpast : ¬(space.register reg - 2).toNat + 1 < Layout.spaceSize := by
      have hhigh := hout.resolve_left hlow
      have htwo : (2 : Word).toNat = wordSize := rfl
      have hsize : wordSize = 2 := rfl
      rw [BitVec.toNat_sub_of_le hroom]
      omega
    refine ⟨.addressOutOfRange (space.register reg - 2).toNat Layout.spaceSize, ?_⟩
    have hword : WordAddress.ofWord (space.register reg - 2) =
        .error (.addressOutOfRange (space.register reg - 2).toNat Layout.spaceSize) :=
      dif_neg hpast
    rw [resolve_autoDecrement_eq hroom, hword]
    rfl

end OneWord

/-! ## Many words -/

/-- Follows a mode from a register a number of times, and gives what was found each
time. -/
def resolveTimes (space : AddressSpace) (reg : Register) (mode : AddressingMode) :
    Nat → Checked (List (Except MemoryFault Location) × AddressSpace)
  | 0 => return ([], space)
  | count + 1 => do
      let (found, space) ← space.resolve reg mode
      let (others, space) ← space.resolveTimes reg mode count
      return (found :: others, space)

/-- A mode that is followed `count` times finds `reach` words and no more.  The words
stand in a row from `first` on, each as far from the one before as the mode moves its
register.  The attempts that find nothing all come after those that do, and none of them
moves the register. -/
def Sweeps (space : AddressSpace) (reg : Register) (mode : AddressingMode) (count reach : Nat)
    (first : Int) : Prop :=
  ∃ (addresses : List WordAddress) (fault : MemoryFault) (after : AddressSpace),
    space.resolveTimes reg mode count =
      .ok (addresses.map (fun address => .ok (.memory address)) ++
        List.replicate (count - min count reach) (.error fault), after) ∧
    addresses.map (fun address => (address.offset : Int)) =
      (List.range (min count reach)).map (fun index : Nat => first + mode.motion * index) ∧
    ((after.register reg).toNat : Int) =
      (space.register reg).toNat + mode.motion * (min count reach : Nat)

section Sweeps

variable {space : AddressSpace} {reg : Register} {mode : AddressingMode}

theorem sweeps_zero (reach : Nat) (first : Int) : space.Sweeps reg mode 0 reach first := by
  refine ⟨[], .decrementUnderflow reg, space, rfl, ?_, ?_⟩
  · simp
  · simp

/-- An attempt that fails and moves nothing fails again. -/
theorem resolveTimes_of_fault {fault : MemoryFault}
    (hfault : space.resolve reg mode = .ok (.error fault, space)) (count : Nat) :
    space.resolveTimes reg mode count = .ok (List.replicate count (.error fault), space) := by
  induction count with
  | zero => rfl
  | succ count ih =>
      rw [resolveTimes, hfault, ok_bind]
      simp only [ih, ok_bind]
      rfl

theorem sweeps_of_fault {fault : MemoryFault}
    (hfault : space.resolve reg mode = .ok (.error fault, space)) (count : Nat) (first : Int) :
    space.Sweeps reg mode count 0 first := by
  refine ⟨[], fault, space, ?_, ?_, ?_⟩
  · simpa using resolveTimes_of_fault hfault count
  · simp
  · simp

/-- A word that is found is the first of the words that are found together with it. -/
theorem Sweeps.cons {next : AddressSpace} {address : WordAddress} {count reach : Nat}
    (hfound : space.resolve reg mode = .ok (.ok (.memory address), next))
    (hmoved : ((next.register reg).toNat : Int) = (space.register reg).toNat + mode.motion)
    (hrest : next.Sweeps reg mode count reach (address.offset + mode.motion)) :
    space.Sweeps reg mode (count + 1) (reach + 1) address.offset := by
  obtain ⟨addresses, fault, after, hrun, hplaces, hend⟩ := hrest
  refine ⟨address :: addresses, fault, after, ?_, ?_, ?_⟩
  · rw [resolveTimes, hfound, ok_bind]
    simp only [hrun, ok_bind, Nat.add_min_add_right, Nat.add_sub_add_right]
    rfl
  · rw [List.map_cons, hplaces, Nat.add_min_add_right, List.range_succ_eq_map, List.map_cons,
      List.map_map]
    congr 1
    · simp
    · apply List.map_congr_left
      intro index _
      simp only [Function.comp_apply, Nat.succ_eq_add_one, Int.natCast_add, Int.mul_add]
      omega
  · rw [hend, hmoved, Nat.add_min_add_right, Int.natCast_add, Int.mul_add]
    omega

end Sweeps

/-! ## To the ends of memory -/

/-- The number of words in a row from an address to the upper end of memory. -/
def wordsFrom (address : Nat) : Nat :=
  if address ≤ 0xBFFE then (0xBFFE - address) / 2 + 1 else 0

/-- The number of words in a row below an address, down to the lower end of memory.
There are none if the first of them is not in memory. -/
def wordsBelow (address : Nat) : Nat :=
  if address ≤ 0xC000 then address / 2 else 0

theorem wordsFrom_of_room {address : Nat} (hroom : address + 1 < Layout.spaceSize) :
    wordsFrom address = wordsFrom (address + 2) + 1 := by
  have hsize : Layout.spaceSize = 0xC000 := rfl
  rw [wordsFrom, wordsFrom, if_pos (by omega)]
  split
  · omega
  · omega

theorem wordsFrom_of_past {address : Nat} (hpast : Layout.spaceSize ≤ address + 1) :
    wordsFrom address = 0 := by
  have hsize : Layout.spaceSize = 0xC000 := rfl
  exact if_neg (by omega)

theorem wordsBelow_of_room {address : Nat} (hroom : address + wordSize ≤ Layout.spaceSize) :
    wordsBelow (address + wordSize) = wordsBelow address + 1 := by
  have hsize : Layout.spaceSize = 0xC000 := rfl
  have htwo : wordSize = 2 := rfl
  rw [wordsBelow, wordsBelow, if_pos (by omega), if_pos (by omega)]
  omega

theorem wordsBelow_of_out {address : Nat}
    (hout : address < wordSize ∨ Layout.spaceSize < address) : wordsBelow address = 0 := by
  have hsize : Layout.spaceSize = 0xC000 := rfl
  have htwo : wordSize = 2 := rfl
  rw [wordsBelow]
  split
  · omega
  · rfl

theorem sweeps_autoIncrement (space : AddressSpace) (reg : Register) (count : Nat) :
    space.Sweeps reg .autoIncrement count (wordsFrom (space.register reg).toNat)
      (space.register reg).toNat := by
  induction count generalizing space with
  | zero => exact sweeps_zero _ _
  | succ count ih =>
      by_cases hroom : (space.register reg).toNat + 1 < Layout.spaceSize
      · obtain ⟨address, hoffset, hfound⟩ := exists_found_autoIncrement hroom
        have hmoved := space.toNat_register_adjust_forward hroom
        have hrest := ih (space.adjust reg 2)
        rw [hmoved, ← hoffset] at hrest
        rw [wordsFrom_of_room hroom, ← hoffset]
        exact .cons hfound (congrArg Int.ofNat hmoved) hrest
      · have hpast := Nat.not_lt.mp hroom
        obtain ⟨fault, hfault⟩ := exists_fault_autoIncrement hpast
        rw [wordsFrom_of_past hpast]
        exact sweeps_of_fault hfault _ _

theorem sweeps_autoDecrement (space : AddressSpace) (reg : Register) (count : Nat) :
    space.Sweeps reg .autoDecrement count (wordsBelow (space.register reg).toNat)
      ((space.register reg).toNat - 2) := by
  induction count generalizing space with
  | zero => exact sweeps_zero _ _
  | succ count ih =>
      by_cases hout : (space.register reg).toNat < wordSize ∨
          Layout.spaceSize < (space.register reg).toNat
      · obtain ⟨fault, hfault⟩ := exists_fault_autoDecrement hout
        rw [wordsBelow_of_out hout]
        exact sweeps_of_fault hfault _ _
      · rw [not_or, Nat.not_lt, Nat.not_lt] at hout
        obtain ⟨hlow, hhigh⟩ := hout
        obtain ⟨address, hoffset, hfound⟩ := exists_found_autoDecrement hlow hhigh
        have hmoved := space.toNat_register_adjust_back hlow
        have hnext : ((space.adjust reg (-2)).register reg).toNat = address.offset :=
          Nat.add_right_cancel (hmoved.trans hoffset.symm)
        have hrest := ih (space.adjust reg (-2))
        have hfirst : ((space.register reg).toNat - 2 : Int) = address.offset := by
          rw [← hoffset]
          exact Int.add_sub_cancel (address.offset : Int) 2
        rw [hnext] at hrest
        rw [hfirst, ← hoffset, wordsBelow_of_room (le_of_eq_of_le hoffset hhigh)]
        refine .cons hfound ?_ hrest
        rw [hnext, ← hfirst]
        rfl

/-- From any register and however often they are followed, auto-increment and
auto-decrement find exactly the words up to the end of memory and down to its start.
Neither wraps around. -/
theorem sweeps_to_the_ends (space : AddressSpace) (reg : Register) (count : Nat) :
    space.Sweeps reg .autoIncrement count (wordsFrom (space.register reg).toNat)
        (space.register reg).toNat ∧
      space.Sweeps reg .autoDecrement count (wordsBelow (space.register reg).toNat)
        ((space.register reg).toNat - 2) :=
  ⟨space.sweeps_autoIncrement reg count, space.sweeps_autoDecrement reg count⟩

end AddressSpace

end WordMachine
