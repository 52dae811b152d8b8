import Mathlib.Algebra.Ring.Int.Defs
import Mathlib.Data.List.Infix
import Mathlib.Order.Bounds.Basic
import WordMachine.Proofs.Sweep

/-!
# A stack on one register

Auto-decrement to push and auto-increment to pop make a stack of any register.  It grows
down from where the register points at first, and answers like a last-in first-out list
as long as it is not popped when empty and there is room for it above the start of
memory.  Only the words that were pushed are written.
-/

namespace WordMachine

inductive StackOperation where
  | push (word : Word)
  | pop
deriving DecidableEq, Repr

namespace StackOperation

/-- What a last-in first-out list answers, and what is left of it. -/
def onList : StackOperation → List Word → Option Word × List Word
  | push word, stack => (none, word :: stack)
  | pop, stack => (stack.head?, stack.tail)

/-- What a last-in first-out list answers to operations one after the other. -/
def answers : List StackOperation → List Word → List (Option Word)
  | [], _ => []
  | operation :: rest, stack =>
      (operation.onList stack).1 :: answers rest (operation.onList stack).2

/-- What operations one after the other leave of a last-in first-out list. -/
def contents (operations : List StackOperation) (stack : List Word) : List Word :=
  operations.foldl (fun stack operation => (operation.onList stack).2) stack

/-! ## Depth -/

/-- By how much an operation changes the depth of the stack. -/
def change : StackOperation → Int
  | push _ => 1
  | pop => -1

/-- By how much operations together change the depth of the stack. -/
def depth (operations : List StackOperation) : Int := (operations.map change).sum

@[simp]
theorem depth_nil : depth [] = 0 := rfl

@[simp]
theorem depth_cons (operation : StackOperation) (rest : List StackOperation) :
    depth (operation :: rest) = operation.change + depth rest := by
  simp [depth]

/-- The largest depth that a stack reaches, if it is empty at first. -/
def peak : List StackOperation → Int
  | [] => 0
  | operation :: rest => max 0 (operation.change + peak rest)

theorem isGreatest_peak (operations : List StackOperation) :
    IsGreatest {reached | ∃ before, before <+: operations ∧ depth before = reached}
      (peak operations) := by
  induction operations with
  | nil =>
      refine ⟨⟨[], List.nil_prefix, rfl⟩, ?_⟩
      rintro reached ⟨before, hbefore, rfl⟩
      rw [List.prefix_nil.mp hbefore]
      rfl
  | cons operation rest ih =>
      obtain ⟨⟨deepest, hdeepest, hpeak⟩, hupper⟩ := ih
      constructor
      · obtain hrest | hrest := Int.le_total 0 (operation.change + peak rest)
        · refine ⟨operation :: deepest, List.prefix_cons_inj operation |>.mpr hdeepest, ?_⟩
          rw [depth_cons, hpeak, peak, Int.max_eq_right hrest]
        · exact ⟨[], List.nil_prefix, (Int.max_eq_left hrest).symm⟩
      · rintro reached ⟨before, hbefore, rfl⟩
        obtain rfl | ⟨earlier, rfl, hearlier⟩ := List.prefix_cons_iff.mp hbefore
        · exact le_max_left _ _
        · have hbound : depth earlier ≤ peak rest := hupper ⟨earlier, hearlier, rfl⟩
          rw [depth_cons]
          exact (Int.add_le_add_left hbound _).trans (le_max_right _ _)

/-- The depth of the stack has a property at first, when it is `start`, and after every
operation. -/
def Throughout (start : Int) (property : Int → Prop) (operations : List StackOperation) : Prop :=
  ∀ before, before <+: operations → property (start + depth before)

namespace Throughout

variable {start : Int} {property : Int → Prop} {operation : StackOperation}
  {rest : List StackOperation}

theorem head (hthroughout : Throughout start property (operation :: rest)) :
    property (start + operation.change) := by
  have hfirst := hthroughout [operation] ⟨rest, rfl⟩
  rwa [depth_cons, depth_nil, Int.add_zero] at hfirst

theorem tail (hthroughout : Throughout start property (operation :: rest)) :
    Throughout (start + operation.change) property rest := by
  intro before hbefore
  have hlonger := hthroughout (operation :: before) (List.prefix_cons_inj operation |>.mpr hbefore)
  rwa [depth_cons, ← Int.add_assoc] at hlonger

end Throughout

end StackOperation

open StackOperation (answers contents depth peak Throughout)

namespace AddressSpace

/-! ## Stacks in memory -/

/-- Pushes a word on the stack whose top a register points to, or pops one off it.  What
is popped is the answer; pushing has none. -/
def operate (space : AddressSpace) (reg : Register) :
    StackOperation → Checked (Except MemoryFault (Option Word) × AddressSpace)
  | .push word => do
      match ← space.resolve reg .autoDecrement with
      | (.error fault, space) => return (.error fault, space)
      | (.ok location, space) => return (.ok none, ← space.store word location)
  | .pop => do
      match ← space.resolve reg .autoIncrement with
      | (.error fault, space) => return (.error fault, space)
      | (.ok location, space) => return (.ok (some (← space.load location)), space)

/-- Operates on a stack again and again, also after an operation that failed. -/
def operateAll (space : AddressSpace) (reg : Register) :
    List StackOperation → Checked (List (Except MemoryFault (Option Word)) × AddressSpace)
  | [] => return ([], space)
  | operation :: rest => do
      let (answer, space) ← space.operate reg operation
      let (others, space) ← space.operateAll reg rest
      return (answer :: others, space)

/-- A stack stands in memory between its top, to which a register points, and its
base. -/
structure Stacks (space : AddressSpace) (reg : Register) (base : Nat) (stack : List Word) :
    Prop where
  base_eq : (space.register reg).toNat + 2 * stack.length = base
  words : ∀ index word, stack[index]? = some word → ∀ address : WordAddress,
    address.offset = (space.register reg).toNat + 2 * index → space.wordAt address = word

/-- Two spaces that differ in one register and in bytes at certain places only. -/
structure Spares (reg : Register) (spared : Nat → Prop) (before after : AddressSpace) :
    Prop where
  bytes : ∀ place, spared place → after.byteAt place = before.byteAt place
  registers : ∀ other, other ≠ reg → after.register other = before.register other
  codes : after.codes = before.codes

namespace Spares

variable {reg : Register} {spared fewer : Nat → Prop} {first second third : AddressSpace}

theorem refl (space : AddressSpace) : Spares reg spared space space :=
  ⟨fun _ _ => rfl, fun _ _ => rfl, rfl⟩

theorem trans (hfirst : Spares reg spared first second) (hsecond : Spares reg spared second third) :
    Spares reg spared first third where
  bytes place hplace := (hsecond.bytes place hplace).trans (hfirst.bytes place hplace)
  registers other hother := (hsecond.registers other hother).trans (hfirst.registers other hother)
  codes := hsecond.codes.trans hfirst.codes

theorem mono (hspares : Spares reg spared first second) (hfewer : ∀ place, fewer place → spared place) :
    Spares reg fewer first second where
  bytes place hplace := hspares.bytes place (hfewer place hplace)
  registers := hspares.registers
  codes := hspares.codes

end Spares

/-- A place that a stack does not reach: it is from the base up, or below every top that
the stack has. -/
def OutOfReach (base : Nat) (start : Int) (operations : List StackOperation) (place : Nat) : Prop :=
  base ≤ place ∨ Throughout start (fun depth => place + 2 * depth < base) operations

section Stacks

variable {space : AddressSpace} {reg : Register} {base : Nat} {stack : List Word} {word : Word}

/-- A word goes onto a stack that has room for it, and nothing but that word is
written. -/
theorem Stacks.exists_push (hstacks : space.Stacks reg base stack)
    (hbase : base ≤ Layout.spaceSize) (hroom : 2 * (stack.length + 1) ≤ base) (word : Word) :
    ∃ after, space.operate reg (.push word) = .ok (.ok none, after) ∧
      after.Stacks reg base (word :: stack) ∧
      Spares reg (fun place => base ≤ place ∨ place + 2 * (stack.length + 1) < base)
        space after := by
  have htop := hstacks.base_eq
  have hsize : wordSize = 2 := rfl
  have hlow : wordSize ≤ (space.register reg).toNat := by omega
  obtain ⟨address, hoffset, hfound⟩ := exists_found_autoDecrement hlow (by omega)
  have hmoved : ((space.adjust reg (-2)).register reg).toNat = address.offset := by
    have hback := space.toNat_register_adjust_back hlow
    omega
  refine ⟨(space.adjust reg (-2)).withWord address word, ?_, ⟨?_, ?_⟩, ⟨?_, ?_, rfl⟩⟩
  · simp only [operate, hfound, ok_bind, store_eq]
    rfl
  · change ((space.adjust reg (-2)).register reg).toNat + 2 * (word :: stack).length = base
    rw [hmoved, List.length_cons]
    omega
  · intro index pushed hpushed other hother
    replace hother : other.offset = address.offset + 2 * index := by
      rw [← hmoved]
      exact hother
    cases index with
    | zero =>
        obtain rfl : other = address := WordAddress.ext_offset hother
        obtain rfl : word = pushed := Option.some.inj hpushed
        exact wordAt_withWord _ _ _
    | succ index =>
        rw [wordAt_withWord_of_apart _ _ (by omega)]
        exact hstacks.words index pushed hpushed other (by omega)
  · intro place hplace
    rw [byteAt_withWord, if_neg (by omega), if_neg (by omega)]
    rfl
  · intro other hother
    exact space.register_adjust_of_ne hother.symm _

/-- The word on top of a stack comes off it, and nothing is written. -/
theorem Stacks.exists_pop (hstacks : space.Stacks reg base (word :: stack))
    (hbase : base ≤ Layout.spaceSize) :
    ∃ after, space.operate reg .pop = .ok (.ok (some word), after) ∧
      after.Stacks reg base stack ∧ ∀ spared, Spares reg spared space after := by
  have htop := hstacks.base_eq
  rw [List.length_cons] at htop
  have hroom : (space.register reg).toNat + 1 < Layout.spaceSize := by omega
  obtain ⟨address, hoffset, hfound⟩ := exists_found_autoIncrement hroom
  have hmoved := space.toNat_register_adjust_forward hroom
  have hword : (space.adjust reg 2).valueAt (.memory address) = word :=
    hstacks.words 0 word rfl address hoffset
  refine ⟨space.adjust reg 2, ?_, ⟨?_, ?_⟩, fun spared => ⟨fun _ _ => rfl, ?_, rfl⟩⟩
  · simp only [operate, hfound, ok_bind, load_eq, hword]
    rfl
  · omega
  · intro index left hleft other hother
    exact hstacks.words (index + 1) left hleft other (by omega)
  · intro other hother
    exact space.register_adjust_of_ne hother.symm _

/-- A stack in memory answers one operation like the list of its words. -/
theorem Stacks.exists_operated (hstacks : space.Stacks reg base stack)
    (hbase : base ≤ Layout.spaceSize) {operation : StackOperation}
    (hlow : 0 ≤ stack.length + operation.change)
    (hhigh : 2 * (stack.length + operation.change) ≤ base) :
    ∃ after, space.operate reg operation = .ok (.ok (operation.onList stack).1, after) ∧
      after.Stacks reg base (operation.onList stack).2 ∧
      ((operation.onList stack).2.length : Int) = stack.length + operation.change ∧
      Spares reg (fun place => base ≤ place ∨
        (place : Int) + 2 * (stack.length + operation.change) < base) space after := by
  cases operation with
  | push word =>
      have hroom : 2 * (stack.length + 1) ≤ base := Int.ofNat_le.mp hhigh
      obtain ⟨after, hoperate, hpushed, hspares⟩ := hstacks.exists_push hbase hroom word
      exact ⟨after, hoperate, hpushed, rfl, hspares.mono fun place => Or.imp_right Int.ofNat_lt.mp⟩
  | pop =>
      cases stack with
      | nil => exact absurd hlow (by decide)
      | cons word stack =>
          obtain ⟨after, hoperate, hpopped, hspares⟩ := hstacks.exists_pop hbase
          refine ⟨after, hoperate, hpopped, ?_, hspares _⟩
          exact (Int.add_sub_cancel (stack.length : Int) 1).symm

/-- A stack in memory answers operations one after the other like the list of its
words. -/
theorem Stacks.exists_operatedAll (hstacks : space.Stacks reg base stack)
    (hbase : base ≤ Layout.spaceSize) {operations : List StackOperation}
    (hfits : Throughout stack.length (fun depth => 0 ≤ depth ∧ 2 * depth ≤ base) operations) :
    ∃ after, space.operateAll reg operations = .ok ((answers operations stack).map .ok, after) ∧
      after.Stacks reg base (contents operations stack) ∧
      ((contents operations stack).length : Int) = stack.length + depth operations ∧
      Spares reg (OutOfReach base stack.length operations) space after := by
  induction operations generalizing space stack with
  | nil => exact ⟨space, rfl, hstacks, (Int.add_zero _).symm, .refl space⟩
  | cons operation rest ih =>
      obtain ⟨hlow, hhigh⟩ := hfits.head
      obtain ⟨next, hoperate, hnext, hlength, hspares⟩ := hstacks.exists_operated hbase hlow hhigh
      have hleft := hfits.tail
      rw [← hlength] at hleft
      obtain ⟨after, hrest, hafter, hdepth, hothers⟩ := ih hnext hleft
      refine ⟨after, ?_, hafter, ?_, ?_⟩
      · rw [operateAll, hoperate, ok_bind]
        simp only [hrest, ok_bind]
        rfl
      · rw [StackOperation.depth_cons, ← Int.add_assoc, ← hlength]
        exact hdepth
      · rw [hlength] at hothers
        exact .trans (hspares.mono fun place => Or.imp_right Throughout.head)
          (hothers.mono fun place => Or.imp_right Throughout.tail)

end Stacks

/-- A register that does not point past the end of memory makes a stack.  As long as the
depth stays between zero and the number of words below the register, every operation
succeeds and is answered as by a last-in first-out list; the register is as many words
below its first value as the stack is deep; and nothing changes from that value up, nor
below the lowest top that the stack had, nor in any other register or the condition
codes. -/
theorem stack_answers_as_list (space : AddressSpace) (reg : Register)
    (hvalue : (space.register reg).toNat ≤ Layout.spaceSize) (operations : List StackOperation)
    (hdepth : ∀ before, before <+: operations →
      0 ≤ depth before ∧ depth before ≤ ((space.register reg).toNat / 2 : Nat)) :
    ∀ before, before <+: operations →
      ∃ after, space.operateAll reg before = .ok ((answers before []).map .ok, after) ∧
        ((after.register reg).toNat : Int) = (space.register reg).toNat - 2 * depth before ∧
        (∀ place, (space.register reg).toNat ≤ place ∨
            (place : Int) < (space.register reg).toNat - 2 * peak before →
          after.byteAt place = space.byteAt place) ∧
        (∀ other, other ≠ reg → after.register other = space.register other) ∧
        after.codes = space.codes := by
  intro before hbefore
  have hempty : space.Stacks reg (space.register reg).toNat [] := ⟨rfl, by simp⟩
  have hfits : Throughout 0
      (fun depth => 0 ≤ depth ∧ 2 * depth ≤ (space.register reg).toNat) before := by
    intro earlier hearlier
    have hearly := hdepth earlier (hearlier.trans hbefore)
    rw [Int.zero_add]
    omega
  obtain ⟨after, hrun, hstacks, hlength, hspares⟩ := hempty.exists_operatedAll hvalue hfits
  refine ⟨after, hrun, ?_, ?_, hspares.registers, hspares.codes⟩
  · have hbase := hstacks.base_eq
    simp only [List.length_nil] at hlength
    omega
  · intro place hplace
    refine hspares.bytes place (hplace.imp_right fun hbelow earlier hearlier => ?_)
    have hpeak : depth earlier ≤ peak before :=
      (StackOperation.isGreatest_peak before).2 ⟨earlier, hearlier, rfl⟩
    simp only [List.length_nil]
    omega

/-- A space with room for two words below an odd stack pointer. -/
def shallow : AddressSpace := blank.setRegister .sp 5

/-- Two words are pushed, and the second is popped and then pushed over with another. -/
def reuse : List StackOperation := [.push 7, .push 8, .pop, .push 9, .pop, .pop]

theorem stack_answers_as_list_of_reuse :
    (shallow.register .sp).toNat ≤ Layout.spaceSize ∧
    (∀ before, before <+: reuse →
      0 ≤ depth before ∧ depth before ≤ ((shallow.register .sp).toNat / 2 : Nat)) ∧
    ∃ after, shallow.operateAll .sp reuse =
        .ok ([none, none, some 8, none, some 9, some 7].map .ok, after) ∧
      (after.register .sp).toNat = 5 ∧ after.byteAt 0 = shallow.byteAt 0 := by
  have hvalue : (shallow.register .sp).toNat = 5 := rfl
  have hdepth : ∀ before, before <+: reuse →
      0 ≤ depth before ∧ depth before ≤ ((shallow.register .sp).toNat / 2 : Nat) := by
    intro before hbefore
    rw [← List.mem_inits] at hbefore
    rw [hvalue]
    revert before
    decide
  obtain ⟨after, hrun, hregister, hbytes, -⟩ :=
    stack_answers_as_list shallow .sp (by decide) reuse hdepth reuse (List.prefix_refl reuse)
  refine ⟨by decide, hdepth, after, hrun, ?_, ?_⟩
  · exact Int.ofNat_inj.mp hregister
  · exact hbytes 0 (.inr (by decide))

end AddressSpace

end WordMachine
