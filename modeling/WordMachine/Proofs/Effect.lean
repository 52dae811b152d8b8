import WordMachine.Proofs.Operands

/-!
# What an effect changes

An effect stores at most one word, at its destination, or else moves the
program counter, if it is a branch that is taken.  What it stores is computed
from what its operands hold before anything is stored.
-/

namespace WordMachine

namespace UnaryOperation

theorem isSome_compute (operation : UnaryOperation) (dst : Word) (codes : ConditionCodes) :
    (operation.compute dst codes).1.isSome = operation.writes := by
  cases operation <;> rfl

end UnaryOperation

namespace BinaryOperation

theorem isSome_compute (operation : BinaryOperation) (src dst : Word) (codes : ConditionCodes) :
    (operation.compute src dst codes).1.isSome = operation.writes := by
  cases operation <;> rfl

end BinaryOperation

namespace Effect

/-- Whether operands are of the kind that the effect works on. -/
def suits (effect : Effect) (operands : Operands) : Bool :=
  match effect, operands with
  | control _, .none | unary _, .one _ | binary _, .two _ _ | branch _, .displacement _ => true
  | _, _ => false

/-- Whether the effect has a result to be stored. -/
def writes : Effect → Bool
  | control _ | branch _ => false
  | unary operation => operation.writes
  | binary operation => operation.writes

/-- Instructions without operands, branches, comparing and testing are those
that have no result. -/
theorem writes_eq_false_iff (effect : Effect) :
    effect.writes = false ↔
      (∃ operation, effect = control operation) ∨ (∃ condition, effect = branch condition) ∨
        effect = binary .cmp ∨ effect = binary .bit ∨ effect = unary .tst := by
  cases effect with
  | control operation => simp [writes]
  | unary operation => cases operation <;> simp [writes, UnaryOperation.writes]
  | binary operation => cases operation <;> simp [writes, BinaryOperation.writes]
  | branch condition => simp [writes]

/-- What the effect computes from what its operands hold. -/
def computed (effect : Effect) (operands : Operands) (space : AddressSpace) : Computed :=
  match effect, operands with
  | control operation, _ => (none, operation.apply space.codes)
  | unary operation, .one dst => operation.compute (space.valueAt dst) space.codes
  | binary operation, .two src dst =>
      operation.compute (space.valueAt src) (space.valueAt dst) space.codes
  | _, _ => (none, space.codes)

/-- The displacement of a branch that is taken. -/
def taken? (effect : Effect) (operands : Operands) (codes : ConditionCodes) : Option Byte :=
  match effect, operands with
  | branch condition, .displacement displacement =>
      if condition.holds codes then some displacement else none
  | _, _ => none

/-- The location that the effect stores a word at, and the word. -/
def stored? (effect : Effect) (operands : Operands) (space : AddressSpace) :
    Option (Location × Word) :=
  match operands.destination?, (effect.computed operands space).1 with
  | some dst, some result => some (dst, result)
  | _, _ => none

/-- The space after the effect. -/
def after (effect : Effect) (operands : Operands) (space : AddressSpace) : AddressSpace :=
  match effect.taken? operands space.codes with
  | some displacement => space.setPc (branchTarget space.pc displacement)
  | none =>
      let described := space.setCodes (effect.computed operands space).2
      match effect.stored? operands space with
      | some (dst, result) => described.withValue result dst
      | none => described

theorem finish_eq (space : AddressSpace) (computed : Computed) (dst : Location) :
    space.finish computed dst =
      .ok (match computed.1 with
        | some result => (space.setCodes computed.2).withValue result dst
        | none => space.setCodes computed.2) := by
  obtain ⟨result, codes⟩ := computed
  cases result with
  | none => rfl
  | some result => exact (space.setCodes codes).store_eq result dst

/-- An effect does not breach on operands of its own kind. -/
theorem apply_eq {effect : Effect} {operands : Operands} (hsuits : effect.suits operands = true)
    (space : AddressSpace) :
    effect.apply operands space =
      .ok (effect.after operands space, (effect.taken? operands space.codes).isSome) := by
  cases effect with
  | control operation =>
      cases operands with
      | none => rfl
      | _ => cases hsuits
  | unary operation =>
      cases operands with
      | one dst =>
          simp only [apply, AddressSpace.load_eq, ok_bind, finish_eq, after, stored?, computed,
            taken?, Operands.destination?]
          cases (operation.compute (space.valueAt dst) space.codes).1 <;> rfl
      | _ => cases hsuits
  | binary operation =>
      cases operands with
      | two src dst =>
          simp only [apply, AddressSpace.load_eq, ok_bind, finish_eq, after, stored?, computed,
            taken?, Operands.destination?]
          cases (operation.compute (space.valueAt src) (space.valueAt dst) space.codes).1 <;> rfl
      | _ => cases hsuits
  | branch condition =>
      cases operands with
      | displacement displacement =>
          simp only [apply, after, taken?, stored?, computed, Operands.destination?]
          split <;> rfl
      | _ => cases hsuits

/-! ## What is stored -/

theorem isSome_computed {effect : Effect} {operands : Operands}
    (hsuits : effect.suits operands = true) (space : AddressSpace) :
    (effect.computed operands space).1.isSome = effect.writes := by
  cases effect with
  | control operation => rfl
  | unary operation =>
      cases operands with
      | one dst => exact operation.isSome_compute _ _
      | _ => cases hsuits
  | binary operation =>
      cases operands with
      | two src dst => exact operation.isSome_compute _ _ _
      | _ => cases hsuits
  | branch condition => rfl

theorem stored?_eq_some_iff {effect : Effect} {operands : Operands} {space : AddressSpace}
    {dst : Location} {result : Word} :
    effect.stored? operands space = some (dst, result) ↔
      operands.destination? = some dst ∧ (effect.computed operands space).1 = some result := by
  rw [stored?]
  cases operands.destination? <;> cases (effect.computed operands space).1 <;> simp

theorem taken?_eq_some_iff {effect : Effect} {operands : Operands} {codes : ConditionCodes}
    {displacement : Byte} :
    effect.taken? operands codes = some displacement ↔
      operands = .displacement displacement ∧
        ∃ condition, effect = .branch condition ∧ condition.holds codes = true := by
  cases effect with
  | branch condition => cases operands <;> simp [taken?, and_comm]
  | _ => simp [taken?]

/-- An effect that has no result stores nothing. -/
theorem stored?_eq_none_of_not_writes {effect : Effect} {operands : Operands}
    (hsuits : effect.suits operands = true) (hwrites : effect.writes = false)
    (space : AddressSpace) : effect.stored? operands space = none := by
  rw [← isSome_computed hsuits space, Option.isSome_eq_false_iff, Option.isNone_iff_eq_none]
    at hwrites
  rw [stored?, hwrites]
  cases operands.destination? <;> rfl

/-- A branch that is taken stores nothing. -/
theorem stored?_eq_none_of_taken {effect : Effect} {operands : Operands} {space : AddressSpace}
    {displacement : Byte} (htaken : effect.taken? operands space.codes = some displacement) :
    effect.stored? operands space = none := by
  cases effect with
  | branch condition =>
      rw [stored?, computed]
      · cases operands.destination? <;> rfl
      all_goals simp
  | _ => cases htaken

/-! ## What is changed -/

section Changes

variable {effect : Effect} {operands : Operands} {space : AddressSpace}

theorem after_of_taken {displacement : Byte}
    (htaken : effect.taken? operands space.codes = some displacement) :
    effect.after operands space = space.setPc (branchTarget space.pc displacement) := by
  rw [after, htaken]

theorem after_of_stored {dst : Location} {result : Word}
    (hstored : effect.stored? operands space = some (dst, result)) :
    effect.after operands space =
      (space.setCodes (effect.computed operands space).2).withValue result dst := by
  cases htaken : effect.taken? operands space.codes with
  | some displacement =>
      rw [stored?_eq_none_of_taken htaken] at hstored
      cases hstored
  | none => rw [after, htaken, hstored]

/-- An effect is a branch that is taken, or stores a word, or does no more than
set the condition codes. -/
theorem after_cases (effect : Effect) (operands : Operands) (space : AddressSpace) :
    (∃ displacement, effect.taken? operands space.codes = some displacement ∧
      effect.after operands space =
        space.setRegister .pc (branchTarget space.pc displacement)) ∨
    (∃ dst result, effect.stored? operands space = some (dst, result) ∧
      effect.after operands space =
        (space.setCodes (effect.computed operands space).2).withValue result dst) ∨
    effect.after operands space = space.setCodes (effect.computed operands space).2 := by
  cases htaken : effect.taken? operands space.codes with
  | some displacement => exact .inl ⟨displacement, rfl, after_of_taken htaken⟩
  | none =>
      cases hstored : effect.stored? operands space with
      | some stored => exact .inr (.inl ⟨stored.1, stored.2, rfl, after_of_stored hstored⟩)
      | none =>
          refine .inr (.inr ?_)
          rw [after, htaken, hstored]

@[simp]
theorem romLength_after : (effect.after operands space).romLength = space.romLength := by
  obtain ⟨_, -, hafter⟩ | ⟨_, _, -, hafter⟩ | hafter := effect.after_cases operands space
  all_goals rw [hafter]; simp

/-- Memory stays as it is unless a word is stored in it. -/
theorem memory_after
    (hstored : ∀ address result, effect.stored? operands space ≠ some (.memory address, result)) :
    (effect.after operands space).memory = space.memory := by
  obtain ⟨_, -, hafter⟩ | ⟨dst, result, hresult, hafter⟩ | hafter :=
    effect.after_cases operands space
  · rw [hafter, AddressSpace.memory_setRegister]
  · cases dst with
    | register reg =>
        rw [hafter, AddressSpace.memory_withValue_register, AddressSpace.memory_setCodes]
    | memory address => exact absurd hresult (hstored address result)
  · rw [hafter, AddressSpace.memory_setCodes]

/-- A byte that changes is one of the two of the word that is stored. -/
theorem exists_stored_of_byteAt_after_ne {place : Nat}
    (hchanged : (effect.after operands space).byteAt place ≠ space.byteAt place) :
    ∃ address result, effect.stored? operands space = some (.memory address, result) ∧
      (place = address.offset ∨ place = address.offset + 1) := by
  obtain ⟨_, -, hafter⟩ | ⟨dst, result, hresult, hafter⟩ | hafter :=
    effect.after_cases operands space
  · rw [hafter] at hchanged
    exact absurd rfl hchanged
  · rw [hafter] at hchanged
    obtain ⟨address, rfl, hplace⟩ := AddressSpace.exists_address_of_byteAt_withValue_ne _ hchanged
    exact ⟨address, result, hresult, hplace⟩
  · rw [hafter] at hchanged
    exact absurd rfl hchanged

/-- A register stays as it is unless a word is stored in it, or it is the program
counter and a branch is taken. -/
theorem register_after {reg : Register}
    (htaken : reg = .pc → effect.taken? operands space.codes = none)
    (hstored : ∀ result, effect.stored? operands space ≠ some (.register reg, result)) :
    (effect.after operands space).register reg = space.register reg := by
  obtain ⟨displacement, hbranch, hafter⟩ | ⟨dst, result, hresult, hafter⟩ | hafter :=
    effect.after_cases operands space
  · rw [hafter, AddressSpace.register_setRegister, if_neg]
    rintro rfl
    rw [htaken rfl] at hbranch
    cases hbranch
  · rw [hafter, AddressSpace.register_withValue, AddressSpace.register_setCodes, if_neg]
    rintro rfl
    exact hstored result hresult
  · rw [hafter, AddressSpace.register_setCodes]

/-- Branches, halting and doing nothing leave the condition codes alone. -/
theorem codes_after
    (hquiet : (∃ condition, effect = .branch condition) ∨ effect = .control .halt ∨
      effect = .control .nop) :
    (effect.after operands space).codes = space.codes := by
  have hcodes : (effect.computed operands space).2 = space.codes := by
    obtain ⟨condition, rfl⟩ | rfl | rfl := hquiet
    all_goals rfl
  obtain ⟨_, -, hafter⟩ | ⟨_, _, -, hafter⟩ | hafter := effect.after_cases operands space
  all_goals rw [hafter]; simp [hcodes]

end Changes

end Effect

namespace AddressSpace

variable (space : AddressSpace)

/-- The space after the operands of an instruction were followed in it and the effect
took place, unless one of them was not found. -/
def executed (effect : Effect) (fields : Fields) : AddressSpace :=
  match space.operandsOf fields with
  | .error _ => space.followedAll fields.specs
  | .ok operands => effect.after operands (space.followedAll fields.specs)

@[simp]
theorem romLength_executed (effect : Effect) (fields : Fields) :
    (space.executed effect fields).romLength = space.romLength := by
  rw [executed]
  cases space.operandsOf fields with
  | error fault => exact space.romLength_followedAll fields.specs
  | ok operands => exact (Effect.romLength_after).trans (space.romLength_followedAll fields.specs)

end AddressSpace

end WordMachine
