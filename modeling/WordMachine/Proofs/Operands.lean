import WordMachine.Proofs.Resolution

/-!
# The operands of an instruction

The operands of an instruction are followed one after the other, each in the
space that the one before left behind, and whatever came of it.
-/

namespace WordMachine

/-- The operands of an instruction, in the order in which they are followed. -/
def Fields.specs : Fields → List OperandSpec
  | noOperand | branch _ => []
  | single dst => [dst]
  | double src dst => [src, dst]

/-- The operand that an instruction works on. -/
def Fields.destination? : Fields → Option OperandSpec
  | noOperand | branch _ => none
  | single dst | double _ dst => some dst

/-- The location that an instruction works on. -/
def Operands.destination? : Operands → Option Location
  | none | displacement _ => .none
  | one dst | two _ dst => some dst

namespace AddressSpace

variable (space : AddressSpace)

/-- The space after operands were followed. -/
def followedAll (specs : List OperandSpec) : AddressSpace := specs.foldl followed space

theorem followedAll_cons (spec : OperandSpec) (rest : List OperandSpec) :
    space.followedAll (spec :: rest) = (space.followed spec).followedAll rest := rfl

/-- Following operands keeps all that moving registers keeps. -/
theorem keeps_followedAll {β : Type} (observe : AddressSpace → β)
    (hadjust : ∀ space reg amount, observe (adjust space reg amount) = observe space)
    (specs : List OperandSpec) : observe (space.followedAll specs) = observe space := by
  induction specs generalizing space with
  | nil => rfl
  | cons spec rest ih =>
      rw [followedAll_cons, ih, space.keeps_followed observe hadjust]

theorem memory_followedAll (specs : List OperandSpec) :
    (space.followedAll specs).memory = space.memory :=
  space.keeps_followedAll memory (fun _ _ _ => rfl) specs

theorem codes_followedAll (specs : List OperandSpec) :
    (space.followedAll specs).codes = space.codes :=
  space.keeps_followedAll codes (fun _ _ _ => rfl) specs

theorem romLength_followedAll (specs : List OperandSpec) :
    (space.followedAll specs).romLength = space.romLength :=
  space.keeps_followedAll romLength (fun _ _ _ => rfl) specs

/-- Operands, each with what was found when it was followed. -/
def trail (space : AddressSpace) :
    List OperandSpec → List (OperandSpec × Except MemoryFault Location)
  | [] => []
  | spec :: rest => (spec, space.locate spec) :: (space.followed spec).trail rest

/-- The operands of an instruction, unless one of them is not found. -/
def operandsOf : Fields → Except MemoryFault Operands
  | .noOperand => .ok .none
  | .single dst => (space.locate dst).map .one
  | .double src dst => do
      return .two (← space.locate src) (← (space.followed src).locate dst)
  | .branch displacement => .ok (.displacement displacement)

/-- The word that an operand is seen to take out of the instruction stream. -/
def extensionOf (spec : OperandSpec) : Option Word :=
  if (space.followed spec).pc = space.pc + 2 then (space.wordAt? space.pc).toOption else none

def extensionsOf : Fields → Extensions
  | .noOperand | .branch _ => {}
  | .single dst => { dst := space.extensionOf dst }
  | .double src dst => ⟨space.extensionOf src, (space.followed src).extensionOf dst⟩

theorem resolveOperand_eq (spec : OperandSpec) :
    space.resolveOperand spec =
      .ok ⟨space.locate spec, space.extensionOf spec, space.followed spec⟩ := by
  simp only [resolveOperand, resolve_eq, ok_bind, extensionOf]
  split
  · rw [readWord_eq, wordAt?_congr (space.memory_followed spec)]
    rfl
  · rfl

/-- Following the operands of an instruction never breaches. -/
theorem resolveOperands_eq (fields : Fields) :
    space.resolveOperands fields =
      .ok ⟨space.operandsOf fields, space.extensionsOf fields,
        space.followedAll fields.specs⟩ := by
  cases fields with
  | noOperand | branch displacement => rfl
  | single dst =>
      simp only [resolveOperands, resolveOperand_eq, ok_bind]
      rfl
  | double src dst =>
      simp only [resolveOperands, resolveOperand_eq, ok_bind]
      rfl

/-- Fields, with the operands that are found for them. -/
inductive Finds : Fields → Operands → Prop where
  | noOperand : Finds .noOperand .none
  | single {dst : OperandSpec} {location : Location} (hdst : space.locate dst = .ok location) :
      Finds (.single dst) (.one location)
  | double {src dst : OperandSpec} {source location : Location}
      (hsrc : space.locate src = .ok source)
      (hdst : (space.followed src).locate dst = .ok location) :
      Finds (.double src dst) (.two source location)
  | branch {displacement : Byte} : Finds (.branch displacement) (.displacement displacement)

variable {space : AddressSpace} {fields : Fields} {operands : Operands}

theorem finds_of_operandsOf (hfound : space.operandsOf fields = .ok operands) :
    space.Finds fields operands := by
  cases fields with
  | noOperand =>
      cases hfound
      exact .noOperand
  | single dst =>
      rw [operandsOf] at hfound
      cases hdst : space.locate dst <;> rw [hdst] at hfound <;> cases hfound
      exact .single hdst
  | double src dst =>
      rw [operandsOf] at hfound
      cases hsrc : space.locate src <;> rw [hsrc] at hfound <;>
        cases hdst : (space.followed src).locate dst <;> rw [hdst] at hfound <;> cases hfound
      exact .double hsrc hdst
  | branch displacement =>
      cases hfound
      exact .branch

/-- All operands of an instruction are found, or there are none to work on. -/
theorem isOk_operandsOf (space : AddressSpace) (fields : Fields) :
    (space.operandsOf fields).isOk = (space.trail fields.specs).all fun step => step.2.isOk := by
  cases fields with
  | noOperand | branch displacement => rfl
  | single dst =>
      rw [operandsOf, isOk_map]
      exact (Bool.and_true _).symm
  | double src dst =>
      simp only [operandsOf, Fields.specs, trail, List.all_cons, List.all_nil, Bool.and_true]
      cases space.locate src <;> cases (space.followed src).locate dst <;> rfl

/-- The destination is a register if and only if its mode says so. -/
theorem destination?_eq_register_iff (hfound : space.operandsOf fields = .ok operands)
    (reg : Register) :
    operands.destination? = some (.register reg) ↔ fields.destination? = some (.direct reg) := by
  cases finds_of_operandsOf hfound with
  | noOperand | branch => simp [Operands.destination?, Fields.destination?]
  | single hdst | double hsrc hdst =>
      simpa [Operands.destination?, Fields.destination?] using
        eq_register_iff_of_locate _ hdst reg

theorem eq_branch_of_operandsOf {displacement : Byte}
    (hfound : space.operandsOf fields = .ok (.displacement displacement)) :
    fields = .branch displacement := by
  cases finds_of_operandsOf hfound
  rfl

end AddressSpace

end WordMachine
