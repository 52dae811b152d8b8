import WordMachine.Breach

/-!
# Register names

There are eight registers.  Register six is the stack pointer and register
seven the program counter.
-/

namespace WordMachine

inductive Register where
  | r0
  | r1
  | r2
  | r3
  | r4
  | r5
  | sp
  | pc
deriving DecidableEq, Repr

namespace Register

abbrev count : Nat := 8

/-- Every register, in the order of their numbers. -/
def all : Vector Register count := #v[.r0, .r1, .r2, .r3, .r4, .r5, .sp, .pc]

def index : Register → Fin count
  | .r0 => 0
  | .r1 => 1
  | .r2 => 2
  | .r3 => 3
  | .r4 => 4
  | .r5 => 5
  | .sp => 6
  | .pc => 7

/-- The register with a number; a number of eight or more is a breach. -/
def ofIndex (index : Nat) : Checked Register :=
  if h : index < count then .ok all[index] else .error (.registerIndex index)

def name : Register → String
  | .r0 => "r0"
  | .r1 => "r1"
  | .r2 => "r2"
  | .r3 => "r3"
  | .r4 => "r4"
  | .r5 => "r5"
  | .sp => "sp"
  | .pc => "pc"

@[simp]
theorem ofIndex_index (reg : Register) : ofIndex reg.index = .ok reg := by
  cases reg <;> rfl

theorem index_injective {left right : Register} (heq : left.index = right.index) :
    left = right := by
  have hchecked : ofIndex left.index = ofIndex right.index := by rw [heq]
  simpa using hchecked

theorem ofIndex_eq_ok {index : Nat} {reg : Register} (hreg : ofIndex index = .ok reg) :
    reg.index.val = index := by
  unfold ofIndex at hreg
  split at hreg
  · rename_i hlt
    cases hreg
    match index, hlt with
    | 0, _ | 1, _ | 2, _ | 3, _ | 4, _ | 5, _ | 6, _ | 7, _ => rfl
  · cases hreg

end Register

end WordMachine
