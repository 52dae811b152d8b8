import WordMachine.Word

/-!
# Condition codes

Four flags record what the last operation found: a negative result, a zero
result, a signed overflow, and an unsigned carry or borrow.
-/

namespace WordMachine

inductive Flag where
  | n
  | z
  | v
  | c
deriving DecidableEq, Repr

structure ConditionCodes where
  n : Bool := false
  z : Bool := false
  v : Bool := false
  c : Bool := false
deriving DecidableEq, Repr, Inhabited

namespace ConditionCodes

def cleared : ConditionCodes := {}

def allSet : ConditionCodes := ⟨true, true, true, true⟩

def get (codes : ConditionCodes) : Flag → Bool
  | .n => codes.n
  | .z => codes.z
  | .v => codes.v
  | .c => codes.c

def set (codes : ConditionCodes) (flag : Flag) (value : Bool) : ConditionCodes :=
  match flag with
  | .n => { codes with n := value }
  | .z => { codes with z := value }
  | .v => { codes with v := value }
  | .c => { codes with c := value }

/-- `n` and `z` describe a result; the other two flags stay. -/
def describe (codes : ConditionCodes) (result : Word) : ConditionCodes :=
  { codes with n := result.isNegative, z := result == 0 }

/-- The flags as text: the letter of a set flag, a dash for a clear one. -/
def text (codes : ConditionCodes) : String :=
  let letter (value : Bool) (name : Char) := if value then name else '-'
  String.ofList [letter codes.n 'N', letter codes.z 'Z', letter codes.v 'V', letter codes.c 'C']

@[simp]
theorem get_set (codes : ConditionCodes) (flag other : Flag) (value : Bool) :
    (codes.set flag value).get other = if flag = other then value else codes.get other := by
  cases flag <;> cases other <;> rfl

end ConditionCodes

end WordMachine
