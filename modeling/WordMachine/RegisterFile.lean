import WordMachine.ConditionCodes
import WordMachine.Numeral
import WordMachine.Register

/-!
# The register file

The eight registers and the condition codes.  A register holds one word, and
arithmetic on it wraps around.
-/

namespace WordMachine

structure RegisterFile where
  words : Vector Word Register.count
  codes : ConditionCodes
deriving DecidableEq

namespace RegisterFile

/-- Every register holds zero and every flag is clear. -/
def cleared : RegisterFile := ⟨Vector.replicate _ 0, .cleared⟩

instance : Inhabited RegisterFile := ⟨cleared⟩

def read (file : RegisterFile) (reg : Register) : Word := file.words[reg.index]

def write (file : RegisterFile) (reg : Register) (value : Word) : RegisterFile :=
  { file with words := file.words.set reg.index value }

/-- Moves a register by a signed amount, wrapping around at the word size. -/
def adjust (file : RegisterFile) (reg : Register) (amount : Int) : RegisterFile :=
  file.write reg (file.read reg + BitVec.ofInt 16 amount)

def pc (file : RegisterFile) : Word := file.read .pc

def setPc (file : RegisterFile) (value : Word) : RegisterFile := file.write .pc value

def setFlag (file : RegisterFile) (flag : Flag) (value : Bool) : RegisterFile :=
  { file with codes := file.codes.set flag value }

/-- The lines of a register dump: two registers a line, in octal, and the
condition codes last. -/
def dump (file : RegisterFile) : List String :=
  let show1 (reg : Register) := reg.name ++ "=" ++ Numeral.octalWord (file.read reg).toNat
  let pair (left right : Register) := show1 left ++ " " ++ show1 right
  [pair .r0 .r1, pair .r2 .r3, pair .r4 .r5, pair .sp .pc, "psw=" ++ file.codes.text]

@[simp]
theorem read_write (file : RegisterFile) (reg other : Register) (value : Word) :
    (file.write reg value).read other = if reg = other then value else file.read other := by
  unfold read write
  by_cases heq : reg = other
  · subst heq
    simp
  · have hindex : reg.index.val ≠ other.index.val :=
      fun h => heq (Register.index_injective (Fin.ext h))
    simp [heq, Vector.getElem_set_ne _ _ hindex]

@[simp]
theorem codes_write (file : RegisterFile) (reg : Register) (value : Word) :
    (file.write reg value).codes = file.codes := rfl

@[simp]
theorem read_cleared (reg : Register) : cleared.read reg = 0 := by
  cases reg <;> rfl

theorem ext_read {left right : RegisterFile} (hcodes : left.codes = right.codes)
    (hread : ∀ reg, left.read reg = right.read reg) : left = right := by
  rcases left with ⟨leftWords, leftCodes⟩
  rcases right with ⟨rightWords, rightCodes⟩
  obtain rfl : leftCodes = rightCodes := hcodes
  congr 1
  apply Vector.ext
  intro i hi
  match i, hi with
  | 0, _ => exact hread .r0
  | 1, _ => exact hread .r1
  | 2, _ => exact hread .r2
  | 3, _ => exact hread .r3
  | 4, _ => exact hread .r4
  | 5, _ => exact hread .r5
  | 6, _ => exact hread .sp
  | 7, _ => exact hread .pc

end RegisterFile

end WordMachine
