import WordMachine.Breach
import WordMachine.Word

/-!
# Byte buffers

A buffer is a fixed number of bytes.  Words in it are two bytes long, low byte
first, and may stand at any offset.  Every access is checked: one that does not
lie wholly inside the buffer is a breach, also when it is for no bytes at all.
-/

namespace WordMachine

structure Buffer (size : Nat) where
  bytes : Vector Byte size
deriving DecidableEq

namespace Buffer

variable {size : Nat}

/-- A buffer of zeros. -/
def zeroed (size : Nat) : Buffer size := ⟨Vector.replicate size 0⟩

/-- The byte at an offset, and zero past the end of the buffer. -/
def byteAt (buffer : Buffer size) (offset : Nat) : Byte := buffer.bytes[offset]?.getD 0

def readWord (buffer : Buffer size) (offset : Nat) : Checked Word :=
  if h : offset + 1 < size then .ok (.ofBytes buffer.bytes[offset] buffer.bytes[offset + 1])
  else .error (.bufferBounds offset 2 size)

/-- Puts bytes into the buffer one after the other; those that would fall past
its end are lost. -/
def overlay (buffer : Buffer size) (offset : Nat) : List Byte → Buffer size
  | [] => buffer
  | byte :: rest => overlay ⟨buffer.bytes.setIfInBounds offset byte⟩ (offset + 1) rest

def writeWord (buffer : Buffer size) (offset : Nat) (value : Word) : Checked (Buffer size) :=
  if offset + 1 < size then .ok (buffer.overlay offset value.bytes)
  else .error (.bufferBounds offset 2 size)

def read (buffer : Buffer size) (offset count : Nat) : Checked (List Byte) :=
  if offset + count ≤ size then .ok ((buffer.bytes.toList.drop offset).take count)
  else .error (.bufferBounds offset count size)

def write (buffer : Buffer size) (offset : Nat) (data : List Byte) : Checked (Buffer size) :=
  if offset + data.length ≤ size then .ok (buffer.overlay offset data)
  else .error (.bufferBounds offset data.length size)

def clear (buffer : Buffer size) (offset count : Nat) : Checked (Buffer size) :=
  if offset + count ≤ size then .ok (buffer.overlay offset (List.replicate count 0))
  else .error (.bufferBounds offset count size)

@[simp]
theorem byteAt_zeroed (size offset : Nat) : (zeroed size).byteAt offset = 0 := by
  simp only [byteAt, zeroed, Vector.getElem?_replicate]
  split <;> rfl

/-- What an overlay covers holds the new bytes, and all else what it held. -/
theorem byteAt_overlay (buffer : Buffer size) (offset : Nat) (data : List Byte)
    (hfits : offset + data.length ≤ size) (place : Nat) :
    (buffer.overlay offset data).byteAt place =
      if offset ≤ place ∧ place < offset + data.length then data[place - offset]?.getD 0
      else buffer.byteAt place := by
  induction data generalizing buffer offset with
  | nil =>
      rw [if_neg (by simp)]
      rfl
  | cons byte rest ih =>
      simp only [List.length_cons] at hfits
      rw [overlay, ih _ (offset + 1) (by omega)]
      by_cases hfirst : place = offset
      · subst hfirst
        rw [if_neg (by omega), if_pos (by simp)]
        simp [byteAt, show place < size by omega]
      · by_cases hrest : offset + 1 ≤ place ∧ place < offset + 1 + rest.length
        · rw [if_pos hrest, if_pos (by simp only [List.length_cons]; omega),
            show place - offset = (place - (offset + 1)) + 1 by omega, List.getElem?_cons_succ]
        · rw [if_neg hrest, if_neg (by simp only [List.length_cons]; omega)]
          simp [byteAt, Vector.getElem?_setIfInBounds_ne (fun h => hfirst h.symm)]

theorem readWord_eq (buffer : Buffer size) {offset : Nat} (hfits : offset + 1 < size) :
    buffer.readWord offset = .ok (.ofBytes (buffer.byteAt offset) (buffer.byteAt (offset + 1))) := by
  simp [readWord, byteAt, hfits, show offset < size by omega]

theorem writeWord_eq (buffer : Buffer size) {offset : Nat} (hfits : offset + 1 < size)
    (value : Word) : buffer.writeWord offset value = .ok (buffer.overlay offset value.bytes) :=
  if_pos hfits

theorem ext_byteAt {left right : Buffer size}
    (heq : ∀ place, place < size → left.byteAt place = right.byteAt place) : left = right := by
  rcases left with ⟨left⟩
  rcases right with ⟨right⟩
  congr 1
  apply Vector.ext
  intro place hplace
  simpa [byteAt, hplace] using heq place hplace

end Buffer

end WordMachine
