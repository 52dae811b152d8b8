import WordMachine.Proofs.AddressSpace

/-!
# Whole regions

Loading an image and clearing or copying a region never breach.  An image that fits
takes the place of the whole region for programs: its bytes stand at the start,
and zeros follow them up to the end.  Nothing else in the address space is
touched.
-/

namespace WordMachine

namespace Word

/-- The bytes of words that follow each other in memory. -/
def bytesOf (words : List Word) : List Byte := words.flatMap bytes

@[simp]
theorem bytesOf_cons (word : Word) (rest : List Word) :
    bytesOf (word :: rest) = word.lowByte :: word.highByte :: bytesOf rest := rfl

theorem length_bytesOf (words : List Word) : (bytesOf words).length = 2 * words.length := by
  induction words with
  | nil => rfl
  | cons word rest ih =>
      rw [bytesOf_cons, List.length_cons, List.length_cons, List.length_cons, ih]
      rfl

/-- A word at every second place of the bytes, low byte first. -/
theorem getElem?_bytesOf (words : List Word) (index : Nat) :
    (bytesOf words)[2 * index]? = words[index]?.map lowByte ∧
      (bytesOf words)[2 * index + 1]? = words[index]?.map highByte := by
  induction words generalizing index with
  | nil => exact ⟨rfl, rfl⟩
  | cons word rest ih =>
      cases index with
      | zero => exact ⟨rfl, rfl⟩
      | succ index => exact ih index

end Word

namespace AddressSpace

variable (space : AddressSpace)

/-- The space in which an image fills the region for programs. -/
def withImage (image : List Byte) : AddressSpace :=
  let written := space.memory.overlay Layout.romBase image
  let zeros := List.replicate (Layout.romSize - image.length) 0
  { space with
    memory := written.overlay (Layout.romBase + image.length) zeros
    romLength := image.length }

@[simp]
theorem register_withImage (image : List Byte) (reg : Register) :
    (space.withImage image).register reg = space.register reg := rfl

@[simp]
theorem romLength_withImage (image : List Byte) :
    (space.withImage image).romLength = image.length := rfl

/-- An image is refused if it does not fit, and is placed otherwise. -/
theorem loadImage_eq (image : List Byte) (Reason : Type) :
    space.loadImage image Reason =
      .ok (if Layout.romSize < image.length then .error (.tooLarge image.length Layout.romSize)
        else .ok (space.withImage image)) := by
  rw [loadImage]
  by_cases hlong : Layout.romSize < image.length
  · rw [if_pos hlong, if_pos hlong]
    rfl
  · have hfits := Nat.not_lt.mp hlong
    have hwritten : Layout.romBase + image.length ≤ Layout.spaceSize :=
      Nat.add_le_add_left hfits _
    have hcleared : Layout.romBase + image.length + (Layout.romSize - image.length) ≤
        Layout.spaceSize := by
      have hend : Layout.spaceSize = Layout.romBase + Layout.romSize := rfl
      omega
    rw [if_neg hlong, if_neg hlong, Buffer.write, if_pos hwritten, ok_bind, Buffer.clear,
      if_pos hcleared, ok_bind]
    rfl

/-- The region for programs holds the image and then zeros, and all other bytes
are as they were. -/
theorem byteAt_withImage {image : List Byte} (hfits : image.length ≤ Layout.romSize)
    (place : Nat) :
    (space.withImage image).byteAt place =
      if Layout.romBase ≤ place ∧ place < Layout.spaceSize then
        image[place - Layout.romBase]?.getD 0
      else space.byteAt place := by
  have hend : Layout.spaceSize = Layout.romBase + Layout.romSize := rfl
  rw [byteAt, withImage, Buffer.byteAt_overlay, Buffer.byteAt_overlay]
  · rw [List.length_replicate, byteAt]
    by_cases hrom : Layout.romBase ≤ place ∧ place < Layout.spaceSize
    · rw [if_pos hrom]
      by_cases himage : place < Layout.romBase + image.length
      · rw [if_neg (by omega), if_pos ⟨hrom.1, himage⟩]
      · have hpast : image.length ≤ place - Layout.romBase := by omega
        rw [if_pos (by omega), List.getElem?_eq_none hpast, List.getElem?_replicate]
        split <;> rfl
    · rw [if_neg hrom, if_neg (by omega), if_neg (by omega)]
  · omega
  · rw [List.length_replicate]
    omega

/-- The words of an image can be read where the image was placed. -/
theorem wordAt_withImage {words : List Word} (hfits : 2 * words.length ≤ Layout.romSize)
    {address : WordAddress} {index : Nat} (haddress : address.offset = Layout.romBase + 2 * index)
    {word : Word} (hword : words[index]? = some word) :
    (space.withImage (Word.bytesOf words)).wordAt address = word := by
  have hlength : (Word.bytesOf words).length ≤ Layout.romSize := by
    rw [Word.length_bytesOf]
    exact hfits
  have hspace := address.offset_lt
  obtain ⟨hlow, hhigh⟩ := Word.getElem?_bytesOf words index
  have hrom : Layout.romBase ≤ address.offset := by omega
  have hplace : address.offset - Layout.romBase = 2 * index := by omega
  have hnext : address.offset + 1 - Layout.romBase = 2 * index + 1 := by
    rw [Nat.sub_add_comm hrom, hplace]
  rw [wordAt, byteAt_withImage _ hlength, byteAt_withImage _ hlength, if_pos (by omega),
    if_pos (by omega), hplace, hnext, hlow, hhigh, hword]
  exact Word.ofBytes_bytes word

/-- The space in which the video region holds zeros. -/
def withoutVideo : AddressSpace :=
  { space with
    memory := space.memory.overlay Layout.videoBase (List.replicate Layout.videoSize 0) }

theorem romLength_withoutVideo : space.withoutVideo.romLength = space.romLength := by
  rw [withoutVideo]

theorem clearVideo_eq : space.clearVideo = .ok space.withoutVideo := by
  have hfits : Layout.videoBase + Layout.videoSize ≤ Layout.spaceSize := by decide
  rw [clearVideo, Buffer.clear, if_pos hfits]
  rfl

/-- The bytes of memory from a base on, as many as are asked for. -/
def bytesFrom (base count : Nat) : List Byte := (space.memory.bytes.toList.drop base).take count

theorem length_bytesFrom {base count : Nat} (hfits : base + count ≤ Layout.spaceSize) :
    (space.bytesFrom base count).length = count := by
  rw [bytesFrom, List.length_take, List.length_drop, Vector.length_toList]
  omega

theorem getElem?_bytesFrom {base count index : Nat} (hfits : base + count ≤ Layout.spaceSize)
    (hindex : index < count) :
    (space.bytesFrom base count)[index]? = some (space.byteAt (base + index)) := by
  have hspace : base + index < Layout.spaceSize := by omega
  rw [bytesFrom, List.getElem?_take_of_lt hindex, List.getElem?_drop, byteAt, Buffer.byteAt,
    Vector.getElem?_toList, Vector.getElem?_eq_getElem hspace]
  rfl

theorem video_eq : space.video = .ok (space.bytesFrom Layout.videoBase Layout.videoSize) := by
  have hfits : Layout.videoBase + Layout.videoSize ≤ Layout.spaceSize := by decide
  rw [video, Buffer.read, if_pos hfits]
  rfl

/-- A region that lies in memory can be copied into a buffer of any length. -/
theorem snapshot_eq {base size : Nat} (hfits : base + size ≤ Layout.spaceSize)
    (buffer : List Byte) :
    space.snapshot base size buffer =
      .ok (min buffer.length size,
        space.bytesFrom base (min buffer.length size) ++
          buffer.drop (min buffer.length size)) := by
  have hcopied : base + min buffer.length size ≤ Layout.spaceSize :=
    Nat.le_trans (Nat.add_le_add_left (Nat.min_le_right _ _) base) hfits
  rw [snapshot, Buffer.read, if_pos hcopied]
  rfl

end AddressSpace

end WordMachine
