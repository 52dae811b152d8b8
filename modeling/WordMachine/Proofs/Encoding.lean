import Mathlib.Algebra.Group.Nat.Defs
import Mathlib.Data.List.Pairwise
import Mathlib.Data.List.Perm.Basic
import WordMachine.Proofs.Decoding

/-!
# Encoding instructions

An entry and the fields of its shape make a word, and the word gives both of them back.
The mask of an entry covers the bits that the fields leave over, so the two divide a
word between them.  In a table whose entries claim no word in common the order of the
entries does not matter.
-/

namespace WordMachine

/-! ## Operands in their bits -/

@[simp]
theorem Register.bits_ofBits (bits : BitVec 3) :
    (BitVec.ofFin (ofBits bits).index : BitVec 3) = bits := by
  revert bits
  decide

namespace OperandSpec

theorem bits_ofBits (mode reg : BitVec 3) :
    (⟨.ofBits mode, .ofBits reg⟩ : OperandSpec).bits = mode ++ reg := by
  rw [bits, AddressingMode.bits_ofBits, Register.bits_ofBits]

theorem bits_direct_ofBits (reg : BitVec 3) : (direct (.ofBits reg)).bits = reg.setWidth 6 := by
  revert reg
  decide

theorem ofBits_bits (spec : OperandSpec) :
    (⟨.ofBits (spec.bits.extractLsb' 3 3), .ofBits (spec.bits.extractLsb' 0 3)⟩ : OperandSpec) =
      spec := by
  obtain ⟨mode, reg⟩ := spec
  cases mode <;> cases reg <;> rfl

theorem bits_injective : Function.Injective bits := by
  intro left right heq
  rw [← ofBits_bits left, ← ofBits_bits right, heq]

end OperandSpec

namespace Word

theorem bits_destination (word : Word) : word.destination.bits = word.extractLsb' 0 6 := by
  rw [destination, OperandSpec.bits_ofBits]
  exact BitVec.extractLsb'_append_extractLsb'_eq_extractLsb' rfl

theorem bits_source (word : Word) : word.source.bits = word.extractLsb' 6 6 := by
  rw [source, OperandSpec.bits_ofBits]
  exact BitVec.extractLsb'_append_extractLsb'_eq_extractLsb' rfl

/-- The low bits of a word, as many as a mask has. -/
theorem setWidth_extract (word : Word) {count : Nat} (hcount : count ≤ 16) :
    (word.extractLsb' 0 count).setWidth 16 = word &&& BitVec.ofNat 16 (2 ^ count - 1) := by
  have hpos := Nat.two_pow_pos count
  have hpow : 2 ^ count ≤ 2 ^ 16 := Nat.pow_le_pow_right (by decide) hcount
  have hlow := Nat.mod_lt word.toNat hpos
  apply BitVec.eq_of_toNat_eq
  rw [BitVec.toNat_setWidth, BitVec.extractLsb'_toNat, Nat.shiftRight_zero, BitVec.toNat_and,
    BitVec.toNat_ofNat, Nat.mod_eq_of_lt (by omega : 2 ^ count - 1 < 2 ^ 16),
    Nat.and_two_pow_sub_one_eq_mod, Nat.mod_eq_of_lt (by omega)]

end Word

namespace Fields

/-! ## Fields in their bits -/

theorem toNat_bits_double (src dst : OperandSpec) :
    (double src dst).bits.toNat = 64 * src.bits.toNat + dst.bits.toNat := by
  have hsrc := src.bits.isLt
  rw [bits, BitVec.toNat_or, BitVec.toNat_shiftLeft, BitVec.toNat_setWidth, BitVec.toNat_setWidth,
    Nat.shiftLeft_eq, Nat.mod_eq_of_lt (by omega), Nat.mod_eq_of_lt (by omega),
    Nat.mod_eq_of_lt (by omega), Nat.mul_comm, Nat.two_pow_add_eq_or_of_lt dst.bits.isLt]

theorem source_bits_double (src dst : OperandSpec) : (double src dst).bits.source = src := by
  apply OperandSpec.bits_injective
  apply BitVec.eq_of_toNat_eq
  have hdst := dst.bits.isLt
  have hsrc := src.bits.isLt
  rw [Word.bits_source, BitVec.extractLsb'_toNat, toNat_bits_double, Nat.shiftRight_eq_div_pow]
  omega

theorem destination_bits_double (src dst : OperandSpec) :
    (double src dst).bits.destination = dst := by
  apply OperandSpec.bits_injective
  apply BitVec.eq_of_toNat_eq
  have hdst := dst.bits.isLt
  rw [Word.bits_destination, BitVec.extractLsb'_toNat, toNat_bits_double, Nat.shiftRight_zero]
  omega

theorem destination_bits_single (dst : OperandSpec) : (single dst).bits.destination = dst := by
  apply OperandSpec.bits_injective
  apply BitVec.eq_of_toNat_eq
  have hdst := dst.bits.isLt
  rw [Word.bits_destination, BitVec.extractLsb'_toNat, bits, BitVec.toNat_setWidth,
    Nat.shiftRight_zero]
  omega

/-- Fields can be read back from their bits. -/
theorem decoded_bits {fields : Fields} {shape : Shape} (hfits : fields.Fits shape) :
    decoded shape fields.bits = fields := by
  cases fields with
  | noOperand =>
      cases shape with
      | noOperand => rfl
      | _ => cases hfits
  | single dst =>
      cases shape with
      | singleOperand => rw [decoded, destination_bits_single]
      | _ => cases hfits
  | double src dst =>
      cases shape with
      | doubleOperand => rw [decoded, source_bits_double, destination_bits_double]
      | doubleOperandReg =>
          have hreg : Register.ofBits (double src dst).bits.sourceRegister = src.reg :=
            congrArg OperandSpec.reg (source_bits_double src dst)
          have hmode : src.mode = .register := hfits
          rw [decoded, hreg, destination_bits_double, OperandSpec.direct, ← hmode]
      | _ => cases hfits
  | branch displacement =>
      cases shape with
      | branch =>
          have hlow : (displacement.setWidth 16).extractLsb' 0 8 = displacement := by
            apply BitVec.eq_of_toNat_eq
            have hlt := displacement.isLt
            rw [BitVec.extractLsb'_toNat, BitVec.toNat_setWidth, Nat.shiftRight_zero]
            omega
          rw [decoded, bits, Word.displacement, hlow]
      | _ => cases hfits

end Fields

namespace Shape

/-- The bits of a word that hold the fields of a shape. -/
def fieldMask : Shape → Word
  | noOperand => 0
  | singleOperand => 0o77
  | doubleOperand => 0o7777
  | doubleOperandReg => 0o777
  | branch => 0o377

/-- The bits of a word that hold the opcode of an entry of a shape. -/
def opcodeMask : Shape → Word
  | noOperand => 0o177777
  | singleOperand => 0o177700
  | doubleOperand => 0o170000
  | doubleOperandReg => 0o177000
  | branch => 0o177400

theorem opcodeMask_eq (shape : Shape) : shape.opcodeMask = ~~~shape.fieldMask := by
  cases shape <;> decide

end Shape

namespace Fields

/-- The fields of a word take up the bits for them, as they stand in the word. -/
theorem bits_decoded (shape : Shape) (word : Word) :
    (decoded shape word).bits = word &&& shape.fieldMask := by
  cases shape with
  | noOperand => exact BitVec.and_zero.symm
  | singleOperand =>
      rw [decoded, bits, Word.bits_destination]
      exact word.setWidth_extract (by decide)
  | doubleOperand =>
      refine Eq.trans ?_ (word.setWidth_extract (by decide : 12 ≤ 16))
      apply BitVec.eq_of_toNat_eq
      rw [decoded, toNat_bits_double, Word.bits_source, Word.bits_destination,
        BitVec.toNat_setWidth]
      simp only [BitVec.extractLsb'_toNat, Nat.shiftRight_eq_div_pow]
      omega
  | doubleOperandReg =>
      refine Eq.trans ?_ (word.setWidth_extract (by decide : 9 ≤ 16))
      apply BitVec.eq_of_toNat_eq
      rw [decoded, toNat_bits_double, OperandSpec.bits_direct_ofBits, Word.bits_destination,
        BitVec.toNat_setWidth, BitVec.toNat_setWidth]
      simp only [Word.sourceRegister, BitVec.extractLsb'_toNat, Nat.shiftRight_eq_div_pow]
      omega
  | branch => exact word.setWidth_extract (by decide)

theorem bits_and_fieldMask {fields : Fields} {shape : Shape} (hfits : fields.Fits shape) :
    fields.bits &&& shape.fieldMask = fields.bits := by
  rw [← bits_decoded, decoded_bits hfits]

theorem bits_and_not_fieldMask {fields : Fields} {shape : Shape} (hfits : fields.Fits shape) :
    fields.bits &&& ~~~shape.fieldMask = 0#16 := by
  rw [← bits_and_fieldMask hfits, BitVec.and_assoc, BitVec.and_not_self]
  exact BitVec.and_zero

/-- Bits outside those for the fields have no part in them. -/
theorem decoded_and_fieldMask (shape : Shape) (word : Word) :
    decoded shape (word &&& shape.fieldMask) = decoded shape word := by
  rw [← bits_decoded, decoded_bits (fits_decoded shape word)]

end Fields

namespace Entry

/-! ## Entries and the words that they claim -/

/-- The entry is as it was built: its mask has not been set after that. -/
def AsBuilt (entry : Entry) : Prop :=
  ∃ registerSource, entry = ofEffect entry.name entry.opcode entry.effect registerSource

/-- An entry is as it was built if and only if it has a shape that suits its effect and the
mask of that shape. -/
theorem asBuilt_iff (entry : Entry) :
    entry.AsBuilt ↔ entry.wellShaped = true ∧ entry.mask = entry.shape.opcodeMask := by
  obtain ⟨mask, opcode, shape, name, effect⟩ := entry
  constructor
  · rintro ⟨registerSource, hbuilt⟩
    cases effect <;> cases registerSource <;> cases hbuilt <;> exact ⟨rfl, rfl⟩
  · rintro ⟨hshaped, hmask⟩
    obtain rfl : mask = shape.opcodeMask := hmask
    refine ⟨decide (shape = .doubleOperandReg), ?_⟩
    cases effect <;> cases shape <;> first | rfl | cases hshaped

instance (entry : Entry) : Decidable entry.AsBuilt := decidable_of_iff _ entry.asBuilt_iff.symm

/-- An entry claims words by the bits that its fields leave over. -/
theorem AsBuilt.mask {entry : Entry} (hbuilt : entry.AsBuilt) :
    entry.mask = ~~~entry.shape.fieldMask := by
  rw [← Shape.opcodeMask_eq]
  exact (entry.asBuilt_iff.mp hbuilt).2

theorem selects_iff {entry : Entry} {word : Word} :
    entry.selects word = true ↔ word &&& entry.mask = entry.opcode := by
  rw [selects, beq_iff_eq]

/-- An entry claims the words that it encodes. -/
theorem selects_encode {entry : Entry} (hbuilt : entry.AsBuilt)
    (hopcode : entry.opcode &&& entry.mask = entry.opcode) {fields : Fields}
    (hfits : fields.Fits entry.shape) : entry.selects (entry.encode fields) = true := by
  have hfields : fields.bits &&& entry.mask = 0#16 := by
    rw [hbuilt.mask, Fields.bits_and_not_fieldMask hfits]
  rw [selects_iff, encode, BitVec.and_or_distrib_right, hopcode, hfields, BitVec.or_zero]

/-- The fields that an entry was encoded with can be read back. -/
theorem decoded_encode {entry : Entry} (hbuilt : entry.AsBuilt)
    (hopcode : entry.opcode &&& entry.mask = entry.opcode) {fields : Fields}
    (hfits : fields.Fits entry.shape) : .decoded entry.shape (entry.encode fields) = fields := by
  have hclear : entry.opcode &&& entry.shape.fieldMask = 0#16 := by
    rw [← hopcode, hbuilt.mask, BitVec.and_assoc, BitVec.not_and_self]
    exact BitVec.and_zero
  calc Fields.decoded entry.shape (entry.encode fields)
      = .decoded entry.shape (entry.encode fields &&& entry.shape.fieldMask) :=
          (Fields.decoded_and_fieldMask _ _).symm
    _ = .decoded entry.shape fields.bits := by
          rw [encode, BitVec.and_or_distrib_right, hclear, Fields.bits_and_fieldMask hfits,
            BitVec.zero_or]
    _ = fields := Fields.decoded_bits hfits

/-- A word that an entry claims is made of the entry and its fields. -/
theorem encode_decoded {entry : Entry} (hbuilt : entry.AsBuilt) {word : Word}
    (hselects : entry.selects word = true) :
    entry.encode (.decoded entry.shape word) = word := by
  rw [selects_iff] at hselects
  rw [encode, Fields.bits_decoded, ← hselects, hbuilt.mask, ← BitVec.and_or_distrib_left,
    BitVec.not_or_self, BitVec.and_allOnes]

/-- Two entries that claim a word in common have opcodes that agree where both look. -/
theorem opcode_and_mask_of_selects {left right : Entry} {word : Word}
    (hleft : left.selects word = true) (hright : right.selects word = true) :
    left.opcode &&& right.mask = right.opcode &&& left.mask := by
  rw [selects_iff] at hleft hright
  rw [← hleft, ← hright, BitVec.and_assoc, BitVec.and_assoc, BitVec.and_comm left.mask]

end Entry

namespace Table

/-! ## Tables in any order -/

/-- A table of entries as they were built, each with its opcode inside its mask, in which
a word belongs to one entry at most. -/
structure Orderly (table : Table) : Prop where
  asBuilt : ∀ entry ∈ table.entries, entry.AsBuilt
  opcode : ∀ entry ∈ table.entries, entry.opcode &&& entry.mask = entry.opcode
  disjoint : ∀ left ∈ table.entries, ∀ right ∈ table.entries, ∀ word,
    left.selects word = true → right.selects word = true → left = right

/-- In whatever order an orderly table is searched, a word belongs to the entry that claims
it. -/
theorem Orderly.decode?_eq_some_iff {table reordered : Table} (horderly : table.Orderly)
    (hperm : reordered.entries.Perm table.entries) {word : Word} {entry : Entry} :
    reordered.decode? word = some entry ↔ entry ∈ table.entries ∧ entry.selects word = true := by
  constructor
  · intro hdecode
    exact ⟨hperm.mem_iff.mp (mem_of_decode hdecode), selects_of_decode hdecode⟩
  · rintro ⟨hentry, hselects⟩
    cases hfound : reordered.decode? word with
    | none =>
        have hnone := (reordered.decode?_eq_none_iff word).mp hfound entry
          (hperm.mem_iff.mpr hentry)
        rw [hselects] at hnone
        cases hnone
    | some found =>
        rw [horderly.disjoint found (hperm.mem_iff.mp (mem_of_decode hfound)) entry hentry word
          (selects_of_decode hfound) hselects]

/-- The standard instructions differ, two by two, in a bit of their opcodes at which both
look. -/
theorem opcodes_standard :
    standard.entries.Pairwise fun left right =>
      left.opcode &&& right.mask ≠ right.opcode &&& left.mask := by
  decide

theorem orderly_standard : standard.Orderly where
  asBuilt := by decide
  opcode := by decide
  disjoint := by
    intro left hleft right hright word hselectsLeft hselectsRight
    have hsymm : Std.Symm fun left right : Entry =>
        left.opcode &&& right.mask ≠ right.opcode &&& left.mask := ⟨fun _ _ => Ne.symm⟩
    by_contra hne
    exact opcodes_standard.forall hleft hright hne
      (Entry.opcode_and_mask_of_selects hselectsLeft hselectsRight)

/-- Encoding and decoding are inverse to each other, in whatever order an orderly table is
searched.  An entry and fields of its shape make a word that decodes to the entry and
gives back the fields; a word that decodes is made of its entry and its fields; and the
entry does not depend on the order.  The standard table is orderly. -/
theorem encoding_inverts_decoding :
    standard.Orderly ∧
    ∀ {table reordered : Table}, table.Orderly → reordered.entries.Perm table.entries →
      (∀ entry ∈ table.entries, ∀ fields : Fields, fields.Fits entry.shape →
        reordered.decode? (entry.encode fields) = some entry ∧
        Fields.ofWord entry.shape (entry.encode fields) = .ok fields) ∧
      (∀ word entry, reordered.decode? word = some entry →
        ∃ fields, Fields.ofWord entry.shape word = .ok fields ∧ fields.Fits entry.shape ∧
          entry.encode fields = word) ∧
      ∀ word, reordered.decode? word = table.decode? word := by
  refine ⟨orderly_standard, ?_⟩
  intro table reordered horderly hperm
  refine ⟨?_, ?_, ?_⟩
  · intro entry hentry fields hfits
    have hbuilt := horderly.asBuilt entry hentry
    have hopcode := horderly.opcode entry hentry
    have hselects := Entry.selects_encode hbuilt hopcode hfits
    refine ⟨(horderly.decode?_eq_some_iff hperm).mpr ⟨hentry, hselects⟩, ?_⟩
    rw [Fields.ofWord_eq, Entry.decoded_encode hbuilt hopcode hfits]
  · intro word entry hdecode
    obtain ⟨hentry, hselects⟩ := (horderly.decode?_eq_some_iff hperm).mp hdecode
    exact ⟨_, Fields.ofWord_eq entry.shape word, Fields.fits_decoded entry.shape word,
      Entry.encode_decoded (horderly.asBuilt entry hentry) hselects⟩
  · intro word
    apply Option.ext
    intro entry
    rw [horderly.decode?_eq_some_iff hperm, horderly.decode?_eq_some_iff (List.Perm.refl _)]

/-- The standard table read backwards still gives an exclusive or its register and its
operand. -/
theorem encoding_inverts_decoding_of_reverse :
    (standard.Orderly ∧ standard.entries.reverse.Perm standard.entries ∧
      .doubleReg "xor" 0o074000 .xor ∈ standard.entries ∧
      (Fields.double (.direct .r2) ⟨.autoDecrementDeferred, .sp⟩).Fits .doubleOperandReg) ∧
    (⟨standard.entries.reverse⟩ : Table).decode? 0o074256 =
        some (.doubleReg "xor" 0o074000 .xor) ∧
      Fields.ofWord .doubleOperandReg 0o074256 =
        .ok (.double (.direct .r2) ⟨.autoDecrementDeferred, .sp⟩) := by
  have hperm := standard.entries.reverse_perm
  have hentry : .doubleReg "xor" 0o074000 .xor ∈ standard.entries := by decide
  have hfits : (Fields.double (.direct .r2) ⟨.autoDecrementDeferred, .sp⟩).Fits
      .doubleOperandReg := rfl
  obtain ⟨hstandard, hinverse⟩ := encoding_inverts_decoding
  obtain ⟨hencodes, -, -⟩ :=
    @hinverse standard ⟨standard.entries.reverse⟩ hstandard hperm
  exact ⟨⟨hstandard, hperm, hentry, hfits⟩, hencodes _ hentry _ hfits⟩

end Table

end WordMachine
