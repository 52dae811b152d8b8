import WordMachine.Proofs.StoredWords
import WordMachine.Proofs.WholeRegions

/-!
# Flat memory

Memory is one run of bytes.  A word is two neighbours in it, low byte first, and words may
overlap and straddle the regions as they please: of several stores over a byte, the last one
counts.  Words that are read and regions that are copied show these bytes and no others.
-/

namespace WordMachine

namespace WordStore

variable {stores earlier later : List WordStore} {place : Nat} {initial byte : Byte}

/-! ## The last store over a byte -/

/-- The byte is what stores leave at a place that held an initial byte: the last of them that
reached the place put it there, as the low byte of a word at that address or as the high byte
of a word just below. -/
inductive Leave (stores : List WordStore) (place : Nat) (initial : Byte) : Byte → Prop
  | untouched (hnone : ∀ store ∈ stores, store.byte? place = none) :
      Leave stores place initial initial
  | last {earlier later : List WordStore} {byte : Byte} (store : WordStore)
      (hstores : stores = earlier ++ store :: later) (hbyte : store.byte? place = some byte)
      (hlast : ∀ other ∈ later, other.byte? place = none) : Leave stores place initial byte

/-- Later stores elsewhere do not matter. -/
theorem lastByte?_append (hlater : ∀ store ∈ later, store.byte? place = none) :
    lastByte? (earlier ++ later) place = lastByte? earlier place := by
  induction later using List.reverseRecOn with
  | nil => rw [List.append_nil]
  | append_singleton later store ih =>
      obtain ⟨hlater, hstore⟩ := List.forall_mem_append.mp hlater
      rw [← List.append_assoc, lastByte?_concat, List.forall_mem_singleton.mp hstore,
        Option.none_or, ih hlater]

theorem Leave.concat (hleave : Leave stores place initial byte) {store : WordStore}
    (hstore : store.byte? place = none) : Leave (stores ++ [store]) place initial byte := by
  have hmore : ∀ {later : List WordStore}, (∀ other ∈ later, other.byte? place = none) →
      ∀ other ∈ later ++ [store], other.byte? place = none :=
    fun hlater => List.forall_mem_append.mpr ⟨hlater, List.forall_mem_singleton.mpr hstore⟩
  cases hleave with
  | untouched hnone => exact .untouched (hmore hnone)
  | @last earlier later byte last hstores hbyte hlast =>
      have hmoved : stores ++ [store] = earlier ++ last :: (later ++ [store]) := by
        rw [hstores, List.append_assoc, List.cons_append]
      exact .last last hmoved hbyte (hmore hlast)

theorem leave_lastByte? (stores : List WordStore) (place : Nat) (initial : Byte) :
    Leave stores place initial ((lastByte? stores place).getD initial) := by
  induction stores using List.reverseRecOn with
  | nil => exact .untouched (List.forall_mem_nil _)
  | append_singleton stores store ih =>
      rw [lastByte?_concat]
      cases hbyte : store.byte? place with
      | none => exact ih.concat hbyte
      | some byte => exact .last store rfl hbyte (List.forall_mem_nil _)

/-- Whatever the stores are, there is one byte that they leave at a place. -/
theorem leave_iff :
    Leave stores place initial byte ↔ (lastByte? stores place).getD initial = byte := by
  constructor
  · intro hleave
    cases hleave with
    | untouched hnone =>
        have hlast : lastByte? ([] ++ stores) place = none := lastByte?_append hnone
        rw [← List.nil_append stores, hlast, Option.getD_none]
    | last store hstores hbyte hlast =>
        rw [hstores, List.append_cons, lastByte?_append hlast, lastByte?_concat, hbyte,
          Option.some_or, Option.getD_some]
  · rintro rfl
    exact leave_lastByte? stores place initial

end WordStore

namespace AddressSpace

variable (space : AddressSpace)

/-! ## Storing words -/

/-- Stores words at addresses that may lie outside memory, up to the first one that does. -/
def storeWords (space : AddressSpace) :
    List (Word × Word) → Checked (Except MemoryFault AddressSpace)
  | [] => return .ok space
  | (address, value) :: rest =>
      match WordAddress.ofWord address with
      | .error fault => return .error fault
      | .ok address => do (← space.storeWord address value).storeWords rest

theorem storeWords_eq (stores : List WordStore) :
    space.storeWords (stores.map fun store => (store.address.val, store.value)) =
      .ok (.ok (space.withWords stores)) := by
  induction stores generalizing space with
  | nil => rfl
  | cons store rest ih =>
      rw [List.map_cons, storeWords, WordAddress.ofWord_val]
      change (space.storeWord store.address store.value >>= _) = _
      rw [storeWord_eq, ok_bind, ih]
      rfl

theorem registers_and_romLength_withWords (stores : List WordStore) :
    (space.withWords stores).registers = space.registers ∧
      (space.withWords stores).romLength = space.romLength := by
  induction stores generalizing space with
  | nil => exact ⟨rfl, rfl⟩
  | cons store rest ih => exact ih (space.withWord store.address store.value)

/-! ## Reading words and copying regions -/

/-- A buffer is shown with the bytes from a base on over its start, as many as it has room for
and the region is long. -/
structure Shows (base size : Nat) (buffer : List Byte) (shown : Nat × List Byte) : Prop where
  count : shown.1 = min buffer.length size
  length : shown.2.length = buffer.length
  copied : ∀ index, index < min buffer.length size →
    shown.2[index]? = some (space.byteAt (base + index))
  kept : ∀ index, min buffer.length size ≤ index → shown.2[index]? = buffer[index]?

theorem exists_snapshot {base size : Nat} (hfits : base + size ≤ Layout.spaceSize)
    (buffer : List Byte) :
    ∃ shown, space.snapshot base size buffer = .ok shown ∧ space.Shows base size buffer shown := by
  have hcopied : base + min buffer.length size ≤ Layout.spaceSize := by omega
  have hlength := space.length_bytesFrom hcopied
  refine ⟨_, space.snapshot_eq hfits buffer, rfl, ?_, ?_, ?_⟩
  · rw [List.length_append, hlength, List.length_drop]
    omega
  · intro index hindex
    rw [List.getElem?_append_left (hlength.symm ▸ hindex), space.getElem?_bytesFrom hcopied hindex]
  · intro index hindex
    rw [List.getElem?_append_right (hlength.symm ▸ hindex), hlength, List.getElem?_drop,
      Nat.add_sub_cancel' hindex]

/-- All that is read in memory are its bytes. -/
structure ReadsBytes : Prop where
  word : ∀ address : Word, address.toNat ≤ 0xBFFE →
    ∃ value, space.readWord address = .ok (.ok value) ∧
      value.toNat =
        (space.byteAt address.toNat).toNat + 256 * (space.byteAt (address.toNat + 1)).toNat
  outside : ∀ address : Word, 0xBFFE < address.toNat →
    space.readWord address = .ok (.error (.addressOutOfRange address.toNat 0xC000))
  video : ∀ buffer, ∃ shown, space.videoSnapshot buffer = .ok shown ∧
    space.Shows Layout.videoBase Layout.videoSize buffer shown
  rom : ∀ buffer, ∃ shown, space.romSnapshot buffer = .ok shown ∧
    space.Shows Layout.romBase Layout.romSize buffer shown

theorem readsBytes : space.ReadsBytes where
  word := by
    intro address hinside
    have hend : Layout.spaceSize = 0xC000 := rfl
    have hfits : address.toNat + 1 < Layout.spaceSize := by omega
    refine ⟨space.wordAt ⟨address, hfits⟩, ?_, Word.toNat_ofBytes _ _⟩
    rw [readWord_eq, wordAt?, WordAddress.ofWord, dif_pos hfits]
    rfl
  outside := by
    intro address houtside
    have hend : Layout.spaceSize = 0xC000 := rfl
    have hpast : ¬address.toNat + 1 < Layout.spaceSize := by omega
    rw [readWord_eq, wordAt?, WordAddress.ofWord, dif_neg hpast]
    rfl
  video := space.exists_snapshot (by decide)
  rom := space.exists_snapshot (by decide)

/-- Words can be stored at any addresses that have room for a word, in any order.  Each byte of
memory is then the low byte of the last word stored there, or the high byte of the last one
stored just below, whichever came later, and all that is read in memory are these bytes.
Nothing but memory is changed. -/
theorem stores_and_reads_bytes (stores : List WordStore) :
    ∃ after,
      space.storeWords (stores.map fun store => (store.address.val, store.value)) =
        .ok (.ok after) ∧
      (∀ place byte, after.byteAt place = byte ↔
        WordStore.Leave stores place (space.byteAt place) byte) ∧
      after.ReadsBytes ∧
      after.registers = space.registers ∧ after.romLength = space.romLength := by
  refine ⟨space.withWords stores, space.storeWords_eq stores, ?_, readsBytes _,
    space.registers_and_romLength_withWords stores⟩
  intro place byte
  rw [WordStore.leave_iff, byteAt_withWords]

end AddressSpace

end WordMachine
