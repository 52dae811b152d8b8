import Mathlib.Data.List.Induction
import WordMachine.Proofs.Execution

/-!
# The words that a run stores

A step stores at most one word in memory, and nothing else changes memory.  After
any number of steps, each byte is therefore the one that the last store over it left
there, or the one that was there before if no store reached it.  This holds in all
three regions alike: no region is kept from being written to.
-/

namespace WordMachine

/-- A word that is stored, and where. -/
structure WordStore where
  address : WordAddress
  value : Word
deriving DecidableEq

namespace WordStore

/-- The byte that the store leaves at a place, if it reaches the place. -/
def byte? (store : WordStore) (place : Nat) : Option Byte :=
  if place = store.address.offset then some store.value.lowByte
  else if place = store.address.offset + 1 then some store.value.highByte
  else none

/-- The byte that the last of the stores to reach a place leaves there. -/
def lastByte? (stores : List WordStore) (place : Nat) : Option Byte :=
  stores.foldl (fun last store => (store.byte? place).or last) none

theorem lastByte?_concat (stores : List WordStore) (store : WordStore) (place : Nat) :
    lastByte? (stores ++ [store]) place = (store.byte? place).or (lastByte? stores place) := by
  rw [lastByte?, List.foldl_append]
  rfl

/-- A byte that was left by a store lies in the word that was stored. -/
theorem exists_of_lastByte? {stores : List WordStore} {place : Nat} {byte : Byte}
    (hlast : lastByte? stores place = some byte) :
    ∃ store ∈ stores, place = store.address.offset ∨ place = store.address.offset + 1 := by
  induction stores using List.reverseRecOn with
  | nil => cases hlast
  | append_singleton stores store ih =>
      rw [lastByte?_concat] at hlast
      by_cases hreaches : place = store.address.offset ∨ place = store.address.offset + 1
      · exact ⟨store, List.mem_append_right _ (List.mem_singleton_self store), hreaches⟩
      · rw [not_or] at hreaches
        rw [byte?, if_neg hreaches.1, if_neg hreaches.2, Option.none_or] at hlast
        obtain ⟨earlier, hearlier, hplace⟩ := ih hlast
        exact ⟨earlier, List.mem_append_left _ hearlier, hplace⟩

end WordStore

open WordStore (lastByte?)

namespace AddressSpace

variable (space : AddressSpace)

/-- The space after words were stored one after the other. -/
def withWords (stores : List WordStore) : AddressSpace :=
  stores.foldl (fun space store => space.withWord store.address store.value) space

theorem withWords_append (first second : List WordStore) :
    space.withWords (first ++ second) = (space.withWords first).withWords second := by
  rw [withWords, List.foldl_append]
  rfl

theorem byteAt_withWord_eq (store : WordStore) (place : Nat) :
    (space.withWord store.address store.value).byteAt place =
      (store.byte? place).getD (space.byteAt place) := by
  rw [byteAt_withWord, WordStore.byte?]
  split
  · rfl
  · split <;> rfl

/-- Of several stores over a byte, the last one counts. -/
theorem byteAt_withWords (stores : List WordStore) (place : Nat) :
    (space.withWords stores).byteAt place =
      (lastByte? stores place).getD (space.byteAt place) := by
  induction stores using List.reverseRecOn with
  | nil => rfl
  | append_singleton stores store ih =>
      have hlast : (space.withWords (stores ++ [store])).byteAt place =
          (store.byte? place).getD ((space.withWords stores).byteAt place) := by
        rw [withWords_append]
        exact byteAt_withWord_eq _ store place
      rw [hlast, ih, WordStore.lastByte?_concat]
      cases store.byte? place <;> rfl

/-- What storing words does to memory depends on memory alone. -/
theorem memory_withWords_congr {left right : AddressSpace} (hmemory : left.memory = right.memory)
    (stores : List WordStore) :
    (left.withWords stores).memory = (right.withWords stores).memory := by
  induction stores generalizing left right with
  | nil => exact hmemory
  | cons store rest ih =>
      apply ih
      exact congrArg (·.overlay store.address.offset store.value.bytes) hmemory

end AddressSpace

namespace Effect

/-- The word that the effect stores in memory, if it stores one there. -/
def store? (effect : Effect) (operands : Operands) (space : AddressSpace) : Option WordStore :=
  match effect.stored? operands space with
  | some (.memory address, value) => some ⟨address, value⟩
  | _ => none

theorem memory_after_eq (effect : Effect) (operands : Operands) (space : AddressSpace) :
    (effect.after operands space).memory =
      (space.withWords (effect.store? operands space).toList).memory := by
  rw [store?]
  cases hstored : effect.stored? operands space with
  | none => exact memory_after (by simp [hstored])
  | some stored =>
      obtain ⟨reg | address, value⟩ := stored
      · exact memory_after (by simp [hstored])
      · rw [after_of_stored hstored]
        rfl

end Effect

namespace Machine

variable {machine : Machine}

/-! ## One step -/

/-- The word that an instruction stores in memory, if all its operands are found and it
stores one there. -/
def storeOf? (machine : Machine) (fetched : Fetched) : Option WordStore :=
  match machine.operandSpace.operandsOf fetched.fields with
  | .error _ => none
  | .ok operands =>
      fetched.entry.effect.store? operands
        (machine.operandSpace.followedAll fetched.fields.specs)

/-- The word that the next step stores in memory, if it stores one there. -/
def store? (machine : Machine) : Option WordStore :=
  machine.instruction?.bind machine.storeOf?

theorem memory_executed_eq (fetched : Fetched) :
    (machine.executed fetched).machine.space.memory =
      (machine.space.withWords (machine.storeOf? fetched).toList).memory := by
  rw [storeOf?]
  cases hfound : machine.operandSpace.operandsOf fetched.fields with
  | error fault =>
      rw [space_executed_of_fault _ hfound, memory_followedAll_operandSpace]
      rfl
  | ok operands =>
      rw [space_executed_of_found _ hfound, Effect.memory_after_eq]
      exact AddressSpace.memory_withWords_congr (memory_followedAll_operandSpace _) _

/-- Without an instruction to execute, nothing is stored. -/
theorem memory_withWords_of_none (hnone : machine.instruction? = none) :
    machine.space.memory = (machine.space.withWords machine.store?.toList).memory := by
  rw [store?, hnone]
  rfl

/-- A step changes memory by the word that it stores, and by nothing else. -/
theorem memory_of_exit {transition : Transition} (hexit : machine.Exit transition) :
    transition.machine.space.memory =
      (machine.space.withWords machine.store?.toList).memory := by
  cases hexit with
  | ended hended => exact memory_withWords_of_none (if_pos hended)
  | unfetched hrunning hfault =>
      have hnone : machine.instruction? = none := by
        rw [instruction?, if_neg (Nat.not_le.mpr hrunning), hfault]
      exact memory_withWords_of_none hnone
  | undecoded hrunning hfetch hword =>
      have hnone : machine.instruction? = none := by
        rw [instruction?, if_neg (Nat.not_le.mpr hrunning), hfetch]
        exact Option.map_eq_none_iff.mpr hword
      exact memory_withWords_of_none hnone
  | executed hinstruction =>
      rw [store?, hinstruction]
      exact memory_executed_eq _

theorem store?_facing {word : Word} {entry : Entry}
    (hdecode : Table.standard.decode? word = some entry) :
    (facing word).store? =
      (facing word).storeOf? ⟨0x8000, word, entry, .decoded entry.shape word, .ofDecoding {}⟩ := by
  rw [store?, instruction?_facing hdecode, Option.bind_some]

/-! ## Many steps -/

/-- The words that a number of steps store in memory, in the order of the steps. -/
def stores (machine : Machine) : Nat → List WordStore
  | 0 => []
  | count + 1 =>
      match machine.afterSteps count with
      | .error _ => machine.stores count
      | .ok reached => machine.stores count ++ reached.store?.toList

theorem stores_one : machine.stores 1 = machine.store?.toList := rfl

theorem stores_succ {reached : Machine} {count : Nat}
    (hreached : machine.afterSteps count = .ok reached) :
    machine.stores (count + 1) = machine.stores count ++ reached.store?.toList := by
  rw [stores, hreached]

/-- Steps change memory by the words that they store, and by nothing else. -/
theorem exists_memory_afterSteps (hshaped : machine.table.WellShaped) (count : Nat) :
    ∃ reached, machine.afterSteps count = .ok reached ∧ reached.table = machine.table ∧
      reached.space.memory = (machine.space.withWords (machine.stores count)).memory := by
  induction count with
  | zero => exact ⟨machine, rfl, rfl, rfl⟩
  | succ count ih =>
      obtain ⟨reached, hreached, htable, hmemory⟩ := ih
      obtain ⟨transition, hstep, hexit⟩ := reached.exists_exit (htable ▸ hshaped)
      refine ⟨transition.machine, afterSteps_succ hreached hstep,
        (table_of_exit hexit).trans htable, ?_⟩
      rw [memory_of_exit hexit, AddressSpace.memory_withWords_congr hmemory, stores_succ hreached,
        AddressSpace.withWords_append]

/-- After a number of steps each byte is the one that the last store over it left, and
one that no store has reached is as it was.  So the region for programs keeps all its
bytes exactly if the last store over each of them puts there the byte that was there
before; nothing else protects it. -/
theorem byteAt_afterSteps (hshaped : machine.table.WellShaped) (count : Nat) :
    ∃ reached, machine.afterSteps count = .ok reached ∧
      (∀ place, reached.space.byteAt place =
        (lastByte? (machine.stores count) place).getD (machine.space.byteAt place)) ∧
      ((∀ place, Layout.romBase ≤ place → place < Layout.spaceSize →
          reached.space.byteAt place = machine.space.byteAt place) ↔
        ∀ place byte, Layout.romBase ≤ place →
          lastByte? (machine.stores count) place = some byte →
          byte = machine.space.byteAt place) := by
  obtain ⟨reached, hreached, -, hmemory⟩ := exists_memory_afterSteps hshaped count
  have hbyte : ∀ place, reached.space.byteAt place =
      (lastByte? (machine.stores count) place).getD (machine.space.byteAt place) := by
    intro place
    rw [← AddressSpace.byteAt_withWords, AddressSpace.byteAt, AddressSpace.byteAt, hmemory]
  refine ⟨reached, hreached, hbyte, ?_⟩
  constructor
  · intro hkept place byte hrom hlast
    have hspace : place < Layout.spaceSize := by
      obtain ⟨store, -, hreaches⟩ := WordStore.exists_of_lastByte? hlast
      have hfits := store.address.offset_lt
      omega
    rw [← hkept place hrom hspace, hbyte, hlast, Option.getD_some]
  · intro hsame place hrom hspace
    rw [hbyte]
    cases hlast : lastByte? (machine.stores count) place with
    | none => rfl
    | some byte => exact hsame place byte hrom hlast

/-- Clearing a word of working memory keeps the region for programs. -/
theorem byteAt_afterSteps_of_clear :
    Table.standard.WellShaped ∧ ∃ reached, (facing 0o005010).afterSteps 1 = .ok reached ∧
      reached.space.byteAt 0 = 0 ∧
      ∀ place, Layout.romBase ≤ place → place < Layout.spaceSize →
        reached.space.byteAt place = (facing 0o005010).space.byteAt place := by
  have hstores : (facing 0o005010).stores 1 = [⟨⟨0, by decide⟩, 0⟩] := by
    rw [stores_one, store?_facing
      (rfl : Table.standard.decode? 0o005010 = some (.single "clr" 0o005000 .clr))]
    rfl
  have hshaped : (facing 0o005010).table.WellShaped := Table.standard_wellShaped
  obtain ⟨reached, hreached, hbyte, hkept⟩ := byteAt_afterSteps hshaped 1
  refine ⟨Table.standard_wellShaped, reached, hreached, ?_, hkept.mpr ?_⟩
  · rw [hbyte, hstores]
    rfl
  · intro place byte hrom hlast
    rw [hstores] at hlast
    obtain ⟨store, hstore, hreaches⟩ := WordStore.exists_of_lastByte? hlast
    obtain rfl := List.mem_singleton.mp hstore
    have hlow : place < Layout.romBase := by
      obtain rfl | rfl := hreaches
      · decide
      · decide
    exact absurd hrom (Nat.not_le.mpr hlow)

/-- A program can write over itself: clearing the word before the program counter
clears the instruction that does so. -/
theorem clear_overwrites_itself :
    (facing 0o005047).table = .standard ∧ (facing 0o005047).space.romLength = 2 ∧
    (facing 0o005047).space.byteAt 0x8000 = 0x27 ∧
    ∃ reached, (facing 0o005047).afterSteps 1 = .ok reached ∧
      reached.space.byteAt 0x8000 = 0 := by
  have hfirst : (facing 0o005047).space.byteAt 0x8000 = Word.lowByte 0o005047 := by
    rw [facing, AddressSpace.setPc_eq_setRegister]
    exact (AddressSpace.byteAt_withWord _ ⟨0x8000, by decide⟩ _ _).trans (if_pos rfl)
  have hstores : (facing 0o005047).stores 1 = [⟨⟨0x8000, by decide⟩, 0⟩] := by
    rw [stores_one, store?_facing
      (rfl : Table.standard.decode? 0o005047 = some (.single "clr" 0o005000 .clr))]
    rfl
  have hshaped : (facing 0o005047).table.WellShaped := Table.standard_wellShaped
  obtain ⟨reached, hreached, -, hmemory⟩ := exists_memory_afterSteps hshaped 1
  refine ⟨rfl, rfl, hfirst, reached, hreached, ?_⟩
  rw [AddressSpace.byteAt, hmemory, ← AddressSpace.byteAt, AddressSpace.byteAt_withWords, hstores]
  rfl

end Machine

end WordMachine
