import WordMachine.Proofs.InstructionLength

/-!
# Forward progress

Operands and branches move the program counter forward only, by whole words.  As
long as no instruction diverts it by other means, each step takes the machine
closer to the end of the program, and it ends after no more steps than the
program has words.  This holds whatever the program does to its own image.
-/

namespace WordMachine

namespace Machine

/-- The instruction can move the program counter otherwise than forward: it has a
result, and the program counter for its destination, or one of its operands
moves the program counter back. -/
def Fetched.Diverts (fetched : Fetched) : Prop :=
  fetched.Targets .pc ∨ ∃ spec ∈ fetched.fields.specs, spec.backsUp = true

/-- What every machine on its way through a program satisfies. -/
structure OnCourse (machine : Machine) : Prop where
  shaped : machine.table.WellShaped
  length : machine.space.romLength ≤ Layout.romSize
  start : Layout.romBase ≤ machine.pc.toNat
  even : machine.pc.toNat % wordSize = 0

/-- The program counter moves forward by whole words, and by one at least. -/
def MovesOn (machine after : Machine) : Prop :=
  ∃ words, 0 < words ∧ after.pc.toNat = machine.pc.toNat + wordSize * words

variable {machine : Machine} {fetched : Fetched}

/-! ## One step -/

theorem exists_endCursor_eq (hpc : fetched.pc = machine.pc) :
    ∃ words, 0 < words ∧ fetched.endCursor = machine.pc.toNat + wordSize * words := by
  obtain ⟨words, hwords⟩ :=
    exists_cursorAfter_eq fetched.fields.specs (fetched.pc.toNat + wordSize)
  refine ⟨words + 1, Nat.succ_pos words, ?_⟩
  rw [Fetched.endCursor, hwords, hpc, Nat.mul_succ, Nat.add_assoc, Nat.add_comm wordSize]

theorem movesOn_executed (hshaped : machine.table.WellShaped)
    (hinstruction : machine.instruction? = some fetched) (hforward : ¬fetched.Diverts) :
    machine.MovesOn (machine.executed fetched).machine := by
  have hfields := suitsFields_of_instruction? hshaped hinstruction
  have hback : ∀ spec ∈ fetched.fields.specs, spec.backsUp = false := by
    intro spec hspec
    rw [← Bool.not_eq_true]
    intro hbacks
    exact hforward (.inr ⟨spec, hspec, hbacks⟩)
  obtain ⟨words, hwords, hend⟩ := exists_endCursor_eq (pc_of_instruction? hinstruction).1
  by_cases hbranches : ∃ displacement, fetched.Branches machine.codes displacement
  · obtain ⟨displacement, hbranches⟩ := hbranches
    refine ⟨words + displacement.toNat, Nat.add_pos_left hwords _, ?_⟩
    calc (machine.executed fetched).machine.pc.toNat
        = fetched.endCursor + wordSize * displacement.toNat :=
          toNat_pc_executed_of_branches hinstruction hback hbranches
      _ = machine.pc.toNat + wordSize * (words + displacement.toNat) := by
          rw [hend, Nat.mul_add, Nat.add_assoc]
  · refine ⟨words, hwords, ?_⟩
    rw [← hend]
    apply toNat_pc_executed hinstruction hfields hback (not_exists.mp hbranches)
    intro hwrites
    exact hforward (.inl hwrites.2)

theorem movesOn_skipped (hroom : machine.pc.toNat + 1 < Layout.spaceSize) :
    machine.MovesOn machine.skipped :=
  ⟨1, Nat.one_pos, toNat_pc_operandSpace hroom⟩

namespace OnCourse

/-- A machine on course has room for the word that it fetches. -/
theorem room (hcourse : machine.OnCourse)
    (hrunning : machine.pc.toNat < machine.space.programEnd) :
    machine.pc.toNat + 1 < Layout.spaceSize := by
  have heven : machine.pc.toNat % 2 = 0 := hcourse.even
  have hlength := hcourse.length
  have hend : Layout.spaceSize = Layout.romBase + Layout.romSize := rfl
  have hwhole : Layout.spaceSize % 2 = 0 := rfl
  rw [AddressSpace.programEnd] at hrunning
  omega

theorem of_movesOn (hcourse : machine.OnCourse) {after : Machine}
    (htable : after.table = machine.table)
    (hlength : after.space.romLength = machine.space.romLength)
    (hmoves : machine.MovesOn after) : after.OnCourse := by
  obtain ⟨words, -, hpc⟩ := hmoves
  refine ⟨htable ▸ hcourse.shaped, hlength ▸ hcourse.length, ?_, ?_⟩
  · rw [hpc]
    exact Nat.le_add_right_of_le hcourse.start
  · rw [hpc, Nat.add_mul_mod_self_left, hcourse.even]

end OnCourse

/-- A step on course finishes, or moves on and stays on course. -/
structure Progress (machine : Machine) (transition : Transition) : Prop where
  onCourse : transition.machine.OnCourse
  length : transition.machine.space.romLength = machine.space.romLength
  fetched : ∀ fault, transition.outcome ≠ .error (.fetch fault)
  moves : transition.outcome ≠ .ok .finished → machine.MovesOn transition.machine

theorem progress_of_exit (hcourse : machine.OnCourse)
    (hforward : ∀ fetched, machine.instruction? = some fetched → ¬fetched.Diverts)
    {transition : Transition} (hexit : machine.Exit transition) :
    machine.Progress transition := by
  cases hexit with
  | ended hended =>
      exact ⟨hcourse, rfl, by simp, fun hunfinished => absurd rfl hunfinished⟩
  | unfetched hrunning hfault =>
      rw [WordAddress.ofFetch_of_even hcourse.start (hcourse.room hrunning) hcourse.even] at hfault
      cases hfault
  | undecoded hrunning hfetch hword =>
      have hmoves := movesOn_skipped (hcourse.room hrunning)
      exact ⟨hcourse.of_movesOn rfl rfl hmoves, rfl, by simp, fun _ => hmoves⟩
  | executed hinstruction =>
      have hmoves := movesOn_executed hcourse.shaped hinstruction (hforward _ hinstruction)
      exact ⟨hcourse.of_movesOn table_executed romLength_executed hmoves, romLength_executed,
        by simp [retire], fun _ => hmoves⟩

theorem exists_progress (hcourse : machine.OnCourse)
    (hforward : ∀ fetched, machine.instruction? = some fetched → ¬fetched.Diverts) :
    ∃ transition, machine.step = .ok transition ∧ machine.Progress transition := by
  obtain ⟨transition, hstep, hexit⟩ := machine.exists_exit hcourse.shaped
  exact ⟨transition, hstep, progress_of_exit hcourse hforward hexit⟩

/-! ## Many steps -/

/-- The program ends within so many steps. -/
def EndsWithin (machine : Machine) (count : Nat) : Prop :=
  ∃ earlier ≤ count, ∃ reached transition, machine.afterSteps earlier = .ok reached ∧
    reached.step = .ok transition ∧ transition.outcome = .ok .finished

/-- No instruction among the first steps diverts the program counter. -/
def RunsForward (machine : Machine) (count : Nat) : Prop :=
  ∀ earlier < count, ∀ reached fetched, machine.afterSteps earlier = .ok reached →
    reached.instruction? = some fetched → ¬fetched.Diverts

theorem EndsWithin.succ {count : Nat} (hends : machine.EndsWithin count) :
    machine.EndsWithin (count + 1) := by
  obtain ⟨earlier, hearlier, hrest⟩ := hends
  exact ⟨earlier, Nat.le_succ_of_le hearlier, hrest⟩

theorem MovesOn.le {after : Machine} (hmoves : machine.MovesOn after) :
    machine.pc.toNat + wordSize ≤ after.pc.toNat := by
  obtain ⟨words, hwords, hpc⟩ := hmoves
  rw [hpc]
  exact Nat.add_le_add_left (Nat.le_mul_of_pos_right wordSize hwords) _

/-- Steps that run forward stay on course, and each takes the program counter
past one word at least, until the program ends. -/
theorem exists_reached (hcourse : machine.OnCourse) {count : Nat}
    (hforward : machine.RunsForward count) {done : Nat} (hdone : done ≤ count) :
    ∃ reached, machine.afterSteps done = .ok reached ∧ reached.OnCourse ∧
      reached.space.romLength = machine.space.romLength ∧
      (machine.EndsWithin done ∨ machine.pc.toNat + wordSize * done ≤ reached.pc.toNat) := by
  induction done with
  | zero => exact ⟨machine, rfl, hcourse, rfl, .inr (Nat.le_refl _)⟩
  | succ done ih =>
      obtain ⟨reached, hreached, hstays, hlength, hfar⟩ := ih (Nat.le_of_succ_le hdone)
      obtain ⟨transition, hstep, hprogress⟩ := exists_progress hstays fun fetched =>
        hforward done hdone reached fetched hreached
      refine ⟨transition.machine, afterSteps_succ hreached hstep, hprogress.onCourse,
        hprogress.length.trans hlength, ?_⟩
      -- A step that finishes need not move on, but then the program has ended.
      by_cases hfinished : transition.outcome = .ok .finished
      · exact .inl ⟨done, Nat.le_succ done, reached, transition, hreached, hstep, hfinished⟩
      · refine hfar.imp EndsWithin.succ fun hfar => ?_
        calc machine.pc.toNat + wordSize * (done + 1)
            = machine.pc.toNat + wordSize * done + wordSize := by rw [Nat.mul_succ, Nat.add_assoc]
          _ ≤ reached.pc.toNat + wordSize := Nat.add_le_add_right hfar wordSize
          _ ≤ transition.machine.pc.toNat := (hprogress.moves hfinished).le

/-- A machine that runs forward for as many steps as its program has words sees
the program end. -/
theorem endsWithin_of_runsForward (hcourse : machine.OnCourse) {count : Nat}
    (hforward : machine.RunsForward count) (hcount : (machine.space.romLength + 1) / 2 ≤ count) :
    machine.EndsWithin ((machine.space.romLength + 1) / 2) := by
  obtain ⟨reached, hreached, -, hlength, hends | hfar⟩ := exists_reached hcourse hforward hcount
  · exact hends
  · -- The program counter has been moved past every word of the program.
    have hended : reached.space.programEnd ≤ reached.pc.toNat := by
      have hwords : machine.space.romLength ≤ 2 * ((machine.space.romLength + 1) / 2) := by omega
      calc reached.space.programEnd
          = Layout.romBase + machine.space.romLength := by rw [AddressSpace.programEnd, hlength]
        _ ≤ machine.pc.toNat + 2 * ((machine.space.romLength + 1) / 2) :=
            Nat.add_le_add hcourse.start hwords
        _ ≤ reached.pc.toNat := hfar
    exact ⟨_, Nat.le_refl _, reached, _, hreached, step_of_ended reached hended, rfl⟩

/-- A machine that runs forward from an even address in the region of the program
stays on even addresses there.  None of its steps fails to fetch, each of them
moves the program counter on until the program ends, and it ends after no more
steps than it has words, a last odd byte counting as one. -/
theorem forward_progress (hshaped : machine.table.WellShaped)
    (hlength : machine.space.romLength ≤ Layout.romSize)
    (hstart : Layout.romBase ≤ machine.pc.toNat) (heven : machine.pc.toNat % 2 = 0) {count : Nat}
    (hforward : machine.RunsForward count) :
    (∀ done ≤ count, ∃ reached, machine.afterSteps done = .ok reached ∧
      Layout.romBase ≤ reached.pc.toNat ∧ reached.pc.toNat % 2 = 0) ∧
    (∀ done < count, ∃ reached transition, machine.afterSteps done = .ok reached ∧
      reached.step = .ok transition ∧
      (∀ fault, transition.outcome ≠ .error (.fetch fault)) ∧
      (transition.outcome ≠ .ok .finished →
        reached.pc.toNat + 2 ≤ transition.machine.pc.toNat)) ∧
    ((machine.space.romLength + 1) / 2 ≤ count →
      machine.EndsWithin ((machine.space.romLength + 1) / 2)) := by
  have hcourse : machine.OnCourse := ⟨hshaped, hlength, hstart, heven⟩
  refine ⟨?_, ?_, ?_⟩
  · intro done hdone
    obtain ⟨reached, hreached, hstays, -⟩ := exists_reached hcourse hforward hdone
    exact ⟨reached, hreached, hstays.start, hstays.even⟩
  · intro done hdone
    obtain ⟨reached, hreached, hstays, -⟩ :=
      exists_reached hcourse hforward (Nat.le_of_lt hdone)
    obtain ⟨transition, hstep, hprogress⟩ := exists_progress hstays fun fetched =>
      hforward done hdone reached fetched hreached
    exact ⟨reached, transition, hreached, hstep, hprogress.fetched,
      fun hunfinished => (hprogress.moves hunfinished).le⟩
  · exact endsWithin_of_runsForward hcourse hforward

/-- A branch past the end of a program of one word ends it. -/
theorem forward_progress_of_branch :
    (Table.standard.WellShaped ∧ (facing 0o000402).space.romLength ≤ Layout.romSize ∧
      Layout.romBase ≤ (facing 0o000402).pc.toNat ∧ (facing 0o000402).pc.toNat % 2 = 0 ∧
      (facing 0o000402).RunsForward 1) ∧
    (facing 0o000402).EndsWithin 1 := by
  have hinstruction := instruction?_facing
    (rfl : Table.standard.decode? 0o000402 = some (.branch "br" 0o000400 .always))
  have hlength : (facing 0o000402).space.romLength ≤ Layout.romSize :=
    (by decide : wordSize ≤ Layout.romSize)
  have hstart : Layout.romBase ≤ (facing 0o000402).pc.toNat := by
    rw [pc_facing]
    decide
  have heven : (facing 0o000402).pc.toNat % 2 = 0 := by
    rw [pc_facing]
    rfl
  have hforward : (facing 0o000402).RunsForward 1 := by
    intro earlier hearlier reached fetched hreached hfetched
    obtain rfl : earlier = 0 := Nat.lt_one_iff.mp hearlier
    obtain rfl := Except.ok.inj hreached
    obtain rfl := Option.some.inj (hinstruction.symm.trans hfetched)
    rintro (⟨hwrites, -⟩ | ⟨spec, hspec, -⟩)
    · cases hwrites
    · cases hspec
  obtain ⟨-, -, hends⟩ :=
    forward_progress Table.standard_wellShaped hlength hstart heven hforward
  exact ⟨⟨Table.standard_wellShaped, hlength, hstart, heven, hforward⟩, hends (Nat.le_refl 1)⟩

end Machine

end WordMachine
