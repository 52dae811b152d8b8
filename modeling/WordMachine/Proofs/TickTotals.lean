import WordMachine.Proofs.Accounts
import WordMachine.Proofs.Timing

/-!
# Tick totals

What a machine charges for a run depends on the costs of its stages and on the number of
instructions that it executed since its last reset, and on nothing else.  Operands that
are not found and branches that are taken change nothing in it, and steps that execute no
instruction are free.
-/

namespace WordMachine

namespace Accounts

/-- Every step was charged in full, at the same costs. -/
structure Metered (costs : StageCosts) (accounts : Accounts) : Prop where
  costs_eq : accounts.costs = costs
  timer_eq : accounts.timer = .uniform costs accounts.timer.steps

theorem lasting_metered (costs : StageCosts) : Lasting (Metered costs) where
  retired := by
    intro accounts hmetered shape printed taken faulted
    refine ⟨hmetered.costs_eq, ?_⟩
    change accounts.timer.commit (.ofCosts accounts.costs) =
      .uniform costs (accounts.timer.steps + 1)
    rw [Timer.uniform_succ, ← hmetered.timer_eq, hmetered.costs_eq]
  rejected := fun hmetered => ⟨hmetered.costs_eq, hmetered.timer_eq⟩
  cleared := fun hmetered => ⟨hmetered.costs_eq, rfl⟩

end Accounts

namespace Machine

/-- What a machine has charged for a number of instructions, with its stages at these
costs. -/
structure TickTotals (machine : Machine) (costs : StageCosts) (count : Nat) : Prop where
  naive : machine.timer.naive = count * costs.total
  optimized : machine.timer.optimized =
    if count = 0 then 0 else costs.total + (count - 1) * costs.slowest
  naiveTicks : machine.stats.naiveTicks = machine.timer.naive
  optimizedTicks : machine.stats.optimizedTicks = machine.timer.optimized
  optimized_le_naive : machine.timer.optimized ≤ machine.timer.naive
  /-- Nothing is saved if there is no second instruction, or no second stage that costs
  anything. -/
  optimized_eq_naive_iff : machine.timer.optimized = machine.timer.naive ↔
    count ≤ 1 ∨ costs.toList.countP (0 < ·) ≤ 1
  saved : machine.stats.ticksSaved = (count - 1) * (costs.total - costs.slowest)
  /-- What is reported as saved is the true difference. -/
  optimized_add_saved :
    machine.stats.optimizedTicks + machine.stats.ticksSaved = machine.stats.naiveTicks

theorem tickTotals_of_uniform {machine : Machine} {costs : StageCosts} {count : Nat}
    (htimer : machine.timer = .uniform costs count)
    (hnaive : machine.stats.naiveTicks = machine.timer.naive)
    (hoptimized : machine.stats.optimizedTicks = machine.timer.optimized) :
    machine.TickTotals costs count := by
  have htotals := Timer.optimized_add_saved_uniform costs count
  rw [← htimer] at htotals
  have hle : machine.timer.optimized ≤ machine.timer.naive := Nat.le.intro htotals
  have hsaved : machine.stats.ticksSaved = (count - 1) * (costs.total - costs.slowest) := by
    rw [Statistics.ticksSaved, hnaive, hoptimized, ← htotals, Nat.add_sub_cancel_left]
  exact {
    naive := htimer ▸ Timer.naive_uniform costs count
    optimized := htimer ▸ Timer.optimized_uniform costs count
    naiveTicks := hnaive
    optimizedTicks := hoptimized
    optimized_le_naive := hle
    optimized_eq_naive_iff := htimer ▸ Timer.optimized_eq_naive_uniform_iff costs count
    saved := hsaved
    optimized_add_saved := by rw [hsaved, hnaive, hoptimized, htotals] }

/-- After any commands from power-on on, a machine has charged for the steps since its
last reset that executed an instruction, and for no others.  The naive price charges each
of them all four stages.  The optimized price does so for the first of them only, and
charges the slowest stage for every later one. -/
theorem tick_totals (config : Config) {table : Table}
    (hbuilt : ∀ entry ∈ table.entries, entry.Built) {Reason : Type}
    (commands : List (Command Reason)) :
    ∃ acts reached,
      (withTable config table).journal commands = .ok (acts, reached) ∧
      acts.map (·.command) = commands ∧
      (withTable config table).run commands = .ok (acts.map (·.performed.answer), reached) ∧
      reached.TickTotals config.costs ((sinceReset acts).countP Act.continued) := by
  have hshaped := Table.wellShaped_of_built hbuilt
  have hstart : (withTable config table).accounts.Reconcile config.general.traceDepth
      (sinceReset ([] : List (Act Reason))) :=
    ⟨.cleared (withTable config table).accounts, TraceLog.shows_empty _⟩
  obtain ⟨acts, reached, hjournal, htally, -⟩ := exists_journal hshaped hstart commands
  obtain ⟨hcommands, hrun⟩ := run_of_journal hjournal
  have hmetered : reached.accounts.Metered config.costs :=
    lasting_of_journal (Accounts.lasting_metered config.costs) hshaped ⟨rfl, rfl⟩ hjournal
  have hcount : reached.timer.steps = (sinceReset acts).countP Act.continued :=
    htally.steps.trans htally.instructions
  refine ⟨acts, reached, hjournal, hcommands, hrun, ?_⟩
  exact tickTotals_of_uniform (hcount ▸ hmetered.timer_eq) htally.naiveTicks htally.optimizedTicks

/-- With stages at 2, 3, 5 and 7 ticks, every instruction after the first saves ten of
seventeen ticks, whatever faults, resets and words that are no instructions come between
them. -/
theorem tick_totals_of_overlap :
    (∀ entry ∈ [(Entry.single "clr" 0 .clr).withMask 0o177000, .branch "br" 0o000400 .always],
      entry.Built) ∧
    ∃ (acts : List Act) (reached : Machine),
      (withTable { costs := ⟨2, 3, 5, 7⟩ }
          ⟨[(Entry.single "clr" 0 .clr).withMask 0o177000, .branch "br" 0o000400 .always]⟩).run
          [.load [0x22, 0x00, 0xFF, 0xFF, 0x01, 0x00], .setRegister .pc 0x8000, .step, .step,
            .reset, .load [0x22, 0x00, 0xFF, 0xFF, 0x01, 0x00], .setRegister .pc 0x8000, .step,
            .step, .step, .step] =
        .ok (acts.map (·.performed.answer), reached) ∧
      reached.stats.naiveTicks = (sinceReset acts).countP Act.continued * 17 ∧
      reached.stats.ticksSaved = ((sinceReset acts).countP Act.continued - 1) * 10 := by
  have hbuilt : ∀ entry ∈
      [(Entry.single "clr" 0 .clr).withMask 0o177000, .branch "br" 0o000400 .always],
      entry.Built :=
    List.forall_mem_cons.mpr ⟨.withMask 0o177000 (.single "clr" 0 .clr),
      List.forall_mem_singleton.mpr (.branch "br" 0o000400 .always)⟩
  obtain ⟨acts, reached, -, -, hrun, htotals⟩ :=
    tick_totals { costs := ⟨2, 3, 5, 7⟩ } hbuilt
      [.load [0x22, 0x00, 0xFF, 0xFF, 0x01, 0x00], .setRegister .pc 0x8000, .step, .step,
        .reset, .load [0x22, 0x00, 0xFF, 0xFF, 0x01, 0x00], .setRegister .pc 0x8000, .step,
        .step, .step, .step]
  exact ⟨hbuilt, acts, reached, hrun, htotals.naiveTicks.trans htotals.naive, htotals.saved⟩

end Machine

end WordMachine
