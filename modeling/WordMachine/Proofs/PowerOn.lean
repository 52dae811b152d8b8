import WordMachine.Machine.Session
import WordMachine.Proofs.Accounts

/-!
# Reset and power-on

Nothing that a user can request of a machine changes what it was set up with: its table,
the costs of its stages, and how many lines its traces keep.  A reset discards everything
else but the choice of detail.  From then on no session can tell the machine from one
that was just switched on.
-/

namespace WordMachine

/-! ## What a machine was set up with -/

namespace Accounts

/-- Nothing of the configuration that concerns the accounts has changed. -/
structure SetUp (config : Config) (accounts : Accounts) : Prop where
  costs : accounts.costs = config.costs
  disassembly : accounts.traces.disassembly.capacity = config.general.traceDepth
  bytes : accounts.traces.bytes.capacity = config.general.traceDepth

theorem lasting_setUp (config : Config) : Lasting (SetUp config) where
  retired := fun hsetUp _ _ _ _ => ⟨hsetUp.costs, hsetUp.disassembly, hsetUp.bytes⟩
  rejected := fun hsetUp => ⟨hsetUp.costs, hsetUp.disassembly, hsetUp.bytes⟩
  cleared := fun hsetUp => ⟨hsetUp.costs, hsetUp.disassembly, hsetUp.bytes⟩

end Accounts

namespace Machine

/-- The machine was set up with this configuration and this table. -/
structure SetUp (config : Config) (table : Table) (machine : Machine) : Prop where
  table : machine.table = table
  accounts : machine.accounts.SetUp config

variable {Reason : Type} {config : Config} {table : Table} {machine : Machine}

theorem setUp_withTable (config : Config) (table : Table) :
    (withTable config table).SetUp config table := ⟨rfl, rfl, rfl, rfl⟩

/-- All that a reset leaves of a machine's past is the choice of detail. -/
theorem SetUp.reset_eq (hsetUp : machine.SetUp config table) :
    machine.reset = { withTable config table with tracing := machine.tracing } := by
  obtain ⟨rfl, haccounts⟩ := hsetUp
  have hcosts : machine.costs = config.costs := haccounts.costs
  have hdisassembly : machine.traces.disassembly.capacity = config.general.traceDepth :=
    haccounts.disassembly
  have hbytes : machine.traces.bytes.capacity = config.general.traceDepth := haccounts.bytes
  -- The traces are cleared in place, and so it is their capacity that makes them new ones.
  have htraces : machine.traces.clear = .empty config.general.traceDepth := by
    rw [TraceLog.clear, TraceBuffer.clear_eq, TraceBuffer.clear_eq, hdisassembly, hbytes]
    rfl
  rw [reset, withTable, htraces, hcosts]

/-! ## Requests -/

/-- Looking at a machine never breaches. -/
theorem exists_look (machine : Machine) (view : View) : ∃ seen, machine.look view = .ok seen := by
  cases view with
  | word address => exact ⟨_, machine.space.readWord_eq address⟩
  | video => exact ⟨_, machine.space.video_eq⟩
  | videoSnapshot buffer => exact ⟨_, machine.space.snapshot_eq (by decide) buffer⟩
  | romSnapshot buffer => exact ⟨_, machine.space.snapshot_eq (by decide) buffer⟩
  | _ => exact ⟨_, rfl⟩

theorem SetUp.exists_grant (hsetUp : machine.SetUp config table) (hshaped : table.WellShaped)
    (request : Request Reason) :
    ∃ reply after, machine.grant request = .ok (reply, after) ∧ after.SetUp config table := by
  cases request with
  | command command =>
      obtain ⟨performed, hperformed, htable, henters⟩ :=
        exists_enters (hsetUp.table ▸ hshaped) command
      refine ⟨.performed performed.answer performed.events, performed.machine, ?_,
        htable.trans hsetUp.table, ?_⟩
      · rw [grant, hperformed]
        rfl
      · exact (Accounts.lasting_setUp config).of_enters henters hsetUp.accounts
  | look view =>
      obtain ⟨seen, hseen⟩ := machine.exists_look view
      refine ⟨.seen view seen, machine, ?_, hsetUp⟩
      rw [grant, hseen]
      rfl
  | changeSpace change => exact ⟨_, _, rfl, hsetUp.table, hsetUp.accounts⟩
  | changeStats change =>
      have haccounts := hsetUp.accounts
      exact ⟨_, _, rfl, hsetUp.table, haccounts.costs, haccounts.disassembly, haccounts.bytes⟩

/-- A machine with a well-shaped table grants any requests, and none of them changes what
it was set up with. -/
theorem SetUp.exists_serve (hsetUp : machine.SetUp config table) (hshaped : table.WellShaped)
    (requests : List (Request Reason)) :
    ∃ replies reached, machine.serve requests = .ok (replies, reached) ∧
      reached.SetUp config table := by
  induction requests generalizing machine with
  | nil => exact ⟨[], machine, rfl, hsetUp⟩
  | cons request rest ih =>
      obtain ⟨reply, after, hgrant, hafter⟩ := hsetUp.exists_grant hshaped request
      obtain ⟨replies, reached, hserve, hreached⟩ := ih hafter
      refine ⟨reply :: replies, reached, ?_, hreached⟩
      simp only [serve, hgrant, hserve, ok_bind]
      rfl

/-! ## After a reset -/

/-- A machine that is reset after any session replies to any further session as one that
was just switched on does, with the same choice of detail.  The entries of the table have
effects of the kinds that `Effect` lists: a function of the user's own could remember what
it was called for before. -/
theorem reset_serves_as_power_on (config : Config) {table : Table}
    (hbuilt : ∀ entry ∈ table.entries, entry.Built) (past later : List (Request Reason)) :
    ∃ pastReplies reached,
      (withTable config table).serve past = .ok (pastReplies, reached) ∧
      ∃ replies last,
        reached.reset.serve later = .ok (replies, last) ∧
        { withTable config table with tracing := reached.tracing }.serve later =
          .ok (replies, last) := by
  have hshaped : table.WellShaped := Table.wellShaped_of_built hbuilt
  obtain ⟨pastReplies, reached, hpast, hreached⟩ :=
    (setUp_withTable config table).exists_serve hshaped past
  have hreset := hreached.reset_eq
  have hcleared : reached.reset.SetUp config table :=
    ⟨hreached.table, (Accounts.lasting_setUp config).cleared hreached.accounts⟩
  obtain ⟨replies, last, hserve, -⟩ := hcleared.exists_serve hshaped later
  exact ⟨pastReplies, reached, hpast, replies, last, hserve, hreset ▸ hserve⟩

/-- A full trace, statistics that were tampered with, and a switch that was turned on are
no exception. -/
theorem reset_serves_as_power_on_of_overlap :
    (∀ entry ∈ [(Entry.single "clr" 0 .clr).withMask 0o177000, .branch "br" 0o000400 .always],
      entry.Built) ∧
    ∃ (pastReplies : List Reply) (reached : Machine),
      (withTable { general := ⟨false, 1⟩, costs := ⟨2, 3, 5, 7⟩ }
          ⟨[(Entry.single "clr" 0 .clr).withMask 0o177000, .branch "br" 0o000400 .always]⟩).serve
          [.command (.load [0x22, 0x00, 0x01, 0x01]), .command (.setRegister .pc 0x8000),
            .command .step, .command (.setTracing true), .command .step, .look .traces,
            .changeStats (fun stats => { stats with naiveTicks := 0 }),
            .changeSpace (fun space => { space with romLength := 6 })] =
        .ok (pastReplies, reached) ∧
      ∃ (replies : List Reply) (last : Machine),
        reached.reset.serve
            [.look .programEnd, .command (.load [0x22, 0x00]),
              .command (.setRegister .pc 0x8000), .command .step, .look .traces, .look .ticks,
              .look (.report ⟨"0", "0"⟩ []), .look (.romSnapshot [7, 7, 7])] =
          .ok (replies, last) ∧
        serve { withTable { general := ⟨false, 1⟩, costs := ⟨2, 3, 5, 7⟩ }
            ⟨[(Entry.single "clr" 0 .clr).withMask 0o177000, .branch "br" 0o000400 .always]⟩ with
            tracing := reached.tracing }
            [.look .programEnd, .command (.load [0x22, 0x00]),
              .command (.setRegister .pc 0x8000), .command .step, .look .traces, .look .ticks,
              .look (.report ⟨"0", "0"⟩ []), .look (.romSnapshot [7, 7, 7])] =
          .ok (replies, last) := by
  have hbuilt : ∀ entry ∈
      [(Entry.single "clr" 0 .clr).withMask 0o177000, .branch "br" 0o000400 .always],
      entry.Built :=
    List.forall_mem_cons.mpr ⟨.withMask 0o177000 (.single "clr" 0 .clr),
      List.forall_mem_singleton.mpr (.branch "br" 0o000400 .always)⟩
  exact ⟨hbuilt, reset_serves_as_power_on _ hbuilt _ _⟩

end Machine

end WordMachine
