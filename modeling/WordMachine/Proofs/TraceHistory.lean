import WordMachine.Proofs.Posting
import WordMachine.Proofs.Trace

/-!
# Traces as the ends of their histories

However lines are put into a trace and however often it is cleared, it shows the last lines since
it was last cleared, in their order and as many as its capacity.  The two traces of a log
stay in step: a line of one and the line beside it in the other are about one instruction.
-/

namespace WordMachine

/-- The elements are the last ones of a history, as many of them as are asked for. -/
structure IsEnd {α : Type} (count : Nat) (history elements : List α) : Prop where
  suffix : elements <:+ history
  length : elements.length = min count history.length

theorem isEnd_lastOf {α : Type} (count : Nat) (history : List α) :
    IsEnd count history (lastOf count history) :=
  ⟨List.drop_suffix _ _, length_lastOf count history⟩

/-- The end of an end is an end. -/
theorem lastOf_lastOf {α : Type} (count capacity : Nat) (history : List α) :
    lastOf count (lastOf capacity history) = lastOf (min count capacity) history := by
  rw [lastOf, length_lastOf, lastOf, lastOf, List.drop_drop]
  congr 1
  omega

namespace TraceBuffer

variable {trace : TraceBuffer} {capacity : Nat} {history : List String}

/-- The trace shows the end of its history and nothing else, however it is looked at. -/
structure ShowsEnd (trace : TraceBuffer) (capacity : Nat) (history : List String) : Prop where
  all : IsEnd capacity history trace.lines
  length_le : trace.length ≤ capacity
  latest : trace.latest? = if capacity = 0 then none else history.getLast?
  last : ∀ count, IsEnd (min count capacity) history (trace.last count)

theorem Keeps.showsEnd (hkeeps : trace.Keeps history) :
    trace.ShowsEnd trace.capacity history where
  all := by
    rw [hkeeps]
    exact isEnd_lastOf _ _
  length_le := hkeeps.length_le
  latest := by
    rw [latest?, hkeeps]
    by_cases hcapacity : trace.capacity = 0
    · rw [if_pos hcapacity, hcapacity, lastOf, Nat.sub_zero, List.drop_length]
      rfl
    · rw [if_neg hcapacity, getLast?_lastOf _ _ (Nat.pos_of_ne_zero hcapacity)]
  last := by
    intro count
    rw [last, hkeeps, lastOf_lastOf]
    exact isEnd_lastOf _ _

end TraceBuffer

namespace TraceLog

/-- The two traces of a log are equally long, and the lines at one place in them come from one
push: that of an instruction in the history, as far from the end of it as the lines are from
theirs. -/
structure InStep (log : TraceLog) (history : List Printed) : Prop where
  length : log.disassembly.length = log.bytes.length
  lines : ∀ index, index < log.disassembly.length →
    ∃ printed, history[history.length - log.disassembly.length + index]? = some printed ∧
      log.disassembly.lines[index]? = some printed.line ∧
      log.bytes.lines[index]? = some printed.digits

theorem Shows.inStep {log : TraceLog} {depth : Nat} {history : List Printed}
    (hshows : log.Shows depth history) : log.InStep history where
  length := by rw [hshows.disassembly_length, hshows.bytes_length]
  lines := by
    intro index hindex
    rw [hshows.disassembly_length] at hindex ⊢
    have hplace : history.length - min depth history.length + index < history.length := by omega
    have hlost : history.length - depth = history.length - min depth history.length := by omega
    have hlast : (lastOf depth history)[index]? =
        history[history.length - min depth history.length + index]? := by
      rw [lastOf, List.getElem?_drop, hlost]
    refine ⟨_, List.getElem?_eq_getElem hplace, ?_, ?_⟩
    · rw [hshows.disassembly_lines, List.getElem?_map, hlast, List.getElem?_eq_getElem hplace]
      rfl
    · rw [hshows.bytes_lines, List.getElem?_map, hlast, List.getElem?_eq_getElem hplace]
      rfl

/-! ## Whole histories -/

/-- A log of an empty history after instructions were recorded in it and it was cleared at
times. -/
def posted (depth : Nat) (instructions : List (Posting Printed)) : TraceLog :=
  Posting.posted (fun log printed => log.push printed.line printed.word) clear (.empty depth)
    instructions

theorem shows_posted (depth : Nat) (instructions : List (Posting Printed)) :
    (posted depth instructions).Shows depth (Posting.sinceClear instructions) := by
  refine Posting.keeps_sinceClear (fun (log : TraceLog) history => log.Shows depth history) ?_ ?_
    (shows_empty depth) instructions
  · exact fun log history printed hshows => hshows.push printed
  · exact fun log history hshows => hshows.clear

end TraceLog

namespace TraceBuffer

/-- A trace of an empty history after lines were put into it and it was cleared at times. -/
def posted (capacity : Nat) (lines : List (Posting String)) : TraceBuffer :=
  Posting.posted push clear (.empty capacity) lines

theorem keeps_posted (capacity : Nat) (lines : List (Posting String)) :
    (posted capacity lines).capacity = capacity ∧
      (posted capacity lines).Keeps (Posting.sinceClear lines) := by
  refine Posting.keeps_sinceClear
    (fun (trace : TraceBuffer) history => trace.capacity = capacity ∧ trace.Keeps history) ?_ ?_
    ⟨rfl, keeps_nil_iff.mpr rfl⟩ lines
  · exact fun trace history line hkeeps => ⟨hkeeps.1, hkeeps.2.push line⟩
  · exact fun trace history hkeeps => ⟨hkeeps.1, keeps_nil_iff.mpr rfl⟩

end TraceBuffer

/-- Whatever is put into traces of any capacity and whenever they are cleared, a trace shows the
end of what was put into it since, and the two traces of a log go together line by line. -/
theorem TraceLog.traces_show_ends (capacity : Nat) (lines : List (Posting String))
    (instructions : List (Posting Printed)) :
    (TraceBuffer.posted capacity lines).ShowsEnd capacity (Posting.sinceClear lines) ∧
      (TraceLog.posted capacity instructions).InStep (Posting.sinceClear instructions) := by
  obtain ⟨hcapacity, hkeeps⟩ := TraceBuffer.keeps_posted capacity lines
  constructor
  · have hshows := hkeeps.showsEnd
    rwa [hcapacity] at hshows
  · exact (shows_posted capacity instructions).inStep

end WordMachine
