import Mathlib.Data.Nat.Digits.Defs
import WordMachine.Trace

/-!
# What a trace keeps

A trace keeps the end of its history: the last of the lines that were put into it since
it was last cleared, as many as its capacity.
-/

namespace WordMachine

/-! ## The last elements of a list -/

section LastOf

variable {α β : Type} (count : Nat) (elements : List α)

theorem length_lastOf : (lastOf count elements).length = min count elements.length := by
  rw [lastOf, List.length_drop, Nat.sub_sub_eq_min, Nat.min_comm]

theorem map_lastOf (f : α → β) :
    (lastOf count elements).map f = lastOf count (elements.map f) := by
  rw [lastOf, lastOf, List.map_drop, List.length_map]

/-- Elements that are not among the last ones are not missed when more are added. -/
theorem lastOf_lastOf_append (more : List α) :
    lastOf count (lastOf count elements ++ more) = lastOf count (elements ++ more) := by
  have hlost : lastOf count elements ++ more =
      (elements ++ more).drop (elements.length - count) :=
    (List.drop_append_of_le_length (Nat.sub_le _ _)).symm
  rw [hlost, lastOf, lastOf, List.drop_drop, List.length_drop]
  congr 1
  rw [List.length_append]
  omega

theorem getLast?_lastOf (hcount : 0 < count) :
    (lastOf count elements).getLast? = elements.getLast? := by
  rw [lastOf, List.getLast?_drop]
  split
  · rename_i hnone
    obtain rfl : elements = [] := List.length_eq_zero_iff.mp (by omega)
    rfl
  · rfl

end LastOf

/-! ## Traces -/

namespace TraceBuffer

/-- The lines of a trace are the last ones of a history. -/
def Keeps (trace : TraceBuffer) (history : List String) : Prop :=
  trace.lines = lastOf trace.capacity history

theorem clear_eq (trace : TraceBuffer) : trace.clear = .empty trace.capacity := rfl

theorem keeps_nil_iff {trace : TraceBuffer} : trace.Keeps [] ↔ trace.lines = [] := by
  simp [Keeps, lastOf]

theorem Keeps.length_le {trace : TraceBuffer} {history : List String}
    (hkeeps : trace.Keeps history) : trace.lines.length ≤ trace.capacity := by
  rw [hkeeps, length_lastOf]
  exact Nat.min_le_left _ _

/-- Of the lines that a buffer has and the one that is added, it keeps the last ones. -/
theorem lines_push {trace : TraceBuffer} (hroom : trace.lines.length ≤ trace.capacity)
    (line : String) :
    (trace.push line).lines = lastOf trace.capacity (trace.lines ++ [line]) := by
  have hlength : (trace.lines ++ [line]).length = trace.lines.length + 1 := List.length_append
  rw [lastOf, hlength, push]
  by_cases hcapacity : trace.capacity = 0
  · have hnone : trace.lines = [] := List.length_eq_zero_iff.mp (by omega)
    rw [if_pos hcapacity, hcapacity, hnone]
    rfl
  · rw [if_neg hcapacity]
    by_cases hfull : trace.lines.length = trace.capacity
    · have hlost : trace.lines.length + 1 - trace.capacity = 1 := by omega
      rw [if_pos hfull, hlost, List.drop_append_of_le_length (by omega)]
    · have hlost : trace.lines.length + 1 - trace.capacity = 0 := by omega
      rw [if_neg hfull, hlost, List.drop_zero]

theorem Keeps.push {trace : TraceBuffer} {history : List String} (hkeeps : trace.Keeps history)
    (line : String) : (trace.push line).Keeps (history ++ [line]) := by
  change (trace.push line).lines = lastOf trace.capacity (history ++ [line])
  rw [lines_push hkeeps.length_le, hkeeps, lastOf_lastOf_append]

theorem latest?_push {trace : TraceBuffer} (hcapacity : 0 < trace.capacity) (line : String) :
    (trace.push line).latest? = some line := by
  rw [latest?, push, if_neg (Nat.ne_of_gt hcapacity)]
  split
  · exact List.getLast?_concat
  · exact List.getLast?_concat

end TraceBuffer

/-! ## Words as four digits -/

namespace Numeral

/-- One more digit holds what is left over when a number is divided by the base. -/
theorem leftpad_toDigits {base width number : Nat} (hbase : 1 < base) (hwidth : 0 < width) :
    (Nat.toDigits base number).leftpad (width + 1) '0' =
      (Nat.toDigits base (number / base)).leftpad width '0' ++ [(number % base).digitChar] := by
  obtain hlt | hle := Nat.lt_or_ge number base
  · have hzero : Nat.toDigits base 0 = ['0'] := Nat.toDigits_of_lt_base (Nat.lt_of_succ_lt hbase)
    obtain ⟨rest, rfl⟩ := Nat.exists_eq_succ_of_ne_zero (Nat.ne_of_gt hwidth)
    rw [Nat.div_eq_of_lt hlt, Nat.mod_eq_of_lt hlt, Nat.toDigits_of_lt_base hlt, hzero]
    simp [List.leftpad, List.replicate_succ']
  · rw [Nat.toDigits_of_base_le hbase hle]
    simp only [List.leftpad, List.length_append, List.length_singleton, Nat.add_sub_add_right,
      List.append_assoc]

/-- The digits of a word from the highest down, each of them four bits of it. -/
theorem toList_hexWord {number : Nat} (hnumber : number < 16 ^ 4) :
    (hexWord number).toList =
      [number / 16 ^ 3, number / 16 ^ 2 % 16, number / 16 % 16, number % 16].map
        Nat.digitChar := by
  have htop : number / 16 / 16 / 16 < 16 := by omega
  rw [hexWord, padded, String.toList_ofList, leftpad_toDigits (by decide) (by decide),
    leftpad_toDigits (by decide) (by decide), leftpad_toDigits (by decide) (by decide),
    Nat.toDigits_of_lt_base htop]
  simp [List.leftpad, Nat.div_div_eq_div_mul]

theorem digitChar_inj {low high : Nat} (hlow : low < 16) (hhigh : high < 16)
    (hdigit : low.digitChar = high.digitChar) : low = high := by
  have hall : ∀ low < 16, ∀ high < 16, low.digitChar = high.digitChar → low = high := by decide
  exact hall low hlow high hhigh hdigit

/-- No two words have the same digits. -/
theorem hexWord_inj {low high : Nat} (hlow : low < 16 ^ 4) (hhigh : high < 16 ^ 4)
    (hdigits : hexWord low = hexWord high) : low = high := by
  have hlist := congrArg String.toList hdigits
  rw [toList_hexWord hlow, toList_hexWord hhigh] at hlist
  simp only [List.map_cons, List.map_nil, List.cons.injEq, and_true] at hlist
  obtain ⟨hfirst, hsecond, hthird, hfourth⟩ := hlist
  have := digitChar_inj (by omega) (by omega) hfirst
  have := digitChar_inj (by omega) (by omega) hsecond
  have := digitChar_inj (by omega) (by omega) hthird
  have := digitChar_inj (by omega) (by omega) hfourth
  omega

end Numeral

/-- What the log of a run shows of an instruction. -/
structure Printed where
  line : String
  word : Word

namespace Printed

/-- The word as four hexadecimal digits. -/
def digits (printed : Printed) : String := Numeral.hexWord printed.word.toNat

theorem toList_digits (printed : Printed) :
    printed.digits.toList =
      [printed.word.toNat / 16 ^ 3, printed.word.toNat / 16 ^ 2 % 16,
        printed.word.toNat / 16 % 16, printed.word.toNat % 16].map Nat.digitChar :=
  Numeral.toList_hexWord printed.word.isLt

theorem length_digits (printed : Printed) : printed.digits.length = 4 := by
  rw [← String.length_toList, toList_digits]
  rfl

/-- The digits tell the word. -/
theorem word_eq_of_digits_eq {printed other : Printed} (hdigits : printed.digits = other.digits) :
    printed.word = other.word :=
  BitVec.eq_of_toNat_eq (Numeral.hexWord_inj printed.word.isLt other.word.isLt hdigits)

end Printed

namespace TraceLog

/-- Both traces of a log show the last of the instructions in a history. -/
structure Shows (log : TraceLog) (depth : Nat) (history : List Printed) : Prop where
  disassemblyCapacity : log.disassembly.capacity = depth
  bytesCapacity : log.bytes.capacity = depth
  disassembly : log.disassembly.Keeps (history.map Printed.line)
  bytes : log.bytes.Keeps (history.map Printed.digits)

variable {log : TraceLog} {depth : Nat} {history : List Printed}

theorem shows_empty (depth : Nat) : (TraceLog.empty depth).Shows depth [] :=
  ⟨rfl, rfl, TraceBuffer.keeps_nil_iff.mpr rfl, TraceBuffer.keeps_nil_iff.mpr rfl⟩

namespace Shows

variable (hshows : log.Shows depth history)
include hshows

theorem push (printed : Printed) :
    (log.push printed.line printed.word).Shows depth (history ++ [printed]) where
  disassemblyCapacity := hshows.disassemblyCapacity
  bytesCapacity := hshows.bytesCapacity
  disassembly := by
    rw [List.map_append]
    exact hshows.disassembly.push printed.line
  bytes := by
    rw [List.map_append]
    exact hshows.bytes.push printed.digits

theorem clear : log.clear.Shows depth [] where
  disassemblyCapacity := hshows.disassemblyCapacity
  bytesCapacity := hshows.bytesCapacity
  disassembly := TraceBuffer.keeps_nil_iff.mpr rfl
  bytes := TraceBuffer.keeps_nil_iff.mpr rfl

theorem disassembly_lines :
    log.disassembly.lines = (lastOf depth history).map Printed.line := by
  rw [map_lastOf, ← hshows.disassemblyCapacity]
  exact hshows.disassembly

theorem bytes_lines : log.bytes.lines = (lastOf depth history).map Printed.digits := by
  rw [map_lastOf, ← hshows.bytesCapacity]
  exact hshows.bytes

theorem disassembly_length : log.disassembly.length = min depth history.length := by
  rw [TraceBuffer.length, hshows.disassembly_lines, List.length_map, length_lastOf]

theorem bytes_length : log.bytes.length = min depth history.length := by
  rw [TraceBuffer.length, hshows.bytes_lines, List.length_map, length_lastOf]

theorem length_of_mem_bytes {line : String} (hline : line ∈ log.bytes.lines) :
    line.length = 4 := by
  rw [hshows.bytes_lines, List.mem_map] at hline
  obtain ⟨printed, -, rfl⟩ := hline
  exact printed.length_digits

end Shows

end TraceLog

end WordMachine
