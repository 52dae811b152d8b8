import WordMachine.Instruction.Table

/-!
# The standard instructions

Forty-eight instructions, no two of which claim the same word.  Opcodes are
written in octal, in which the operand fields of a word are whole digits.
-/

namespace WordMachine

def Table.standard : Table := ⟨[
  .noOperand "halt" 0o000000 .halt,
  .noOperand "nop" 0o000240 .nop,
  .noOperand "clc" 0o000241 (.clear .c),
  .noOperand "clv" 0o000242 (.clear .v),
  .noOperand "clz" 0o000244 (.clear .z),
  .noOperand "cln" 0o000250 (.clear .n),
  .noOperand "ccc" 0o000257 .clearAll,
  .noOperand "sec" 0o000261 (.set .c),
  .noOperand "sev" 0o000262 (.set .v),
  .noOperand "sez" 0o000264 (.set .z),
  .noOperand "sen" 0o000270 (.set .n),
  .noOperand "scc" 0o000277 .setAll,
  .single "swab" 0o000300 .swab,
  .single "clr" 0o005000 .clr,
  .single "com" 0o005100 .com,
  .single "inc" 0o005200 .inc,
  .single "dec" 0o005300 .dec,
  .single "neg" 0o005400 .neg,
  .single "adc" 0o005500 .adc,
  .single "sbc" 0o005600 .sbc,
  .single "tst" 0o005700 .tst,
  .single "ror" 0o006000 .ror,
  .single "rol" 0o006100 .rol,
  .single "asr" 0o006200 .asr,
  .single "asl" 0o006300 .asl,
  .branch "br" 0o000400 .always,
  .branch "bne" 0o001000 .notEqual,
  .branch "beq" 0o001400 .equal,
  .branch "bge" 0o002000 .greaterOrEqual,
  .branch "blt" 0o002400 .lessThan,
  .branch "bgt" 0o003000 .greaterThan,
  .branch "ble" 0o003400 .lessOrEqual,
  .branch "bpl" 0o100000 .plus,
  .branch "bmi" 0o100400 .minus,
  .branch "bhi" 0o101000 .higher,
  .branch "blos" 0o101400 .lowerOrSame,
  .branch "bvc" 0o102000 .overflowClear,
  .branch "bvs" 0o102400 .overflowSet,
  .branch "bcc" 0o103000 .carryClear,
  .branch "bcs" 0o103400 .carrySet,
  .doubleReg "xor" 0o074000 .xor,
  .double "mov" 0o010000 .mov,
  .double "cmp" 0o020000 .cmp,
  .double "bit" 0o030000 .bit,
  .double "bic" 0o040000 .bic,
  .double "bis" 0o050000 .bis,
  .double "add" 0o060000 .add,
  .double "sub" 0o160000 .sub
]⟩

namespace Table

instance : Inhabited Table := ⟨standard⟩

theorem length_standard : standard.entries.length = 48 := rfl

theorem wellShaped_standard : ∀ entry ∈ standard.entries, entry.wellShaped = true := by
  decide

end Table

end WordMachine
