import Mathlib.Data.List.Nodup
import WordMachine.Instruction.Text
import WordMachine.Proofs.Encoding

/-!
# Instructions that are read off their texts

The text of an instruction is put together of parts that can be told apart again: a name
up to the first blank, a source up to the first comma, and in an operand the marks of its
mode, a number up to the first bracket, and the name of a register.  A standard instruction
is therefore the only one with its text.
-/

namespace WordMachine

/-! ## Taking texts apart -/

/-- The text in front of the first separator, and what follows from the separator on, can
be told from a text that is put together of the two. -/
theorem eq_of_append_eq_append {separator : Char} {left right leftRest rightRest : List Char}
    (hleft : separator ∉ left) (hright : separator ∉ right)
    (hleftRest : ∀ char ∈ leftRest.head?, char = separator)
    (hrightRest : ∀ char ∈ rightRest.head?, char = separator)
    (heq : left ++ leftRest = right ++ rightRest) : left = right ∧ leftRest = rightRest := by
  obtain ⟨more, hmore, hrest⟩ | ⟨more, hmore, hrest⟩ := List.append_eq_append_iff.mp heq
  · cases more with
    | nil => simp_all
    | cons char more =>
        have hchar : char = separator := hleftRest char (by simp [hrest])
        exact absurd (by simp [hmore, hchar]) hright
  · cases more with
    | nil => simp_all
    | cons char more =>
        have hchar : char = separator := hrightRest char (by simp [hrest])
        exact absurd (by simp [hmore, hchar]) hleft

namespace Numeral

theorem toList_octal (number : Nat) : (octal number).toList = Nat.toDigits 8 number :=
  String.toList_ofList

theorem octal_injective : Function.Injective octal := by
  intro left right heq
  have hdigits : Nat.toDigits 8 left = Nat.toDigits 8 right := by
    rw [← toList_octal, ← toList_octal, heq]
  have hvalue (number : Nat) : Nat.ofDigitChars 8 (Nat.toDigits 8 number) 0 = number :=
    Nat.ofDigitChars_toDigits (by decide) (by decide)
  rw [← hvalue left, hdigits, hvalue right]

theorem isDigit_of_mem_octal {number : Nat} {char : Char} (hchar : char ∈ (octal number).toList) :
    char.isDigit = true := by
  rw [toList_octal] at hchar
  exact Nat.isDigit_of_mem_toDigits (by decide) (by decide) hchar

end Numeral

namespace Register

theorem name_injective : Function.Injective name := by
  intro left right heq
  cases left <;> cases right <;> first | rfl | exact absurd heq (by decide)

end Register

namespace AddressingMode

theorem eq_of_plain_eq {left right : AddressingMode}
    (hdeferred : left.isDeferred = right.isDeferred) (hplain : left.plain = right.plain) :
    left = right := by
  cases left <;> cases right <;>
    first | rfl | exact absurd hplain (by decide) | cases hdeferred

end AddressingMode

namespace OperandSpec

/-- Only an operand that takes a word out of the instruction stream shows one. -/
def Shows (spec : OperandSpec) (extension : Option Word) : Prop :=
  spec.takesWord = false → extension = none

theorem eq_pc_of_shows {reg : Register} {word : Word}
    (hshows : Shows ⟨.autoIncrement, reg⟩ (some word)) : reg = .pc := by
  by_contra hreg
  have htakes : takesWord ⟨.autoIncrement, reg⟩ = false := by simpa [takesWord] using hreg
  cases hshows htakes

/-- A displacement as text: a number, or a question mark where there is none. -/
def displacementText (extension : Option Word) : String :=
  (extension.map fun word => Numeral.octal word.toNat).getD "?"

theorem isDigit_or_eq_of_mem_displacementText {extension : Option Word} {char : Char}
    (hchar : char ∈ (displacementText extension).toList) : char.isDigit = true ∨ char = '?' := by
  cases extension with
  | none => exact .inr (List.mem_singleton.mp hchar)
  | some word => exact .inl (Numeral.isDigit_of_mem_octal hchar)

theorem not_mem_displacementText {extension : Option Word} :
    '(' ∉ (displacementText extension).toList := by
  intro hmem
  exact absurd (isDigit_or_eq_of_mem_displacementText hmem) (by decide)

theorem displacementText_ne_nil (extension : Option Word) :
    (displacementText extension).toList ≠ [] := by
  cases extension with
  | none => decide
  | some word => simp [displacementText, Numeral.toList_octal]

theorem displacementText_injective : Function.Injective displacementText := by
  have hmark (word : Word) : displacementText (some word) ≠ displacementText none := by
    intro heq
    have hmem : '?' ∈ (displacementText (some word)).toList := by
      rw [heq]
      exact List.mem_singleton_self _
    exact absurd (Numeral.isDigit_of_mem_octal hmem) (by decide)
  intro left right heq
  cases left with
  | none =>
      cases right with
      | none => rfl
      | some word => exact absurd heq.symm (hmark word)
  | some left =>
      cases right with
      | none => exact absurd heq (hmark left)
      | some right => rw [BitVec.eq_of_toNat_eq (Numeral.octal_injective heq)]

/-! ## Operands -/

theorem toList_text_of_deferred {spec : OperandSpec} (hdeferred : spec.mode.isDeferred = true)
    (extension : Option Word) :
    (spec.text extension).toList = '@' :: (text ⟨spec.mode.plain, spec.reg⟩ extension).toList := by
  obtain ⟨mode, reg⟩ := spec
  cases mode with
  | autoIncrementDeferred | autoDecrementDeferred | indexDeferred =>
      cases reg <;> cases extension <;> simp [text, AddressingMode.plain]
  | _ => cases hdeferred

theorem Shows.plain {spec : OperandSpec} {extension : Option Word}
    (hshows : spec.Shows extension) : Shows ⟨spec.mode.plain, spec.reg⟩ extension := by
  obtain ⟨mode, reg⟩ := spec
  cases mode <;> exact hshows

theorem toList_text_register (reg : Register) (extension : Option Word) :
    (text ⟨.register, reg⟩ extension).toList = reg.name.toList := by
  cases reg <;> rfl

theorem toList_text_registerDeferred (reg : Register) (extension : Option Word) :
    (text ⟨.registerDeferred, reg⟩ extension).toList = '(' :: (reg.name.toList ++ [')']) := by
  cases reg <;> simp [text]

theorem toList_text_autoIncrement (reg : Register) :
    (text ⟨.autoIncrement, reg⟩ none).toList = '(' :: (reg.name.toList ++ [')', '+']) := by
  cases reg <;> rfl

theorem toList_text_immediate (word : Word) :
    (text ⟨.autoIncrement, .pc⟩ (some word)).toList =
      '#' :: (displacementText (some word)).toList := by
  simp [text, displacementText]

theorem toList_text_autoDecrement (reg : Register) (extension : Option Word) :
    (text ⟨.autoDecrement, reg⟩ extension).toList = '-' :: '(' :: (reg.name.toList ++ [')']) := by
  cases reg <;> simp [text]

theorem toList_text_index (reg : Register) (extension : Option Word) :
    (text ⟨.index, reg⟩ extension).toList =
      (displacementText extension).toList ++ '(' :: (reg.name.toList ++ [')']) := by
  cases reg <;> simp [text, displacementText]

/-- The mode that the text of an operand shows, except that one mode stands for all that go
through a pointer. -/
def shownMode : List Char → AddressingMode
  | [] => .register
  | char :: rest =>
      if char = '@' then .indexDeferred
      else if char = '#' then .autoIncrement
      else if char = '-' then .autoDecrement
      else if char = '(' then if '+' ∈ rest then .autoIncrement else .registerDeferred
      else if char.isDigit ∨ char = '?' then .index
      else .register

/-- A displacement starts with none of the marks of the other modes. -/
theorem shownMode_displacementText (extension : Option Word) (rest : List Char) :
    shownMode ((displacementText extension).toList ++ '(' :: rest) = .index := by
  cases htext : (displacementText extension).toList with
  | nil => exact absurd htext (displacementText_ne_nil extension)
  | cons char more =>
      have hmem : char ∈ (displacementText extension).toList := by
        rw [htext]
        exact List.mem_cons_self
      have hchar := isDigit_or_eq_of_mem_displacementText hmem
      have hne {mark : Char} (hmark : ¬(mark.isDigit = true ∨ mark = '?')) : char ≠ mark :=
        fun heq => hmark (heq ▸ hchar)
      rw [List.cons_append, shownMode, if_neg (hne (by decide)), if_neg (hne (by decide)),
        if_neg (hne (by decide)), if_neg (hne (by decide)), if_pos hchar]

theorem shownMode_text {spec : OperandSpec} (hplain : spec.mode.isDeferred = false)
    {extension : Option Word} (hshows : spec.Shows extension) :
    shownMode (spec.text extension).toList = spec.mode := by
  obtain ⟨mode, reg⟩ := spec
  cases mode with
  | register =>
      rw [toList_text_register]
      cases reg <;> rfl
  | registerDeferred =>
      rw [toList_text_registerDeferred]
      cases reg <;> decide
  | autoIncrement =>
      cases extension with
      | none =>
          rw [toList_text_autoIncrement]
          cases reg <;> decide
      | some word =>
          by_cases hreg : reg = .pc
          · rw [hreg, toList_text_immediate]
            rfl
          · simp [Shows, takesWord, hreg] at hshows
  | autoDecrement =>
      rw [toList_text_autoDecrement]
      rfl
  | index => rw [toList_text_index, shownMode_displacementText]
  | _ => cases hplain

/-- Operands of one mode that does not go through a pointer can be told apart by their
texts. -/
theorem eq_of_text_eq_of_mode {mode : AddressingMode} (hplain : mode.isDeferred = false)
    {left right : Register} {leftWord rightWord : Option Word}
    (hleft : Shows ⟨mode, left⟩ leftWord) (hright : Shows ⟨mode, right⟩ rightWord)
    (heq : (text ⟨mode, left⟩ leftWord).toList = (text ⟨mode, right⟩ rightWord).toList) :
    left = right ∧ leftWord = rightWord := by
  cases mode with
  | register =>
      rw [toList_text_register, toList_text_register, String.toList_inj] at heq
      exact ⟨Register.name_injective heq, (hleft rfl).trans (hright rfl).symm⟩
  | registerDeferred =>
      rw [toList_text_registerDeferred, toList_text_registerDeferred, List.cons_inj_right,
        List.append_left_inj, String.toList_inj] at heq
      exact ⟨Register.name_injective heq, (hleft rfl).trans (hright rfl).symm⟩
  | autoIncrement =>
      cases leftWord with
      | none =>
          cases rightWord with
          | none =>
              rw [toList_text_autoIncrement, toList_text_autoIncrement, List.cons_inj_right,
                List.append_left_inj, String.toList_inj] at heq
              exact ⟨Register.name_injective heq, rfl⟩
          | some word =>
              rw [eq_pc_of_shows hright, toList_text_autoIncrement, toList_text_immediate] at heq
              cases heq
      | some word =>
          cases rightWord with
          | none =>
              rw [eq_pc_of_shows hleft, toList_text_autoIncrement, toList_text_immediate] at heq
              cases heq
          | some other =>
              obtain rfl := eq_pc_of_shows hleft
              obtain rfl := eq_pc_of_shows hright
              rw [toList_text_immediate, toList_text_immediate, List.cons_inj_right,
                String.toList_inj] at heq
              exact ⟨rfl, displacementText_injective heq⟩
  | autoDecrement =>
      rw [toList_text_autoDecrement, toList_text_autoDecrement, List.cons_inj_right,
        List.cons_inj_right, List.append_left_inj, String.toList_inj] at heq
      exact ⟨Register.name_injective heq, (hleft rfl).trans (hright rfl).symm⟩
  | index =>
      rw [toList_text_index, toList_text_index] at heq
      obtain ⟨hword, hreg⟩ := eq_of_append_eq_append not_mem_displacementText
        not_mem_displacementText (by simp) (by simp) heq
      rw [List.cons_inj_right, List.append_left_inj, String.toList_inj] at hreg
      rw [String.toList_inj] at hword
      exact ⟨Register.name_injective hreg, displacementText_injective hword⟩
  | _ => cases hplain

theorem eq_of_text_eq_of_plain {left right : OperandSpec}
    (hleft : left.mode.isDeferred = false) (hright : right.mode.isDeferred = false)
    {leftWord rightWord : Option Word} (hleftShows : left.Shows leftWord)
    (hrightShows : right.Shows rightWord)
    (heq : (left.text leftWord).toList = (right.text rightWord).toList) :
    left = right ∧ leftWord = rightWord := by
  have hmode : left.mode = right.mode := by
    rw [← shownMode_text hleft hleftShows, heq, shownMode_text hright hrightShows]
  obtain ⟨mode, leftReg⟩ := left
  obtain ⟨_, rightReg⟩ := right
  obtain rfl : mode = _ := hmode
  obtain ⟨rfl, rfl⟩ := eq_of_text_eq_of_mode hleft hleftShows hrightShows heq
  exact ⟨rfl, rfl⟩

/-- The text of an operand says whether it is reached through a pointer. -/
theorem text_ne_of_deferred {plain deferred : OperandSpec} (hplain : plain.mode.isDeferred = false)
    (hdeferred : deferred.mode.isDeferred = true) {word other : Option Word}
    (hshows : plain.Shows word) :
    (plain.text word).toList ≠ (deferred.text other).toList := by
  intro heq
  have hmode := shownMode_text hplain hshows
  rw [heq, toList_text_of_deferred hdeferred, shownMode, if_pos rfl] at hmode
  rw [← hmode] at hplain
  cases hplain

/-- Operands can be told apart by their texts. -/
theorem eq_of_text_eq {left right : OperandSpec} {leftWord rightWord : Option Word}
    (hleft : left.Shows leftWord) (hright : right.Shows rightWord)
    (heq : (left.text leftWord).toList = (right.text rightWord).toList) :
    left = right ∧ leftWord = rightWord := by
  cases hleftMode : left.mode.isDeferred with
  | false =>
      cases hrightMode : right.mode.isDeferred with
      | false => exact eq_of_text_eq_of_plain hleftMode hrightMode hleft hright heq
      | true => exact absurd heq (text_ne_of_deferred hleftMode hrightMode hleft)
  | true =>
      cases hrightMode : right.mode.isDeferred with
      | false => exact absurd heq.symm (text_ne_of_deferred hrightMode hleftMode hright)
      | true =>
          -- What follows the sign that they start with are texts without a pointer.
          rw [toList_text_of_deferred hleftMode, toList_text_of_deferred hrightMode,
            List.cons_inj_right] at heq
          obtain ⟨hspec, hword⟩ := eq_of_text_eq_of_plain (left.mode.isDeferred_plain)
            (right.mode.isDeferred_plain) hleft.plain hright.plain heq
          injection hspec with hmode hreg
          have hmode := AddressingMode.eq_of_plain_eq (hleftMode.trans hrightMode.symm) hmode
          exact ⟨congrArg₂ mk hmode hreg, hword⟩

/-- The text of an operand has no comma, so that one can stand between two operands. -/
theorem comma_not_mem_text (spec : OperandSpec) (extension : Option Word) :
    ',' ∉ (spec.text extension).toList := by
  have hnumber (number : Nat) : ',' ∉ (Numeral.octal number).toList := fun hmem =>
    absurd (Numeral.isDigit_of_mem_octal hmem) (by decide)
  obtain ⟨mode, reg⟩ := spec
  cases mode <;> cases reg <;> cases extension <;> simp [text, Register.name, hnumber]

end OperandSpec

/-! ## Instructions -/

namespace Fields

/-- The text of an instruction after its name. -/
def operandText (fields : Fields) (extensions : Extensions) : List Char :=
  match fields with
  | noOperand => []
  | single dst => ' ' :: (dst.text extensions.dst).toList
  | double src dst =>
      ' ' :: ((src.text extensions.src).toList ++ ',' :: ' ' :: (dst.text extensions.dst).toList)
  | branch displacement => ' ' :: (Numeral.octal displacement.toNat).toList

theorem eq_blank_of_mem_head?_operandText (fields : Fields) (extensions : Extensions) :
    ∀ char ∈ (fields.operandText extensions).head?, char = ' ' := by
  cases fields <;> simp [operandText]

end Fields

namespace Extensions

/-- Only operands that take a word out of the instruction stream show one. -/
def Suit (extensions : Extensions) : Fields → Prop
  | .noOperand | .branch _ => extensions = {}
  | .single dst => extensions.src = none ∧ dst.Shows extensions.dst
  | .double src dst => src.Shows extensions.src ∧ dst.Shows extensions.dst

end Extensions

theorem Entry.toList_text (entry : Entry) (fields : Fields) (extensions : Extensions) :
    (entry.text fields extensions).toList =
      entry.name.toList ++ fields.operandText extensions := by
  cases fields <;> simp [text, Fields.operandText]

namespace Fields

theorem eq_of_operandText_double_eq {leftSrc leftDst rightSrc rightDst : OperandSpec}
    {left right : Extensions} (hleft : left.Suit (double leftSrc leftDst))
    (hright : right.Suit (double rightSrc rightDst))
    (heq : (double leftSrc leftDst).operandText left =
      (double rightSrc rightDst).operandText right) :
    double leftSrc leftDst = double rightSrc rightDst ∧ left = right := by
  rw [operandText, operandText, List.cons_inj_right] at heq
  obtain ⟨hsrc, hrest⟩ := eq_of_append_eq_append (OperandSpec.comma_not_mem_text _ _)
    (OperandSpec.comma_not_mem_text _ _) (by simp) (by simp) heq
  rw [List.cons_inj_right, List.cons_inj_right] at hrest
  obtain ⟨rfl, hsrcWord⟩ := OperandSpec.eq_of_text_eq hleft.1 hright.1 hsrc
  obtain ⟨rfl, hdstWord⟩ := OperandSpec.eq_of_text_eq hleft.2 hright.2 hrest
  exact ⟨rfl, congrArg₂ Extensions.mk hsrcWord hdstWord⟩

/-- The fields of words can be told apart by the text after the name of the instruction. -/
theorem eq_of_operandText_eq {shape : Shape} {leftWord rightWord : Word} {left right : Extensions}
    (hleft : left.Suit (decoded shape leftWord)) (hright : right.Suit (decoded shape rightWord))
    (heq : (decoded shape leftWord).operandText left =
      (decoded shape rightWord).operandText right) :
    decoded shape leftWord = decoded shape rightWord ∧ left = right := by
  cases shape with
  | noOperand => exact ⟨rfl, hleft.trans hright.symm⟩
  | singleOperand =>
      obtain ⟨hdst, hword⟩ :=
        OperandSpec.eq_of_text_eq hleft.2 hright.2 (List.cons_inj_right _ |>.mp heq)
      exact ⟨congrArg single hdst, congrArg₂ Extensions.mk (hleft.1.trans hright.1.symm) hword⟩
  | doubleOperand | doubleOperandReg => exact eq_of_operandText_double_eq hleft hright heq
  | branch =>
      have hnumber := String.toList_inj.mp ((List.cons_inj_right _).mp heq)
      have hdisplacement := BitVec.eq_of_toNat_eq (Numeral.octal_injective hnumber)
      exact ⟨congrArg branch hdisplacement, hleft.trans hright.symm⟩

end Fields

namespace Table

/-- An instruction of a program: a word that a table decodes, and the words after it that
its operands took. -/
structure Instruction (table : Table) where
  word : Word
  entry : Entry
  fields : Fields
  extensions : Extensions
  decodes : table.decode? word = some entry
  reads : Fields.ofWord entry.shape word = .ok fields
  suits : extensions.Suit fields

namespace Instruction

variable {table : Table}

def text (instruction : table.Instruction) : String :=
  instruction.entry.text instruction.fields instruction.extensions

theorem fields_eq (instruction : table.Instruction) :
    instruction.fields = .decoded instruction.entry.shape instruction.word := by
  have hreads := instruction.reads
  rw [Fields.ofWord_eq] at hreads
  exact (Except.ok.inj hreads).symm

end Instruction

/-- The standard instructions have different names. -/
theorem nodup_names_standard : (standard.entries.map (·.name)).Nodup := by
  decide +kernel

theorem blank_not_mem_name_standard : ∀ entry ∈ standard.entries, ' ' ∉ entry.name.toList := by
  decide +kernel

/-- The text of a standard instruction can be read in one way only: it determines the word
of the instruction, and with it its operands, and the words after it that they took. -/
theorem word_and_extensions_eq_of_text_eq (left right : standard.Instruction)
    (htext : left.text = right.text) :
    left.word = right.word ∧ left.extensions = right.extensions := by
  have hleft := mem_of_decode left.decodes
  have hright := mem_of_decode right.decodes
  have hparts := congrArg String.toList htext
  rw [Instruction.text, Instruction.text, Entry.toList_text, Entry.toList_text] at hparts
  obtain ⟨hname, hoperands⟩ := eq_of_append_eq_append (blank_not_mem_name_standard _ hleft)
    (blank_not_mem_name_standard _ hright) (Fields.eq_blank_of_mem_head?_operandText _ _)
    (Fields.eq_blank_of_mem_head?_operandText _ _) hparts
  have hentry : left.entry = right.entry :=
    List.inj_on_of_nodup_map nodup_names_standard hleft hright (String.toList_inj.mp hname)
  have hleftSuits := left.suits
  have hrightSuits := right.suits
  rw [left.fields_eq] at hleftSuits hoperands
  rw [right.fields_eq, ← hentry] at hrightSuits hoperands
  obtain ⟨hfields, hextensions⟩ := Fields.eq_of_operandText_eq hleftSuits hrightSuits hoperands
  refine ⟨?_, hextensions⟩
  have hbuilt := orderly_standard.asBuilt left.entry hleft
  rw [← Entry.encode_decoded hbuilt (selects_of_decode left.decodes), hfields,
    Entry.encode_decoded hbuilt (hentry ▸ selects_of_decode right.decodes)]

/-- A move through an index that could not be read, put together of its parts. -/
def composedMove : standard.Instruction where
  word := Entry.encode (.double "mov" 0o010000 .mov)
    (.double ⟨.autoIncrement, .pc⟩ ⟨.indexDeferred, .r2⟩)
  entry := .double "mov" 0o010000 .mov
  fields := .double ⟨.autoIncrement, .pc⟩ ⟨.indexDeferred, .r2⟩
  extensions := ⟨some 0o17, none⟩
  decodes := rfl
  reads := rfl
  suits := ⟨nofun, fun _ => rfl⟩

/-- The same move, read as a word. -/
def readMove : standard.Instruction where
  word := 0o012772
  entry := .double "mov" 0o010000 .mov
  fields := .decoded .doubleOperand 0o012772
  extensions := ⟨some 0o17, none⟩
  decodes := rfl
  reads := rfl
  suits := ⟨nofun, fun _ => rfl⟩

theorem word_and_extensions_eq_of_text_eq_of_move :
    (composedMove.text = readMove.text ∧ readMove.text = "mov #17, @?(r2)") ∧
      composedMove.word = 0o012772 ∧ composedMove.extensions = ⟨some 0o17, none⟩ := by
  have htext : composedMove.text = readMove.text := rfl
  obtain ⟨hword, hextensions⟩ := word_and_extensions_eq_of_text_eq composedMove readMove htext
  exact ⟨⟨htext, by decide +kernel⟩, hword, hextensions⟩

end Table

end WordMachine
