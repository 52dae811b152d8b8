import Mathlib.Algebra.Group.Nat.Defs
import WordMachine.Config.Document
import WordMachine.Proofs.JsonRecord
import WordMachine.Proofs.JsonStrict

/-!
# Configurations as documents

What the documents of a configuration look like, and that any standard reader takes each of
them for the configuration that it writes.
-/

namespace WordMachine

variable {Fault : Type} {reader : Json.Reader Fault}

namespace GeneralConfig

/-- How documents write the general settings. -/
def texts (config : GeneralConfig) : List Json.FieldText := [
  { key := "trace_instructions"
    Writes := Json.Padded (Json.WritesBool config.traceInstructions)
    IsDefault := config.traceInstructions = false },
  { key := "trace_depth"
    Writes := Json.Padded (Json.WritesNatural config.traceDepth)
    IsDefault := config.traceDepth = 1024 }]

structure Fits (config : GeneralConfig) : Prop where
  traceDepth : config.traceDepth < 2 ^ 64

theorem matches_texts (hstandard : reader.Standard) {config : GeneralConfig}
    (hfits : config.Fits) :
    row.Matches reader config.texts (config.traceInstructions, config.traceDepth, ()) :=
  .cons hstandard.bool id <|
  .cons (hstandard.natural hfits.traceDepth) id .nil

theorem read_eq (hstandard : reader.Standard) {config : GeneralConfig} (hfits : config.Fits)
    {text : List Char} (hwrites : Json.WritesRecord config.texts text) :
    reader.read schema (.ofList text) = .ok config :=
  hstandard.read_record (by decide) (by decide) (matches_texts hstandard hfits) hwrites

end GeneralConfig

namespace StageCosts

/-- How documents write the costs of the stages. -/
def texts (costs : StageCosts) : List Json.FieldText := [
  { key := "fetch_ticks"
    Writes := Json.Padded (Json.WritesNatural costs.fetch)
    IsDefault := costs.fetch = 1 },
  { key := "decode_ticks"
    Writes := Json.Padded (Json.WritesNatural costs.decode)
    IsDefault := costs.decode = 1 },
  { key := "execute_ticks"
    Writes := Json.Padded (Json.WritesNatural costs.execute)
    IsDefault := costs.execute = 1 },
  { key := "memory_ticks"
    Writes := Json.Padded (Json.WritesNatural costs.memory)
    IsDefault := costs.memory = 1 }]

structure Fits (costs : StageCosts) : Prop where
  fetch : costs.fetch < 2 ^ 64
  decode : costs.decode < 2 ^ 64
  execute : costs.execute < 2 ^ 64
  memory : costs.memory < 2 ^ 64

theorem matches_texts (hstandard : reader.Standard) {costs : StageCosts} (hfits : costs.Fits) :
    row.Matches reader costs.texts
      (costs.fetch, costs.decode, costs.execute, costs.memory, ()) :=
  .cons (hstandard.natural hfits.fetch) id <|
  .cons (hstandard.natural hfits.decode) id <|
  .cons (hstandard.natural hfits.execute) id <|
  .cons (hstandard.natural hfits.memory) id .nil

theorem read_eq (hstandard : reader.Standard) {costs : StageCosts} (hfits : costs.Fits)
    {text : List Char} (hwrites : Json.WritesRecord costs.texts text) :
    reader.read schema (.ofList text) = .ok costs :=
  hstandard.read_record (by decide) (by decide) (matches_texts hstandard hfits) hwrites

end StageCosts

namespace Config

/-- How documents write a configuration. -/
def texts (config : Config) : List Json.FieldText := [
  { key := "general"
    Writes := Json.WritesRecord config.general.texts
    IsDefault := config.general = ⟨false, 1024⟩ },
  { key := "pipeline"
    Writes := Json.WritesRecord config.costs.texts
    IsDefault := config.costs = ⟨1, 1, 1, 1⟩ }]

/-- Numbers in documents have to lie below 2⁶⁴. -/
structure Fits (config : Config) : Prop where
  general : config.general.Fits
  costs : config.costs.Fits

theorem matches_texts (hstandard : reader.Standard) {config : Config} (hfits : config.Fits) :
    row.Matches reader config.texts (config.general, config.costs, ()) :=
  .cons (GeneralConfig.read_eq hstandard hfits.general) id <|
  .cons (StageCosts.read_eq hstandard hfits.costs) id .nil

theorem read_eq (hstandard : reader.Standard) {config : Config} (hfits : config.Fits)
    {text : List Char} (hwrites : Json.WritesRecord config.texts text) :
    reader.read schema (.ofList text) = .ok config :=
  hstandard.read_record (by decide) (by decide) (matches_texts hstandard hfits) hwrites

theorem exists_document (config : Config) :
    ∃ document, Json.WritesDocument config.texts document := by
  have hbool (value : Bool) : ∃ text, Json.Padded (Json.WritesBool value) text :=
    Json.exists_padded (Json.exists_writesBool value)
  have hnatural (value : Nat) : ∃ text, Json.Padded (Json.WritesNatural value) text :=
    Json.exists_padded ⟨_, Json.writesNatural_toDigits value⟩
  have hgeneral : ∃ text, Json.WritesRecord config.general.texts text := by
    apply Json.exists_writesRecord
    simp [GeneralConfig.texts, hnatural, hbool]
  have hcosts : ∃ text, Json.WritesRecord config.costs.texts text := by
    apply Json.exists_writesRecord
    simp [StageCosts.texts, hnatural]
  have hrecord : ∃ text, Json.WritesRecord config.texts text := by
    apply Json.exists_writesRecord
    simp [texts, hgeneral, hcosts]
  obtain ⟨text, htext⟩ := hrecord
  refine ⟨.ofList text, ?_⟩
  rw [Json.WritesDocument, String.toList_ofList]
  exact htext

/-- Every configuration can be written, and every document that writes it is read as it, by
any standard reader. -/
theorem documents_read_back (hstandard : reader.Standard) {config : Config}
    (hfits : config.Fits) :
    (∃ document, Json.WritesDocument config.texts document) ∧
      ∀ {document}, Json.WritesDocument config.texts document →
        readWith reader document = .ok config := by
  refine ⟨config.exists_document, ?_⟩
  intro document hwrites
  rw [← document.ofList_toList]
  exact read_eq hstandard hfits hwrites

/-- A configuration with the longest trace and a slow second stage. -/
def longTrace : Config where
  general := { traceDepth := 2 ^ 64 - 1 }
  costs := { decode := 3 }

/-- The sections come in the other order, one of them as an array and the other one under an
escaped key, with a key between them that means nothing. -/
def longTraceDocument : String :=
  " \x7b\"pipeline\": [1, 3], \"note\": [null, -1.5, \"\\ud800\"], " ++
    "\"\\u0067eneral\": \x7b\"trace_depth\": 18446744073709551615\x7d\x7d\n"

def longTraceMembers : List Json.Member := [
  { key := "pipeline", value := " [1, 3]".toList },
  { key := "note", value := " [null, -1.5, \"\\ud800\"]".toList },
  { key := "general", value := " \x7b\"trace_depth\": 18446744073709551615\x7d".toList }]

theorem blank_space : Json.Blank [' '] := by simp [Json.Blank, Json.blanks]

/-- The array stops before the third cost, which is the default like the fourth. -/
theorem writesRecord_longTrace_costs :
    Json.WritesRecord longTrace.costs.texts " [1, 3]".toList := by
  have hfetch : Json.WritesNatural 1 ['1'] := ⟨.positive rfl (by decide) (by simp), rfl⟩
  have hdecode : Json.WritesNatural 3 ['3'] := ⟨.positive rfl (by decide) (by simp), rfl⟩
  have homitted : ∀ field ∈ longTrace.costs.texts.drop 2, field.IsDefault := by
    simp [StageCosts.texts, longTrace, Defaults.executeTicks, Defaults.memoryTicks,
      Defaults.stageTicks]
  have helements :
      List.Forall₂ Json.FieldText.Writes (longTrace.costs.texts.take 2) [['1'], [' ', '3']] :=
    .cons (.mk .nil hfetch .nil) (.cons (.mk blank_space hdecode .nil) .nil)
  have hbrackets : Json.Encloses .array [['1'], [' ', '3']] "[1, 3]".toList :=
    .filled (.more .last)
  exact .array (List.take_append_drop 2 _).symm helements homitted
    (.mk blank_space hbrackets .nil)

theorem writesRecord_longTrace_general :
    Json.WritesRecord longTrace.general.texts
      " \x7b\"trace_depth\": 18446744073709551615\x7d".toList := by
  have hdepth : Json.WritesNatural (2 ^ 64 - 1) "18446744073709551615".toList :=
    ⟨.positive rfl (by decide) (List.all_eq_true.mp (by decide)), by decide⟩
  have hvalue : Json.Padded (Json.WritesNatural (2 ^ 64 - 1)) " 18446744073709551615".toList :=
    .mk blank_space hdepth .nil
  have hitems : List.Forall₂ Json.WritesMember
      [⟨"trace_depth", " 18446744073709551615".toList⟩]
      ["\"trace_depth\": 18446744073709551615".toList] :=
    .cons (.mk .nil (.plain (by decide)) .nil) .nil
  have hbrackets : Json.Encloses .object ["\"trace_depth\": 18446744073709551615".toList]
      "\x7b\"trace_depth\": 18446744073709551615\x7d".toList :=
    .filled .last
  have hentry : Json.WritesEntry longTrace.general.texts
      ⟨"trace_depth", " 18446744073709551615".toList⟩ :=
    .field (List.mem_cons_of_mem _ List.mem_cons_self) rfl hvalue
  refine .object (List.pairwise_singleton _ _) ?_ ?_ hitems (.mk blank_space hbrackets .nil)
  · exact List.forall_mem_singleton.mpr hentry
  · simp [GeneralConfig.texts, longTrace]

theorem wellFormed_note :
    Json.Padded (Json.WellFormed .value) " [null, -1.5, \"\\ud800\"]".toList := by
  have hwhole : Json.IsInteger ['1'] := .positive rfl (by decide) (by simp)
  have hfraction : Json.IsFraction ['.', '5'] := .present ⟨by simp, by simp⟩
  have hnumber : Json.IsNumber _ := .mk (.inr rfl) hwhole hfraction .absent
  have hzero : Json.IsHexDigit 0 '0' := .small (by decide)
  have hunit : Json.WritesUnit 0xD800 _ :=
    .mk (.small (show 13 < 16 by decide)) (.small (show 8 < 16 by decide)) hzero hzero
  have hnote : Json.WellFormed .value "[null, -1.5, \"\\ud800\"]".toList :=
    .filled (.more (.element .nil (.literal List.mem_cons_self) .nil)
      (.more (.element blank_space (.number hnumber) .nil)
        (.last (.element blank_space (.string (.unit hunit .nil)) .nil))))
  exact .mk blank_space hnote .nil

theorem writesMember_longTrace_general :
    Json.WritesMember ⟨"general", " \x7b\"trace_depth\": 18446744073709551615\x7d".toList⟩
      " \"\\u0067eneral\": \x7b\"trace_depth\": 18446744073709551615\x7d".toList := by
  have hzero : Json.IsHexDigit 0 '0' := .small (by decide)
  have hletter : Json.WritesUnit 'g'.toNat ['0', '0', '6', '7'] :=
    .mk hzero hzero (.small (show 6 < 16 by decide)) (.small (show 7 < 16 by decide))
  have hkey : Json.WritesText "general".toList "\\u0067eneral".toList :=
    .unit hletter (.plain (by decide))
  have hmember : ∀ value, Json.WritesMember ⟨"general", value⟩ _ :=
    fun _ => .mk blank_space hkey .nil
  exact hmember _

theorem writesDocument_longTrace : Json.WritesDocument longTrace.texts longTraceDocument := by
  have hline : Json.Blank ['\n'] := by simp [Json.Blank, Json.blanks]
  have hitems : List.Forall₂ Json.WritesMember longTraceMembers _ :=
    .cons (.mk .nil (.plain (by decide)) .nil) <|
    .cons (.mk blank_space (.plain (by decide)) .nil) <|
    .cons writesMember_longTrace_general .nil
  have hentries : ∀ member ∈ longTraceMembers, Json.WritesEntry longTrace.texts member := by
    refine List.forall_mem_cons.mpr ⟨?pipeline, List.forall_mem_cons.mpr ⟨?note,
      List.forall_mem_singleton.mpr ?general⟩⟩
    case pipeline =>
      exact .field (List.mem_cons_of_mem _ List.mem_cons_self) rfl writesRecord_longTrace_costs
    case note => exact .other (by simp [texts]) wellFormed_note
    case general => exact .field List.mem_cons_self rfl writesRecord_longTrace_general
  have honce : Json.Once (longTrace.texts.map Json.FieldText.key) longTraceMembers := by
    simp [Json.Once, longTraceMembers]
  have hrecord : Json.WritesRecord longTrace.texts _ :=
    .object honce hentries (by simp [texts, longTraceMembers]) hitems
      (.mk blank_space (.filled (.more (.more .last))) hline)
  exact Eq.mp (congrArg (Json.WritesRecord longTrace.texts) (by decide)) hrecord

theorem documents_read_back_of_longTrace :
    Json.Reader.strict.Standard ∧ longTrace.Fits ∧
      Json.WritesDocument longTrace.texts longTraceDocument ∧
      ofJson longTraceDocument = .ok longTrace := by
  have hfits : longTrace.Fits := ⟨⟨by decide⟩, ⟨by decide, by decide, by decide, by decide⟩⟩
  exact ⟨Json.Reader.strict_standard, hfits, writesDocument_longTrace,
    (documents_read_back Json.Reader.strict_standard hfits).2 writesDocument_longTrace⟩

end Config

end WordMachine
