import Mathlib.Data.List.Nodup
import WordMachine.Proofs.JsonStandard

/-!
# Records as texts

The texts that write a record: an object with the record's fields in any order and other keys
among them, or an array of the fields in their own order of which the last ones are left out.
Fields may be left out only where their value is the default.  A standard reader makes of any
such text the record that it writes.
-/

namespace WordMachine.Json

/-! ## Grammar -/

/-- How texts write one field of a record. -/
structure FieldText where
  key : String
  /-- The texts that write the value of the field. -/
  Writes : List Char → Prop
  /-- Whether the value is the default, so that the field may be left out. -/
  IsDefault : Prop

/-- A member with the key of a field writes that field; any other may have any value. -/
inductive WritesEntry (fields : List FieldText) (member : Member) : Prop
  | field {field : FieldText} (hfield : field ∈ fields) (hkey : field.key = member.key)
      (hvalue : field.Writes member.value)
  | other (hkey : member.key ∉ fields.map FieldText.key)
      (hvalue : Padded (WellFormed .value) member.value)

inductive WritesRecord (fields : List FieldText) : List Char → Prop
  | array {written omitted : List FieldText} {elements : List (List Char)} {text : List Char}
      (hfields : fields = written ++ omitted)
      (hwritten : List.Forall₂ FieldText.Writes written elements)
      (homitted : ∀ field ∈ omitted, field.IsDefault)
      (htext : Padded (Encloses .array elements) text) : WritesRecord fields text
  | object {members : List Member} {items : List (List Char)} {text : List Char}
      (honce : Once (fields.map FieldText.key) members)
      (hentries : ∀ member ∈ members, WritesEntry fields member)
      (homitted : ∀ field ∈ fields, (∀ member ∈ members, member.key ≠ field.key) →
        field.IsDefault)
      (hitems : List.Forall₂ WritesMember members items)
      (htext : Padded (Encloses .object items) text) : WritesRecord fields text

/-- A document is the text of a record. -/
def WritesDocument (fields : List FieldText) (document : String) : Prop :=
  WritesRecord fields document.toList

/-- A record whose fields can be written can be written. -/
theorem exists_writesRecord {fields : List FieldText}
    (hwritable : ∀ field ∈ fields, ∃ text, field.Writes text) :
    ∃ text, WritesRecord fields text := by
  have helements : ∃ elements, List.Forall₂ FieldText.Writes fields elements := by
    induction fields with
    | nil => exact ⟨[], .nil⟩
    | cons field fields ih =>
        obtain ⟨hfield, hfields⟩ := List.forall_mem_cons.mp hwritable
        obtain ⟨text, htext⟩ := hfield
        obtain ⟨elements, helements⟩ := ih hfields
        exact ⟨_, .cons htext helements⟩
  obtain ⟨elements, helements⟩ := helements
  obtain ⟨text, htext⟩ := exists_padded (exists_encloses .array elements)
  exact ⟨text, .array (List.append_nil fields).symm helements
    (fun _ hfield => absurd hfield List.not_mem_nil) htext⟩

/-! ## Reading -/

variable {Fault : Type} {reader : Reader Fault}

/-- The fields of a row with the texts that write them and the values that these stand for. -/
inductive Row.Matches (reader : Reader Fault) :
    {β : Type} → Row β → List FieldText → β → Prop
  | nil : Matches reader .nil [] ()
  | cons {α β : Type} {key : String} {schema : Schema α} {default value : α} {row : Row β}
      {Writes : List Char → Prop} {IsDefault : Prop} {fields : List FieldText} {values : β}
      (hreads : ∀ {text}, Writes text → reader.read schema (.ofList text) = .ok value)
      (hdefault : IsDefault → value = default) (hrest : Matches reader row fields values) :
      Matches reader (.cons key schema default row) (⟨key, Writes, IsDefault⟩ :: fields)
        (value, values)

namespace Row.Matches

variable {β : Type} {row : Row β} {fields : List FieldText} {values : β}

theorem keys_eq (hmatches : row.Matches reader fields values) :
    row.keys = fields.map FieldText.key := by
  induction hmatches with
  | nil => rfl
  | cons _ _ _ ih => rw [keys, ih, List.map_cons]

theorem eq_defaults (hmatches : row.Matches reader fields values)
    (homitted : ∀ field ∈ fields, field.IsDefault) : values = row.defaults := by
  induction hmatches with
  | nil => rfl
  | cons _ hdefault _ ih =>
      obtain ⟨hfield, hfields⟩ := List.forall_mem_cons.mp homitted
      rw [defaults, hdefault hfield, ih hfields]

theorem lists {written omitted : List FieldText} {elements : List (List Char)}
    (hmatches : row.Matches reader (written ++ omitted) values)
    (hwritten : List.Forall₂ FieldText.Writes written elements)
    (homitted : ∀ field ∈ omitted, field.IsDefault) : row.Lists reader elements values := by
  induction hwritten generalizing β with
  | nil =>
      rw [hmatches.eq_defaults homitted]
      exact .omitted
  | cons helement _ ih =>
      cases hmatches with
      | cons hreads _ hrest => exact .element (hreads helement) (ih hrest)

theorem collects {members : List Member} (hmatches : row.Matches reader fields values)
    (hwritten : ∀ field ∈ fields, ∀ value, ⟨field.key, value⟩ ∈ members → field.Writes value)
    (homitted : ∀ field ∈ fields, (∀ member ∈ members, member.key ≠ field.key) →
      field.IsDefault) : row.Collects reader members values := by
  induction hmatches with
  | nil => exact .nil
  | @cons α β key schema default value row Writes IsDefault fields values hreads hdefault _ ih =>
      obtain ⟨hfield, hfields⟩ := List.forall_mem_cons.mp hwritten
      obtain ⟨hfieldOmitted, hfieldsOmitted⟩ := List.forall_mem_cons.mp homitted
      have hcollects : row.Collects reader members values := ih hfields hfieldsOmitted
      by_cases hpresent : ∃ text, (⟨key, text⟩ : Member) ∈ members
      · obtain ⟨text, hmember⟩ := hpresent
        exact .present hmember (hreads (hfield text hmember)) hcollects
      · have habsent : ∀ member ∈ members, member.key ≠ key := by
          rintro ⟨_, text⟩ hmember rfl
          exact hpresent ⟨text, hmember⟩
        rw [hdefault (hfieldOmitted habsent)]
        exact .absent habsent hcollects

end Row.Matches

theorem WritesEntry.writes {fields : List FieldText} {field : FieldText} {value : List Char}
    (hentry : WritesEntry fields ⟨field.key, value⟩) (hfield : field ∈ fields)
    (hkeys : (fields.map FieldText.key).Nodup) : field.Writes value := by
  cases hentry with
  | field hother hkey hvalue =>
      obtain rfl := List.inj_on_of_nodup_map hkeys hother hfield hkey
      exact hvalue
  | other hkey => exact absurd (List.mem_map_of_mem hfield) hkey

theorem WritesEntry.wellFormed {fields : List FieldText} {member : Member}
    (hentry : WritesEntry fields member) (hkey : member.key ∉ fields.map FieldText.key) :
    Padded (WellFormed .value) member.value := by
  cases hentry with
  | field hfield heq => exact absurd (heq ▸ List.mem_map_of_mem hfield) hkey
  | other _ hvalue => exact hvalue

/-- Every text that writes a record is read as the record. -/
theorem Reader.Standard.read_record (hstandard : reader.Standard) {α β : Type} {row : Row β}
    {make : β → α} {fields : List FieldText} {values : β} {text : List Char}
    (hdepth : (Schema.record row make).depth < 128) (hkeys : row.keys.Nodup)
    (hmatches : row.Matches reader fields values) (hwrites : WritesRecord fields text) :
    reader.read (.record row make) (.ofList text) = .ok (make values) := by
  cases hwrites with
  | array hfields hwritten homitted htext =>
      subst hfields
      exact hstandard.array hdepth (hmatches.lists hwritten homitted) htext
  | object honce hentries homitted hitems htext =>
      have hcollects := hmatches.collects
        (fun field hfield value hmember =>
          (hentries _ hmember).writes hfield (hmatches.keys_eq ▸ hkeys)) homitted
      rw [← hmatches.keys_eq] at honce
      refine hstandard.object hdepth hkeys honce ?_ hcollects hitems htext
      intro member hmember hkey
      exact (hentries member hmember).wellFormed (hmatches.keys_eq ▸ hkey)

end WordMachine.Json
