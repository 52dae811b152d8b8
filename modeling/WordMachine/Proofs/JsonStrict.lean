import Mathlib.Data.List.Pairwise
import WordMachine.Proofs.JsonStandard
import WordMachine.Proofs.SchemaStability

/-!
# The strict reader

The strict reader is standard.  The parts of an array or object are read in the middle of a
text, and as stable readers take them for the same values there as in documents of their own.
-/

namespace WordMachine.Json

variable {before after gap text rest : List Char}

/-! ## Documents -/

section Documents

variable {α : Type} {value : α}

theorem Blank.of_skipBlank_eq_nil (hskip : skipBlank text = []) : Blank text :=
  fun char hchar => isBlank_iff_mem.mp (List.dropWhile_eq_nil_iff.mp hskip char hchar)

theorem Reader.strict_read_eq (schema : Schema α)
    (hread : schema.parser.read text = .ok (value, rest))
    (hrest : Blank rest) : Reader.strict.read schema (.ofList text) = .ok value := by
  simp only [Reader.strict, String.toList_ofList, hread, hrest.skipBlank_eq_nil,
    List.isEmpty_nil, if_true]

theorem Reader.exists_of_strict_read {schema : Schema α}
    (hread : Reader.strict.read schema (.ofList text) = .ok value) :
    ∃ rest, Blank rest ∧ schema.parser.read text = .ok (value, rest) := by
  simp only [Reader.strict, String.toList_ofList] at hread
  split at hread
  · cases hread
  · rename_i rest hparse
    split at hread
    · rename_i hempty
      cases hread
      exact ⟨rest, .of_skipBlank_eq_nil (List.isEmpty_iff.mp hempty), hparse⟩
    · cases hread

end Documents

theorem readBool_of_writes {value : Bool} (hbefore : Blank before)
    (hwrites : WritesBool value text) (rest : List Char) :
    readBool (before ++ (text ++ rest)) = .ok (value, rest) := by
  cases hwrites
  all_goals
    rw [readBool, List.cons_append, hbefore.skipBlank_cons rfl]
    simp [literal, Except.map]

theorem readNatural_of_writes {value : Nat} (hlimit : value < wordLimit) (hbefore : Blank before)
    (hwrites : WritesNatural value text) (hrest : EndsNumber rest) :
    readNatural (before ++ (text ++ rest)) = .ok (value, rest) := by
  have hnumber := readNumber_of_writes hlimit hwrites hrest
  obtain ⟨digit, digits, rfl, hdigit⟩ := hwrites.isInteger.exists_digit
  rw [List.cons_append] at hnumber
  rw [readNatural, List.cons_append, hbefore.skipBlank_cons (isBlank_eq_false_of_isDigit hdigit)]
  simp only [hdigit, or_true, if_true, hnumber]

theorem Blank.endsNumber_self (hafter : Blank after) : EndsNumber after := by
  have hends := hafter.endsNumber endsNumber_nil
  rwa [List.append_nil] at hends

/-! ## Arrays -/

/-- The comma in front of every item but the first. -/
def comma : Bool → List Char
  | true => []
  | false => [',']

variable {State α β : Type} {fields : List (Field State)}

theorem nextElement_of_starts (first : Bool) (hgap : Blank gap) {char : Char} {tail : List Char}
    (htext : skipBlank text = char :: tail) (hchar : char ≠ ']') :
    nextElement first (gap ++ (comma first ++ text)) = .ok (.more (skipBlank text)) := by
  rw [htext]
  cases first with
  | true => exact nextElement_of_first (by rw [hgap.skipBlank_append]; exact htext) hchar
  | false => exact nextElement_of_comma (hgap.skipBlank_cons rfl text) htext hchar

theorem readElements_closed (fields : List (Field State)) (first : Bool) (state : State)
    (hgap : Blank gap) (rest : List Char) :
    readElements fields first state (gap ++ ']' :: rest) = .ok (state, rest) := by
  have hclosing : skipBlank (gap ++ ']' :: rest) = ']' :: rest := hgap.skipBlank_cons rfl rest
  cases fields with
  | nil =>
      rw [readElements, hclosing]
      rfl
  | cons field fields => rw [readElements, nextElement_of_closing first hclosing]

theorem readElements_of_read {field : Field State} {state next : State} {first : Bool}
    (hstable : Stable (field.read state)) (hread : field.read state text = .ok (next, after))
    (hgap : Blank gap) (hrest : EndsNumber rest) :
    readElements (field :: fields) first state (gap ++ (comma first ++ (text ++ rest))) =
      readElements fields false next (after ++ rest) := by
  obtain ⟨char, tail, htext, hchar⟩ := hstable.starts hread
  rw [readElements, nextElement_of_starts first hgap (skipBlank_stable htext rest) hchar]
  simp only [hstable.blanks, hstable.append hread hrest]

/-- Reading the rest of a record leaves its first value alone. -/
theorem readElements_second (fields : List (Field β)) (first : Bool) (value : α) (state : β)
    (input : List Char) :
    readElements (fields.map Field.second) first (value, state) input =
      (readElements fields first state input).map fun reading =>
        ((value, reading.1), reading.2) := by
  induction fields generalizing first state input with
  | nil =>
      rw [List.map_nil, readElements, readElements]
      split <;> rfl
  | cons field fields ih =>
      rw [List.map_cons, readElements, readElements]
      split
      · rfl
      · rfl
      · rename_i rest _
        simp only [Field.second]
        cases hread : field.read state rest with
        | error fault => rfl
        | ok reading => exact ih false reading.1 reading.2

/-- An element that is read by itself is read in its place, up to blanks. -/
theorem readElements_of_strict {key : String} {schema : Schema α} {default value : α}
    {row : Row β} (hread : Reader.strict.read schema (.ofList text) = .ok value) (first : Bool)
    (hgap : Blank gap) (hrest : EndsNumber rest) :
    ∃ after, Blank after ∧
      readElements (Row.cons key schema default row).fields first
          (Row.cons key schema default row).defaults (gap ++ (comma first ++ (text ++ rest))) =
        (readElements row.fields false row.defaults (after ++ rest)).map fun reading =>
          ((value, reading.1), reading.2) := by
  obtain ⟨after, hafter, hparse⟩ := Reader.exists_of_strict_read hread
  have hfield : (Field.first key schema.parser).read (default, row.defaults) text =
      .ok ((value, row.defaults), after) := by
    simp only [Field.first, hparse, Except.map]
  have hstable := (Row.cons key schema default row).fields_stable _ List.mem_cons_self
    (default, row.defaults)
  refine ⟨after, hafter, ?_⟩
  rw [Row.fields, Row.defaults, readElements_of_read hstable hfield hgap hrest,
    readElements_second]

theorem readElements_of_separated {row : Row β} {values : β} {elements : List (List Char)}
    (hlists : row.Lists .strict elements values) (hseparated : Separated elements text)
    (first : Bool) (hgap : Blank gap) (rest : List Char) :
    readElements row.fields first row.defaults (gap ++ (comma first ++ (text ++ ']' :: rest))) =
      .ok (values, rest) := by
  induction hseparated generalizing β first gap with
  | last =>
      cases hlists with
      | element hread hrest =>
          cases hrest
          obtain ⟨after, hafter, helement⟩ := readElements_of_strict hread first hgap
            (endsNumber_cons (.inr (.inl rfl)) rest)
          rw [helement, readElements_closed _ _ _ hafter]
          rfl
  | more _ ih =>
      cases hlists with
      | element hread hrest =>
          rw [List.append_assoc, List.cons_append]
          obtain ⟨after, hafter, helement⟩ := readElements_of_strict hread first hgap
            (endsNumber_cons (.inl rfl) _)
          have hmore := ih hrest false hafter
          rw [comma, List.singleton_append] at hmore
          rw [helement, hmore]
          rfl

/-! ## Objects -/

theorem nextKey_of_quote (first : Bool) (hgap : Blank gap) (hbefore : Blank before)
    (rest : List Char) :
    nextKey first (gap ++ (comma first ++ (before ++ '"' :: rest))) = .ok (.more rest) := by
  have hquote : skipBlank (before ++ '"' :: rest) = '"' :: rest := hbefore.skipBlank_cons rfl rest
  cases first with
  | true => exact nextKey_of_first (by rw [hgap.skipBlank_append]; exact hquote)
  | false => exact nextKey_of_comma (hgap.skipBlank_cons rfl _) hquote

/-- The values of a row as far as the keys have been seen, and the defaults of the others. -/
def Row.only {β : Type} : Row β → β → List String → β
  | .nil, _, _ => ()
  | .cons key _ default rest, (value, values), seen =>
      (if key ∈ seen then value else default, rest.only values seen)

theorem Row.only_nil : {β : Type} → (row : Row β) → (values : β) →
    row.only values [] = row.defaults
  | _, .nil, _ => rfl
  | _, .cons _ _ _ rest, (_, values) => by
      rw [only, rest.only_nil values, if_neg List.not_mem_nil]
      rfl

theorem Row.map_key_fields : {β : Type} → (row : Row β) → row.fields.map Field.key = row.keys
  | _, .nil => rfl
  | _, .cons key _ _ rest => by
      rw [Row.fields, List.map_cons, List.map_map, Row.keys, ← rest.map_key_fields]
      rfl

variable {members : List Member} {row : Row β} {values : β}

/-- Once every key has been seen that comes among the members, the values are complete. -/
theorem Row.Collects.only_eq {reader : Reader JsonFault}
    (hcollects : row.Collects reader members values) {seen : List String}
    (hseen : ∀ member ∈ members, member.key ∈ row.keys → member.key ∈ seen) :
    row.only values seen = values := by
  induction hcollects with
  | nil => rfl
  | @present α β key schema default value row text values hmember _ _ ih =>
      have hrest : row.only values seen = values :=
        ih fun member hmember hkey => hseen member hmember (List.mem_cons_of_mem _ hkey)
      rw [Row.only, hrest, if_pos (hseen _ hmember List.mem_cons_self)]
  | @absent α β key schema default row values _ _ ih =>
      have hrest : row.only values seen = values :=
        ih fun member hmember hkey => hseen member hmember (List.mem_cons_of_mem _ hkey)
      rw [Row.only, hrest, ite_self]

theorem Row.only_cons_of_not_mem : {β : Type} → (row : Row β) → (values : β) → {key : String} →
    key ∉ row.keys → (seen : List String) → row.only values (key :: seen) = row.only values seen
  | _, .nil, _, _, _, _ => rfl
  | _, .cons first _ _ rest, (_, values), key, hkey, seen => by
      obtain ⟨hfirst, hrest⟩ := not_or.mp (mt List.mem_cons.mpr hkey)
      rw [only, only, rest.only_cons_of_not_mem values hrest]
      simp only [List.mem_cons, Ne.symm hfirst, false_or]

/-- A field that the key of a member stands for, and that reads the member's value. -/
structure Takes (row : Row β) (values : β) (member : Member) (field : Field β) : Prop where
  find_eq : row.fields.find? (·.key.toList == member.key.toList) = some field
  key_eq : field.key = member.key
  read_eq : ∀ seen, ∃ after, Blank after ∧
    field.read (row.only values seen) member.value =
      .ok (row.only values (member.key :: seen), after)

variable {member : Member} {key : String} {schema : Schema α} {default : α}

theorem takes_first {value : α}
    (hread : Reader.strict.read schema (.ofList member.value) = .ok value)
    (hkey : member.key ∉ row.keys) :
    Takes (.cons member.key schema default row) (value, values) member
      (.first member.key schema.parser) where
  find_eq := by
    rw [Row.fields]
    exact List.find?_cons_of_pos (beq_self_eq_true _)
  key_eq := rfl
  read_eq seen := by
    obtain ⟨after, hafter, hparse⟩ := Reader.exists_of_strict_read hread
    refine ⟨after, hafter, ?_⟩
    simp only [Field.first, hparse, Except.map, Row.only, List.mem_cons, true_or, if_true,
      row.only_cons_of_not_mem values hkey]

theorem Takes.second {field : Field β} (htakes : Takes row values member field) {value : α}
    (hkey : key ≠ member.key) :
    Takes (.cons key schema default row) (value, values) member field.second where
  find_eq := by
    rw [Row.fields, List.find?_cons_of_neg (by simpa [Field.first, String.toList_inj] using hkey),
      List.find?_map]
    exact congrArg (Option.map Field.second) htakes.find_eq
  key_eq := htakes.key_eq
  read_eq seen := by
    obtain ⟨after, hafter, hread⟩ := htakes.read_eq seen
    refine ⟨after, hafter, ?_⟩
    simp only [Row.only, Field.second, hread, Except.map, List.mem_cons, hkey, false_or]

/-- Every member whose key stands for a field is read by it. -/
theorem Row.Collects.exists_takes (hcollects : row.Collects .strict members values)
    (hkeys : row.keys.Nodup) (hmember : member ∈ members) (hkey : member.key ∈ row.keys)
    (hunique : ∀ other ∈ members, other.key = member.key → other = member) :
    ∃ field, Takes row values member field := by
  induction hcollects with
  | nil => cases hkey
  | @present α β key schema default value row text values hpresent hread _ ih =>
      obtain ⟨hfirst, hrest⟩ := List.nodup_cons.mp hkeys
      obtain rfl | hlater := List.mem_cons.mp hkey
      · have hvalue : text = member.value := congrArg Member.value (hunique _ hpresent rfl)
        rw [hvalue] at hread
        exact ⟨_, takes_first hread hfirst⟩
      · obtain ⟨field, hfield⟩ := ih hrest hlater
        have hne : key ≠ member.key := fun heq => hfirst (heq ▸ hlater)
        exact ⟨_, hfield.second hne⟩
  | @absent α β key schema default row values habsent _ ih =>
      obtain ⟨hfirst, hrest⟩ := List.nodup_cons.mp hkeys
      obtain heq | hlater := List.mem_cons.mp hkey
      · exact absurd heq (habsent member hmember)
      · obtain ⟨field, hfield⟩ := ih hrest hlater
        exact ⟨_, hfield.second (Ne.symm (habsent member hmember))⟩

theorem Takes.mem_keys {field : Field β} (htakes : Takes row values member field) :
    member.key ∈ row.keys := by
  rw [← htakes.key_eq, ← row.map_key_fields]
  exact List.mem_map_of_mem (List.mem_of_find?_eq_some htakes.find_eq)

theorem Row.find?_eq_none {row : Row β} {key : String} (hkey : key ∉ row.keys) :
    row.fields.find? (·.key.toList == key.toList) = none := by
  rw [List.find?_eq_none]
  intro field hfield heq
  rw [beq_iff_eq, String.toList_inj] at heq
  rw [← row.map_key_fields] at hkey
  exact hkey (heq ▸ List.mem_map_of_mem hfield)

/-- No two members have the key of the same field. -/
theorem Once.eq_of_key_eq {keys : List String} (honce : Once keys members) {other : Member}
    (hmember : member ∈ members) (hother : other ∈ members) (hkey : member.key ∈ keys)
    (heq : other.key = member.key) : other = member := by
  have hsymm : Std.Symm fun earlier later : Member =>
      earlier.key ∈ keys → later.key ≠ earlier.key :=
    ⟨fun _ _ hdistinct hlater hequal => hdistinct (hequal ▸ hlater) hequal.symm⟩
  by_contra hne
  exact List.Pairwise.forall honce hmember hother (Ne.symm hne) hkey heq

/-- A member is either read by a field or passed over. -/
inductive Served (row : Row β) (values : β) (member : Member) : Prop
  | taken {field : Field β} (htakes : Takes row values member field)
  | other (hkey : member.key ∉ row.keys) (hvalue : Padded (WellFormed .value) member.value)

theorem Row.Collects.served (hcollects : row.Collects .strict members values)
    (hkeys : row.keys.Nodup) (honce : Once row.keys members)
    (hother : ∀ member ∈ members, member.key ∉ row.keys →
      Padded (WellFormed .value) member.value) (hmember : member ∈ members) :
    Served row values member := by
  by_cases hkey : member.key ∈ row.keys
  · obtain ⟨field, htakes⟩ := hcollects.exists_takes hkeys hmember hkey
      fun other hmem => honce.eq_of_key_eq hmember hmem hkey
    exact .taken htakes
  · exact .other hkey (hother member hmember hkey)

/-- The keys that have been seen after a member. -/
def Row.notice (row : Row β) (seen : List String) (member : Member) : List String :=
  if member.key ∈ row.keys then member.key :: seen else seen

theorem skipValue_of_padded (hvalue : Padded (WellFormed .value) text)
    (hrest : EndsNumber rest) :
    ∃ after, Blank after ∧ skipValue (text ++ rest) = .ok (after ++ rest) := by
  obtain ⟨hbefore, hvalue, hafter⟩ := hvalue
  refine ⟨_, hafter, ?_⟩
  rw [List.append_assoc, List.append_assoc]
  exact skipValue_of_wellFormed hvalue hbefore (hafter.endsNumber hrest)

theorem readMembers_of_member (hserved : Served row values member)
    (hwrites : WritesMember member text) {seen : List String}
    (hseen : member.key ∈ row.keys → member.key ∉ seen) (first : Bool) (hgap : Blank gap)
    (hrest : EndsNumber rest) :
    ∃ after, Blank after ∧
      readMembers row.fields seen first (row.only values seen)
          (gap ++ (comma first ++ (text ++ rest))) =
        readMembers row.fields (row.notice seen member) false
          (row.only values (row.notice seen member)) (after ++ rest) := by
  obtain ⟨hbefore, hkey, hbetween⟩ := hwrites
  simp only [List.append_assoc, List.cons_append]
  rw [readMembers_of_key (nextKey_of_quote first hgap hbefore _) (readString_of_writes hkey _)]
  cases hserved with
  | @taken field htakes =>
      have hknown : member.key ∈ row.keys := htakes.mem_keys
      have hstable : Stable (field.read (row.only values seen)) :=
        row.fields_stable field (List.mem_of_find?_eq_some htakes.find_eq) _
      obtain ⟨after, hafter, hread⟩ := htakes.read_eq seen
      refine ⟨after, hafter, ?_⟩
      rw [htakes.find_eq, Option.elim_some, htakes.key_eq, if_neg (hseen hknown),
        readColon_append hbetween, ok_bind, hstable.append hread hrest, ok_bind, Row.notice,
        if_pos hknown]
  | other hunknown hvalue =>
      obtain ⟨after, hafter, hskip⟩ := skipValue_of_padded hvalue hrest
      refine ⟨after, hafter, ?_⟩
      rw [Row.find?_eq_none hunknown, Option.elim_none, readColon_append hbetween, ok_bind,
        hskip, ok_bind, Row.notice, if_neg hunknown]

theorem readMembers_closed (fields : List (Field State)) (seen : List String) (first : Bool)
    (state : State) (hgap : Blank gap) (rest : List Char) :
    readMembers fields seen first state (gap ++ '}' :: rest) = .ok (state, rest) :=
  readMembers_of_closed (nextKey_of_closing first (hgap.skipBlank_cons rfl rest))

theorem readMembers_of_separated {items : List (List Char)} (hseparated : Separated items text)
    (hitems : List.Forall₂ WritesMember members items)
    (hserved : ∀ member ∈ members, Served row values member) (honce : Once row.keys members)
    (seen : List String) (hseen : ∀ member ∈ members, member.key ∈ row.keys → member.key ∉ seen)
    (first : Bool) (hgap : Blank gap) (rest : List Char) :
    readMembers row.fields seen first (row.only values seen)
        (gap ++ (comma first ++ (text ++ '}' :: rest))) =
      .ok (row.only values (members.foldl row.notice seen), rest) := by
  -- The blanks after a member are left for the next step, which takes them for its gap.
  induction hseparated generalizing members seen first gap with
  | last =>
      cases hitems with
      | cons hwrites hnil =>
          cases hnil
          obtain ⟨hmember, -⟩ := List.forall_mem_cons.mp hserved
          obtain ⟨hnew, -⟩ := List.forall_mem_cons.mp hseen
          obtain ⟨after, hafter, hread⟩ := readMembers_of_member hmember hwrites hnew first hgap
            (endsNumber_cons (.inr (.inr rfl)) rest)
          rw [hread, readMembers_closed _ _ _ _ hafter]
          rfl
  | more _ ih =>
      cases hitems with
      | @cons member _ members _ hwrites hitems =>
          obtain ⟨hmember, hserved⟩ := List.forall_mem_cons.mp hserved
          obtain ⟨hnew, hseen⟩ := List.forall_mem_cons.mp hseen
          obtain ⟨hdistinct, honce⟩ := List.pairwise_cons.mp honce
          have hunseen : ∀ other ∈ members, other.key ∈ row.keys →
              other.key ∉ row.notice seen member := by
            intro other hother hkey
            rw [Row.notice]
            split
            · rename_i hknown
              rw [List.mem_cons, not_or]
              exact ⟨hdistinct other hother hknown, hseen other hother hkey⟩
            · exact hseen other hother hkey
          rw [List.append_assoc, List.cons_append]
          obtain ⟨after, hafter, hread⟩ := readMembers_of_member hmember hwrites hnew first hgap
            (endsNumber_cons (.inl rfl) _)
          have hmore := ih hitems hserved honce _ hunseen false hafter
          rw [comma, List.singleton_append] at hmore
          rw [hread, hmore, List.foldl_cons]

theorem Row.mem_foldl_notice {seen : List String} {key : String} (hkey : key ∈ row.keys)
    (hmember : key ∈ seen ∨ ∃ member ∈ members, member.key = key) :
    key ∈ members.foldl row.notice seen := by
  induction members generalizing seen with
  | nil => simpa using hmember
  | cons member members ih =>
      apply ih
      obtain hseen | ⟨other, hother, rfl⟩ := hmember
      · refine .inl ?_
        rw [notice]
        split
        · exact List.mem_cons_of_mem _ hseen
        · exact hseen
      · obtain rfl | hother := List.mem_cons.mp hother
        · rw [notice, if_pos hkey]
          exact .inl List.mem_cons_self
        · exact .inr ⟨other, hother, rfl⟩

/-! ## The reader -/

theorem readRecord_of_array {elements : List (List Char)}
    (hlists : row.Lists .strict elements values) (hencloses : Encloses .array elements text)
    (hbefore : Blank before) (rest : List Char) :
    readRecord row.fields row.defaults (before ++ (text ++ rest)) = .ok (values, rest) := by
  have hopening : ∀ body, readRecord row.fields row.defaults (before ++ '[' :: body) =
      readElements row.fields true row.defaults body := by
    intro body
    rw [readRecord, hbefore.skipBlank_cons rfl]
    rfl
  cases hencloses with
  | empty hgap =>
      cases hlists
      simp only [Bracket.opening, Bracket.closing, List.cons_append, List.append_assoc,
        List.nil_append]
      rw [hopening, readElements_closed _ _ _ hgap]
  | filled hseparated =>
      simp only [Bracket.opening, Bracket.closing, List.cons_append, List.append_assoc,
        List.nil_append]
      rw [hopening]
      exact readElements_of_separated hlists hseparated true Blank.nil rest

theorem readRecord_of_object {items : List (List Char)}
    (hcollects : row.Collects .strict members values) (hkeys : row.keys.Nodup)
    (honce : Once row.keys members)
    (hother : ∀ member ∈ members, member.key ∉ row.keys →
      Padded (WellFormed .value) member.value)
    (hitems : List.Forall₂ WritesMember members items) (hencloses : Encloses .object items text)
    (hbefore : Blank before) (rest : List Char) :
    readRecord row.fields row.defaults (before ++ (text ++ rest)) = .ok (values, rest) := by
  have hopening : ∀ body, readRecord row.fields row.defaults (before ++ '{' :: body) =
      readMembers row.fields [] true (row.only values []) body := by
    intro body
    rw [readRecord, hbefore.skipBlank_cons rfl, row.only_nil values]
    rfl
  have hcomplete : row.only values (members.foldl row.notice []) = values :=
    hcollects.only_eq fun member hmember hkey =>
      row.mem_foldl_notice hkey (.inr ⟨member, hmember, rfl⟩)
  cases hencloses with
  | empty hgap =>
      cases hitems
      simp only [Bracket.opening, Bracket.closing, List.cons_append, List.append_assoc,
        List.nil_append]
      rw [hopening, readMembers_closed _ _ _ _ hgap]
      exact congrArg (fun found => Except.ok (found, rest)) hcomplete
  | filled hseparated =>
      simp only [Bracket.opening, Bracket.closing, List.cons_append, List.append_assoc,
        List.nil_append]
      have hread := readMembers_of_separated hseparated hitems
        (fun member hmember => hcollects.served hkeys honce hother hmember) honce []
        (fun _ _ _ => List.not_mem_nil) true Blank.nil rest
      rw [hcomplete] at hread
      rw [hopening]
      exact hread

theorem Reader.strict_record_eq {make : β → α}
    (hread : readRecord row.fields row.defaults text = .ok (values, rest)) (hrest : Blank rest) :
    Reader.strict.read (.record row make) (.ofList text) = .ok (make values) := by
  refine Reader.strict_read_eq _ ?_ hrest
  simp only [Schema.parser, hread, Except.map]

theorem Reader.strict_standard : Reader.strict.Standard where
  bool {value text} hwrites := by
    obtain ⟨hbefore, hwrites, hafter⟩ := hwrites
    exact Reader.strict_read_eq .bool (readBool_of_writes hbefore hwrites _) hafter
  natural {value text} hlimit hwrites := by
    obtain ⟨hbefore, hwrites, hafter⟩ := hwrites
    exact Reader.strict_read_eq .natural
      (readNatural_of_writes hlimit hbefore hwrites hafter.endsNumber_self) hafter
  array _ hlists htext := by
    obtain ⟨hbefore, hencloses, hafter⟩ := htext
    exact Reader.strict_record_eq (readRecord_of_array hlists hencloses hbefore _) hafter
  object _ hkeys honce hother hcollects hitems htext := by
    obtain ⟨hbefore, hencloses, hafter⟩ := htext
    exact Reader.strict_record_eq
      (readRecord_of_object hcollects hkeys honce hother hitems hencloses hbefore _) hafter

end WordMachine.Json
