import Mathlib.Data.List.DropRight
import WordMachine.Json.Read
import WordMachine.Proofs.JsonStability

/-!
# Stability of schemas

The parser of a schema reads a value wherever the value stands: blanks in front of it and
what follows it make no difference.
-/

namespace WordMachine.Json

variable {α β State : Type} {input after more : List Char}

/-! ## Values -/

/-- What a reader of values keeps to anywhere in a text: blanks in front of the value make no
difference, nor does what follows it, and no value starts like the end of an array. -/
structure Stable (read : List Char → Except JsonFault (Reading α)) : Prop where
  blanks : ∀ input, read (skipBlank input) = read input
  starts : ∀ {input reading}, read input = .ok reading →
    ∃ char tail, skipBlank input = char :: tail ∧ char ≠ ']'
  append : ∀ {input value rest more}, read input = .ok (value, rest) → EndsNumber more →
    read (input ++ more) = .ok (value, rest ++ more)

theorem Stable.map {read : List Char → Except JsonFault (Reading α)} (hstable : Stable read)
    (put : α → β) :
    Stable fun input => (read input).map fun reading => (put reading.1, reading.2) where
  blanks input := by rw [hstable.blanks]
  starts {input reading} hread := by
    cases hfound : read input with
    | error fault => simp only [hfound, Except.map, reduceCtorEq] at hread
    | ok found => exact hstable.starts hfound
  append {input value rest more} hread hmore := by
    cases hfound : read input with
    | error fault => simp only [hfound, Except.map, reduceCtorEq] at hread
    | ok found =>
        rw [hfound] at hread
        cases hread
        rw [hstable.append hfound hmore]
        rfl

theorem skipBlank_skipBlank (input : List Char) :
    skipBlank (skipBlank input) = skipBlank input :=
  List.dropWhile_idempotent ..

theorem map_literal_stable {value : α} {expected : List Char} {reading : Reading α}
    (hread : (literal expected input).map (fun rest => (value, rest)) = .ok reading)
    (more : List Char) :
    (literal expected (input ++ more)).map (fun rest => (value, rest)) =
      .ok (reading.1, reading.2 ++ more) := by
  cases hliteral : literal expected input with
  | error fault => simp only [hliteral, Except.map, reduceCtorEq] at hread
  | ok rest =>
      rw [hliteral] at hread
      cases hread
      rw [literal_stable hliteral]
      rfl

theorem stable_readBool : Stable readBool where
  blanks input := by rw [readBool, readBool, skipBlank_skipBlank]
  starts {input _} hread := by
    unfold readBool at hread
    split at hread
    · rename_i hskip
      exact ⟨_, _, hskip, by decide⟩
    · rename_i hskip
      exact ⟨_, _, hskip, by decide⟩
    · cases hread
  append {input _ _ more} hread _ := by
    unfold readBool at hread
    split at hread
    · rename_i hskip
      rw [readBool, skipBlank_stable hskip]
      exact map_literal_stable hread more
    · rename_i hskip
      rw [readBool, skipBlank_stable hskip]
      exact map_literal_stable hread more
    · cases hread

theorem stable_readNatural : Stable readNatural where
  blanks input := by rw [readNatural, readNatural, skipBlank_skipBlank]
  starts {input _} hread := by
    unfold readNatural at hread
    split at hread
    · cases hread
    · rename_i char tail hskip
      refine ⟨char, tail, hskip, ?_⟩
      rintro rfl
      cases hread
  append {input _ _ more} hread hmore := by
    unfold readNatural at hread
    split at hread
    · cases hread
    · rename_i char tail hskip
      rw [readNatural, skipBlank_stable hskip]
      split at hread
      · rename_i hstart
        dsimp only
        rw [if_pos hstart]
        split at hread
        · cases hread
        · rename_i hnumber
          cases hread
          rw [← List.cons_append, readNumber_stable hnumber hmore]
        · cases hread
      · cases hread

/-! ## Records -/

def Next.append : Next → List Char → Next
  | closed rest, more => closed (rest ++ more)
  | .more rest, more => .more (rest ++ more)

variable {rest tail : List Char} {char : Char}

theorem nextElement_skipBlank (first : Bool) (input : List Char) :
    nextElement first (skipBlank input) = nextElement first input := by
  rw [nextElement, nextElement, skipBlank_skipBlank]

theorem nextElement_of_closing (first : Bool) (hinput : skipBlank input = ']' :: rest) :
    nextElement first input = .ok (.closed rest) := by
  rw [nextElement, hinput]
  rfl

theorem nextElement_of_first (hinput : skipBlank input = char :: rest) (hchar : char ≠ ']') :
    nextElement true input = .ok (.more (char :: rest)) := by
  simp only [nextElement, hinput, if_true]

/-- After a comma there has to be another element. -/
theorem nextElement_comma (tail : List Char) :
    nextElement false (',' :: tail) =
      match skipBlank tail with
      | [] => .error .truncated
      | ']' :: _ => .error .malformed
      | rest => .ok (.more rest) := rfl

theorem nextElement_of_comma (hinput : skipBlank input = ',' :: tail)
    (htail : skipBlank tail = char :: rest) (hchar : char ≠ ']') :
    nextElement false input = .ok (.more (char :: rest)) := by
  rw [← nextElement_skipBlank, hinput, nextElement_comma, htail]
  split
  all_goals simp_all

theorem nextElement_stable {first : Bool} {next : Next}
    (hnext : nextElement first input = .ok next) (more : List Char) :
    nextElement first (input ++ more) = .ok (next.append more) := by
  unfold nextElement at hnext
  split at hnext
  · cases hnext
  · rename_i hskip
    cases hnext
    exact nextElement_of_closing first (skipBlank_stable hskip more)
  · rename_i hclosing hskip
    have hinput := skipBlank_stable hskip more
    split at hnext
    · rename_i hfirst
      subst hfirst
      cases hnext
      exact nextElement_of_first hinput hclosing
    · rename_i hfirst
      obtain rfl := Bool.eq_false_iff.mpr hfirst
      split at hnext
      · rename_i hcomma
        subst hcomma
        split at hnext
        · cases hnext
        · cases hnext
        · rename_i hend hbracket
          cases hnext
          obtain ⟨char, rest, hrest⟩ := List.exists_cons_of_ne_nil hend
          have hchar : char ≠ ']' := by
            rintro rfl
            exact hbracket rest hrest
          rw [hrest]
          exact nextElement_of_comma hinput (skipBlank_stable hrest more) hchar
      · cases hnext

theorem nextKey_skipBlank (first : Bool) (input : List Char) :
    nextKey first (skipBlank input) = nextKey first input := by
  rw [nextKey, nextKey, skipBlank_skipBlank]

theorem nextKey_of_closing (first : Bool) (hinput : skipBlank input = '}' :: rest) :
    nextKey first input = .ok (.closed rest) := by
  rw [nextKey, hinput]
  rfl

theorem nextKey_of_first (hinput : skipBlank input = '"' :: rest) :
    nextKey true input = .ok (.more rest) := by
  rw [nextKey, hinput]
  rfl

/-- After a comma there has to be another key. -/
theorem nextKey_comma (tail : List Char) :
    nextKey false (',' :: tail) =
      match skipBlank tail with
      | [] => .error .truncated
      | '"' :: rest => .ok (.more rest)
      | _ => .error .malformed := rfl

theorem nextKey_of_comma (hinput : skipBlank input = ',' :: tail)
    (htail : skipBlank tail = '"' :: rest) : nextKey false input = .ok (.more rest) := by
  rw [← nextKey_skipBlank, hinput, nextKey_comma, htail]
  rfl

theorem nextKey_stable {first : Bool} {next : Next} (hnext : nextKey first input = .ok next)
    (more : List Char) : nextKey first (input ++ more) = .ok (next.append more) := by
  unfold nextKey at hnext
  split at hnext
  · cases hnext
  · rename_i hskip
    cases hnext
    exact nextKey_of_closing first (skipBlank_stable hskip more)
  · rename_i hskip
    have hinput := skipBlank_stable hskip more
    split at hnext
    · rename_i hfirst
      subst hfirst
      split at hnext
      · rename_i hquote
        subst hquote
        cases hnext
        exact nextKey_of_first hinput
      · cases hnext
    · rename_i hfirst
      obtain rfl := Bool.eq_false_iff.mpr hfirst
      split at hnext
      · rename_i hcomma
        subst hcomma
        split at hnext
        · cases hnext
        · rename_i hkey
          cases hnext
          exact nextKey_of_comma hinput (skipBlank_stable hkey more)
        · cases hnext
      · cases hnext

variable {fields : List (Field State)}

theorem readElements_stable (hfields : ∀ field ∈ fields, ∀ state, Stable (field.read state))
    {first : Bool} {before result : State}
    (hread : readElements fields first before input = .ok (result, after))
    (hmore : EndsNumber more) :
    readElements fields first before (input ++ more) = .ok (result, after ++ more) := by
  fun_induction readElements fields first before input with
  | case1 first state input rest hskip => 
      cases hread
      rw [readElements, skipBlank_stable hskip]
      rfl
  | case2 => cases hread
  | case3 => cases hread
  | case4 => cases hread
  | case5 first state input field fields rest hnext =>
      cases hread
      rw [readElements, nextElement_stable hnext]
      rfl
  | case6 => cases hread
  | case7 first state input field fields rest hnext value last hvalue ih =>
      have hstable : Stable (field.read state) := hfields field List.mem_cons_self state
      rw [readElements, nextElement_stable hnext]
      simp only [Next.append, hstable.append hvalue hmore]
      exact ih (fun other hother => hfields other (List.mem_cons_of_mem _ hother)) hread

variable {seen : List String} {first : Bool} {state : State} {key name : List Char}

/-- What is done with a member, by the field that its key stands for. -/
theorem readMembers_of_key (hnext : nextKey first input = .ok (.more key))
    (hkey : readString key = .ok (name, after)) :
    readMembers fields seen first state input =
      (fields.find? (·.key.toList == name)).elim
        (readColon after >>= skipValue >>= readMembers fields seen false state)
        fun field =>
          if field.key ∈ seen then .error .mistyped
          else readColon after >>= field.read state >>= fun reading =>
            readMembers fields (field.key :: seen) false reading.1 reading.2 := by
  conv => lhs; rw [readMembers]
  -- Each match keeps the equation of its case, so nothing can be rewritten before it is split.
  split
  all_goals
    rename_i hcase
    cases hnext.symm.trans hcase
  split
  all_goals
    rename_i hcase
    cases hkey.symm.trans hcase
  split
  · rename_i hfind
    rw [hfind, Option.elim_some]
    split
    · rfl
    · split
      all_goals
        rename_i hcolon
        simp only [hcolon, bind, Except.bind]
      split
      all_goals
        rename_i hread
        rw [hread]
  · rename_i hfind
    rw [hfind, Option.elim_none]
    split
    all_goals
      rename_i hcolon
      simp only [hcolon, bind, Except.bind]
    split
    all_goals
      rename_i hskip
      rw [hskip]

theorem readMembers_of_closed (hnext : nextKey first input = .ok (.closed rest)) :
    readMembers fields seen first state input = .ok (state, rest) := by
  rw [readMembers]
  split
  all_goals
    rename_i hcase
    cases hnext.symm.trans hcase
  rfl

theorem readMembers_stable (hfields : ∀ field ∈ fields, ∀ state, Stable (field.read state))
    {before result : State}
    (hread : readMembers fields seen first before input = .ok (result, after))
    (hmore : EndsNumber more) :
    readMembers fields seen first before (input ++ more) = .ok (result, after ++ more) := by
  -- The member decides the case; what was refused at any point has no rest.
  fun_induction readMembers fields seen first before input with
  | case1 => cases hread
  | case2 seen first state input rest hnext =>
      cases hread
      exact readMembers_of_closed (nextKey_stable hnext more)
  | case3 => cases hread
  | case4 => cases hread
  | case5 => cases hread
  | case6 => cases hread
  | case7 seen first state input opened hnext _ name spelled hkey _ field hfind hseen value hcolon
      _ next rest hvalue _ ih =>
      have hstable : Stable (field.read state) :=
        hfields field (List.mem_of_find?_eq_some hfind) state
      rw [readMembers_of_key (nextKey_stable hnext more) (readString_stable hkey more), hfind,
        Option.elim_some, if_neg hseen, readColon_stable hcolon, ok_bind,
        hstable.append hvalue hmore, ok_bind]
      exact ih hread
  | case8 => cases hread
  | case9 => cases hread
  | case10 seen first state input opened hnext _ name spelled hkey _ hfind value hcolon _ rest
      hskip _ ih =>
      have hvalue : skipValue (value ++ more) = .ok (rest ++ more) := skip_stable hskip hmore
      rw [readMembers_of_key (nextKey_stable hnext more) (readString_stable hkey more), hfind,
        Option.elim_none, readColon_stable hcolon, ok_bind, hvalue, ok_bind]
      exact ih hread

theorem stable_readRecord (hfields : ∀ field ∈ fields, ∀ state, Stable (field.read state))
    (initial : State) : Stable (readRecord fields initial) where
  blanks input := by rw [readRecord, readRecord, skipBlank_skipBlank]
  starts {input _} hread := by
    unfold readRecord at hread
    split at hread
    · rename_i hskip
      exact ⟨_, _, hskip, by decide⟩
    · rename_i hskip
      exact ⟨_, _, hskip, by decide⟩
    · cases hread
  append {input _ _ more} hread hmore := by
    unfold readRecord at hread
    split at hread
    · rename_i hskip
      rw [readRecord, skipBlank_stable hskip]
      exact readElements_stable hfields hread hmore
    · rename_i hskip
      rw [readRecord, skipBlank_stable hskip]
      exact readMembers_stable hfields hread hmore
    · cases hread

/-! ## Schemas -/

mutual

theorem Schema.stable : {α : Type} → (schema : Schema α) → Stable schema.parser.read
  | _, .bool => stable_readBool
  | _, .natural => stable_readNatural
  | _, .record row make => (stable_readRecord row.fields_stable row.defaults).map make

theorem Row.fields_stable : {β : Type} → (row : Row β) →
    ∀ field ∈ row.fields, ∀ state, Stable (field.read state)
  | _, .nil, _, hfield, _ => absurd hfield List.not_mem_nil
  | _, .cons key schema default rest, field, hfield, state => by
      rw [Row.fields] at hfield
      obtain rfl | hfield := List.mem_cons.mp hfield
      · exact schema.stable.map (·, state.2)
      · obtain ⟨second, hsecond, rfl⟩ := List.mem_map.mp hfield
        exact (rest.fields_stable second hsecond state.2).map (state.1, ·)

end

end WordMachine.Json
