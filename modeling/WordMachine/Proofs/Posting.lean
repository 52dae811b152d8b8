import Mathlib.Data.List.DropRight

/-!
# Postings

The timer and the traces of a machine are accounts of its work.  Items are posted to an account
one after the other, and at times it is cleared.  What it shows depends on the items that were
posted since it was last cleared, and on no others.
-/

namespace WordMachine

/-- What happens to an account. -/
inductive Posting (α : Type) where
  | enter (item : α)
  | clear
deriving DecidableEq

namespace Posting

variable {α σ : Type}

def item? : Posting α → Option α
  | enter item => some item
  | clear => none

/-- The items that were posted after the account was last cleared. -/
def sinceClear (postings : List (Posting α)) : List α :=
  (postings.rtakeWhile fun posting => posting.item?.isSome).filterMap item?

theorem sinceClear_enter (postings : List (Posting α)) (item : α) :
    sinceClear (postings ++ [.enter item]) = sinceClear postings ++ [item] := by
  rw [sinceClear, List.rtakeWhile_concat_pos _ _ _ rfl, List.filterMap_append]
  rfl

theorem sinceClear_clear (postings : List (Posting α)) :
    sinceClear (postings ++ [.clear]) = [] := by
  rw [sinceClear, List.rtakeWhile_concat_neg _ _ _ (by simp [item?])]
  rfl

/-- An account after postings, when it is known how an item is entered into it and how it is
cleared. -/
def posted (enter : σ → α → σ) (clear : σ → σ) (account : σ) (postings : List (Posting α)) : σ :=
  postings.foldl (fun account posting =>
    match posting with
    | .enter item => enter account item
    | .clear => clear account) account

/-- An account keeps to its history after any postings if it does so after each single one. -/
theorem keeps_sinceClear (Keeps : σ → List α → Prop) {enter : σ → α → σ} {clear : σ → σ}
    (henter : ∀ account history item, Keeps account history →
      Keeps (enter account item) (history ++ [item]))
    (hclear : ∀ account history, Keeps account history → Keeps (clear account) [])
    {account : σ} (hstart : Keeps account []) (postings : List (Posting α)) :
    Keeps (posted enter clear account postings) (sinceClear postings) := by
  induction postings using List.reverseRecOn with
  | nil => exact hstart
  | append_singleton postings posting ih =>
      rw [posted, List.foldl_append]
      cases posting with
      | enter item =>
          rw [sinceClear_enter]
          exact henter _ _ item ih
      | clear =>
          rw [sinceClear_clear]
          exact hclear _ _ ih

end Posting

end WordMachine
