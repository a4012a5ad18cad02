/-
Selecting greedily from a list: each element in turn is taken if it fits with those taken before it,
and is passed over otherwise, for good. What is taken of the front of a list is the front of what is
taken (`select_append`), so an element is passed over for what was taken before it alone
(`select_at`).
-/
import Mathlib.Data.List.Basic

namespace MilpbookLM.Greedy

variable {α : Type} (fits : List α → α → Bool)

/-- What is taken, those already taken first. -/
def selectFrom : List α → List α → List α
  | taken, [] => taken
  | taken, a :: l => if fits taken a then selectFrom (taken ++ [a]) l else selectFrom taken l

/-- What is taken of a list. -/
def select (l : List α) : List α := selectFrom fits [] l

variable {fits} {taken l : List α}

theorem selectFrom_append (before after : List α) :
    selectFrom fits taken (before ++ after) = selectFrom fits (selectFrom fits taken before) after := by
  induction before generalizing taken with
  | nil => rfl
  | cons a before ih =>
    simp only [List.cons_append, selectFrom]
    split <;> exact ih

/-- What is taken was taken already, or is of the list, in its order. -/
theorem selectFrom_eq (fits : List α → α → Bool) (taken l : List α) : ∃ chosen, chosen.Sublist l ∧ selectFrom fits taken l = taken ++ chosen := by
  induction l generalizing taken with
  | nil => exact ⟨[], .slnil, by simp [selectFrom]⟩
  | cons a l ih =>
    simp only [selectFrom]
    split
    · obtain ⟨chosen, hsub, heq⟩ := ih (taken ++ [a])
      exact ⟨a :: chosen, hsub.cons_cons a, by rw [heq, List.append_assoc, List.singleton_append]⟩
    · obtain ⟨chosen, hsub, heq⟩ := ih taken
      exact ⟨chosen, hsub.cons a, heq⟩

/-- **What is taken is a subsequence.** -/
theorem select_sublist : (select fits l).Sublist l := by
  obtain ⟨chosen, hsub, heq⟩ := selectFrom_eq fits [] l
  rwa [select, heq]

/-- What holds of nothing, and stays so with an element that fits, holds of what is taken. -/
theorem select_invariant {P : List α → Prop} (h0 : P []) (hstep : ∀ taken a, P taken → fits taken a = true → P (taken ++ [a])) :
    P (select fits l) := by
  have hfrom : ∀ taken, P taken → P (selectFrom fits taken l) := by
    induction l with
    | nil => exact fun _ h => h
    | cons a l ih =>
      intro taken h
      simp only [selectFrom]
      split
      next hfits => exact ih _ (hstep taken a h hfits)
      next => exact ih _ h
  exact hfrom [] h0

/-- **An element at its place** is taken where it fits with what was taken before it, and passed over where it does
not; whatever follows, that stays in front. -/
theorem select_at (fits : List α → α → Bool) (before after : List α) (a : α) : ∃ later, later.Sublist after ∧
    (fits (select fits before) a = true ∧ select fits (before ++ a :: after) = select fits before ++ a :: later ∨
      fits (select fits before) a = false ∧ select fits (before ++ a :: after) = select fits before ++ later) := by
  simp only [select, selectFrom_append, selectFrom]
  cases hfits : fits (selectFrom fits [] before) a with
  | true =>
    obtain ⟨later, hsub, heq⟩ := selectFrom_eq fits (selectFrom fits [] before ++ [a]) after
    exact ⟨later, hsub, .inl ⟨rfl, by rw [if_pos rfl, heq, List.append_assoc, List.singleton_append]⟩⟩
  | false =>
    obtain ⟨later, hsub, heq⟩ := selectFrom_eq fits (selectFrom fits [] before) after
    exact ⟨later, hsub, .inr ⟨rfl, by rw [if_neg Bool.false_ne_true, heq]⟩⟩

end MilpbookLM.Greedy
