/-
The first `n` of a list sorted by a total preorder. Whether an element is among
them is decided by counting: those that must come before it
(`countP_lt_of_mem_take`), or those that may (`mem_take_of_countP_lt`). Elements
of equal rank come in any order; `rank` is the sort that puts the flagged ones
first.
-/
import Mathlib.Data.List.Sort
import Mathlib.Data.List.Nodup

namespace MilpbookLM.Ranked

variable {α : Type} {R : α → α → Prop} {s : List α} {a : α} {p : α → Bool} {n : Nat}

/-- Fewer than `n` come strictly before one of the first `n`. -/
theorem countP_lt_of_mem_take (hs : s.Pairwise R) (ha : a ∈ s.take n) (hp : p a = false)
    (hafter : ∀ x, R a x → p x = false) : s.countP p < n := by
  obtain ⟨before, after, hsplit⟩ := List.append_of_mem ha
  have hs' : s = before ++ a :: (after ++ s.drop n) := by
    rw [← List.cons_append, ← List.append_assoc, ← hsplit, List.take_append_drop]
  have hlen : before.length < n := by
    have : (before ++ a :: after).length ≤ n := hsplit ▸ List.length_take_le n s
    simp only [List.length_append, List.length_cons] at this
    omega
  rw [hs'] at hs ⊢
  have hrest : ∀ x ∈ after ++ s.drop n, p x = false := fun x hx =>
    hafter x ((List.pairwise_cons.1 (List.pairwise_append.1 hs).2.1).1 x hx)
  have hzero : (after ++ s.drop n).countP p = 0 := List.countP_eq_zero.2 fun x hx => by simp [hrest x hx]
  have hle := before.countP_le_length (p := p)
  simp only [List.countP_append, List.countP_cons, hp, Bool.false_eq_true, if_false] at hzero ⊢
  omega

/-- An element is among the first `n` when fewer than `n` may come before it. -/
theorem mem_take_of_countP_lt (hs : s.Pairwise R) (ha : a ∈ s) (hbefore : ∀ x ∈ s, R x a → x ≠ a → p x = true)
    (hn : s.countP p < n) (hnd : s.Nodup) : a ∈ s.take n := by
  obtain ⟨before, after, rfl⟩ := List.append_of_mem ha
  have hall : ∀ x ∈ before, p x = true := fun x hx => by
    refine hbefore x (by simp [hx]) ((List.pairwise_append.1 hs).2.2 x hx a (by simp)) fun he => ?_
    exact (List.nodup_append.1 hnd).2.2 x hx a (by simp) he
  have hlen : before.length < n := by
    have := List.countP_eq_length.2 hall
    simp only [List.countP_append] at hn
    omega
  rw [List.take_append]
  refine List.mem_append_right _ ?_
  obtain ⟨k, hk⟩ : ∃ k, n - before.length = k + 1 := ⟨n - before.length - 1, by omega⟩
  simp [hk]

/-- Leaving out elements that were not taken changes nothing. -/
theorem take_filter (h : ∀ x ∈ s.take n, p x = true) : (s.filter p).take n = s.take n := by
  induction s generalizing n with
  | nil => simp
  | cons a s ih =>
    cases n with
    | zero => simp
    | succ n =>
      have ha : p a = true := h a (by simp)
      rw [List.filter_cons_of_pos ha, List.take_succ_cons, List.take_succ_cons,
        ih fun x hx => h x (by simp [hx])]

/-- Sorting by a key no two elements share leaves elements out before or after. -/
theorem filter_insertionSort {κ : Type} [LinearOrder κ] {key : α → κ} (hu : (s.map key).Nodup) :
    (s.insertionSort (key · ≤ key ·)).filter p = (s.filter p).insertionSort (key · ≤ key ·) := by
  have : Std.Total fun a b : α => key a ≤ key b := ⟨fun a b => le_total (key a) (key b)⟩
  have : IsTrans α fun a b : α => key a ≤ key b := ⟨fun a b c => le_trans⟩
  have hperm : (s.insertionSort (key · ≤ key ·)).Perm s := List.perm_insertionSort _ _
  refine ((hperm.filter p).trans (List.perm_insertionSort _ _).symm).eq_of_pairwise ?_
    ((List.pairwise_insertionSort _ s).sublist List.filter_sublist) (List.pairwise_insertionSort _ _)
  intro a b ha hb hab hba
  have ha : a ∈ s := hperm.mem_iff.1 (List.mem_filter.1 ha).1
  have hb : b ∈ s := (List.mem_filter.1 ((List.perm_insertionSort _ _).mem_iff.1 hb)).1
  exact List.inj_on_of_nodup_map hu ha hb (le_antisymm hab hba)

/-! ## Ties -/

variable (le : α → α → Bool)

/-- `le`, among equals the flagged ones first. -/
def flagged (flag : α → Bool) (a b : α) : Bool := le a b && (!le b a || !flag b || flag a)

/-- The list sorted by `le`, flagged elements first among equals. -/
def rank (flag : α → Bool) (l : List α) : List α := l.insertionSort fun a b => flagged le flag a b = true

theorem rank_perm (flag : α → Bool) (l : List α) : (rank le flag l).Perm l := List.perm_insertionSort _ _

variable {le}

theorem rank_pairwise (htotal : ∀ a b, le a b = true ∨ le b a = true)
    (htrans : ∀ a b c, le a b = true → le b c = true → le a c = true) (flag : α → Bool) (l : List α) :
    (rank le flag l).Pairwise fun a b => flagged le flag a b = true := by
  have : Std.Total fun a b => flagged le flag a b = true := ⟨fun a b => by
    have := htotal a b
    unfold flagged; grind⟩
  have : IsTrans α fun a b => flagged le flag a b = true := ⟨fun a b c hab hbc => by
    have h₁ := htrans a b c
    have h₂ := htrans c a b
    have h₃ := htrans b c a
    unfold flagged at *; grind⟩
  exact List.pairwise_insertionSort _ l

theorem le_of_flagged {flag : α → Bool} {a b : α} (h : flagged le flag a b = true) : le a b = true := by
  simp only [flagged, Bool.and_eq_true] at h; exact h.1

end MilpbookLM.Ranked
