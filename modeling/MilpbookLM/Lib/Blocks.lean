/-
An input read in blocks of one size, the last of them as long as what is left. Together
they are the input (`flatten_blocks`), but what stands across the end of a block is in none
of them: a pattern is found in a block exactly where it starts and ends in the same one
(`exists_block_iff`).
-/
import Mathlib.Data.List.Infix

namespace MilpbookLM.Blocks

variable {α : Type} {n : Nat} {p s : List α}

def blocks (n : Nat) (s : List α) : List (List α) :=
  if _h : s = [] ∨ n = 0 then [] else s.take n :: blocks n (s.drop n)
  termination_by s.length
  decreasing_by
    have hs : s.length ≠ 0 := fun h => _h (.inl (List.eq_nil_of_length_eq_zero h))
    simp only [List.length_drop]
    omega

theorem blocks_nil : blocks n ([] : List α) = [] := by rw [blocks, dif_pos (.inl rfl)]

theorem blocks_cons (hn : 0 < n) (hs : s ≠ []) : blocks n s = s.take n :: blocks n (s.drop n) := by
  rw [blocks, dif_neg]
  exact fun h => h.elim hs (Nat.ne_of_gt hn)

/-- **The blocks are the input.** -/
theorem flatten_blocks (hn : 0 < n) (s : List α) : (blocks n s).flatten = s := by
  induction hlength : s.length using Nat.strongRecOn generalizing s with
  | _ k ih =>
    by_cases hs : s = []
    · rw [hs, blocks_nil, List.flatten_nil]
    · have hpos := List.length_pos_of_ne_nil hs
      have hrest := ih (s.drop n).length (by rw [List.length_drop]; omega) (s.drop n) rfl
      rw [blocks_cons hn hs, List.flatten_cons, hrest, List.take_append_drop]

/-- The pattern stands at the place `i`. -/
def OccursAt (p s : List α) (i : Nat) : Prop := p <+: s.drop i

theorem infix_iff : p <:+: s ↔ ∃ i, OccursAt p s i := by
  constructor
  · intro ⟨a, b, h⟩
    exact ⟨a.length, b, by rw [← h, List.append_assoc, List.drop_left]⟩
  · intro ⟨i, h⟩
    exact h.isInfix.trans (List.drop_suffix i s).isInfix

theorem occursAt_drop (i : Nat) : OccursAt p (s.drop n) i ↔ OccursAt p s (n + i) := by
  rw [OccursAt, OccursAt, List.drop_drop]

/-- In the first block it is where it ends before the block does. -/
theorem occursAt_take (hp : p ≠ []) (i : Nat) : OccursAt p (s.take n) i ↔ OccursAt p s i ∧ i + p.length ≤ n := by
  have hpos := List.length_pos_of_ne_nil hp
  rw [OccursAt, List.drop_take, List.prefix_take_iff]
  constructor
  · intro ⟨h, hlength⟩
    exact ⟨h, by omega⟩
  · intro ⟨h, hlength⟩
    exact ⟨h, by omega⟩

/-- **A pattern is in a block** exactly where it starts and ends in the same one. -/
theorem exists_block_iff (hn : 0 < n) (hp : p ≠ []) (s : List α) :
    (∃ b ∈ blocks n s, p <:+: b) ↔ ∃ i, OccursAt p s i ∧ i / n = (i + p.length - 1) / n := by
  have hpos := List.length_pos_of_ne_nil hp
  induction hlength : s.length using Nat.strongRecOn generalizing s with
  | _ k ih =>
    by_cases hs : s = []
    · subst hs
      simp only [blocks_nil, List.not_mem_nil, false_and, exists_false, false_iff]
      intro ⟨i, h, _⟩
      rw [OccursAt, List.drop_nil, List.prefix_nil] at h
      exact hp h
    · have hspos := List.length_pos_of_ne_nil hs
      have hrest : (∃ b ∈ blocks n (s.drop n), p <:+: b) ↔ _ :=
        ih (s.drop n).length (by rw [List.length_drop]; omega) (s.drop n) rfl
      simp only [blocks_cons hn hs, List.mem_cons, exists_eq_or_imp]
      rw [hrest, infix_iff]
      constructor
      · rintro (⟨i, h⟩ | ⟨i, h, hsame⟩)
        · obtain ⟨hoccurs, hend⟩ := (occursAt_take hp i).1 h
          refine ⟨i, hoccurs, ?_⟩
          rw [Nat.div_eq_of_lt (by omega), Nat.div_eq_of_lt (by omega)]
        · refine ⟨n + i, (occursAt_drop i).1 h, ?_⟩
          rw [Nat.add_assoc, Nat.add_sub_assoc (by omega), Nat.add_div_left _ hn, Nat.add_div_left _ hn, hsame]
      · intro ⟨i, h, hsame⟩
        by_cases hi : i < n
        · rw [Nat.div_eq_of_lt hi] at hsame
          have hend := (Nat.div_eq_zero_iff_lt hn).1 hsame.symm
          exact .inl ⟨i, (occursAt_take hp i).2 ⟨h, by omega⟩⟩
        · obtain ⟨j, rfl⟩ := Nat.exists_eq_add_of_le (Nat.not_lt.1 hi)
          rw [Nat.add_assoc, Nat.add_sub_assoc (by omega), Nat.add_div_left _ hn, Nat.add_div_left _ hn] at hsame
          exact .inr ⟨j, (occursAt_drop j).2 h, Nat.succ_inj.1 hsame⟩

end MilpbookLM.Blocks
