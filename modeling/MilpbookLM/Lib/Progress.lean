/-
Runs that go on for ever, seen by their step numbers. `eventually` is the rule
for "at last": a rank that each tick lowers, and nothing raises, until the goal
is met. `crossing` finds the step at which a property first comes to hold.
-/
import Mathlib.Data.Nat.Find
import Mathlib.Data.Nat.Init

namespace MilpbookLM.Progress

variable {tick goal inv : Nat → Prop} {rank : Nat → Nat}

/-- What the steps between two ticks keep. -/
theorem until_tick {start m} (hle : start ≤ m) (hquiet : ∀ k, start ≤ k → k < m → ¬ tick k) (h0 : inv start)
    (keeps : ∀ n, inv n → ¬ tick n → inv (n + 1) ∧ rank (n + 1) ≤ rank n) : inv m ∧ rank m ≤ rank start := by
  induction m, hle using Nat.le_induction with
  | base => exact ⟨h0, le_rfl⟩
  | succ m hm ih =>
    obtain ⟨hi, hr⟩ := ih fun k hk hkm => hquiet k hk (by omega)
    obtain ⟨hi', hr'⟩ := keeps m hi (hquiet m hm (by omega))
    exact ⟨hi', by omega⟩

/-- **A tick meets the goal**, when ticks never end and each one meets it or
lowers the rank. -/
theorem eventually (fair : ∀ n, ∃ m, n ≤ m ∧ tick m)
    (keeps : ∀ n, inv n → ¬ tick n → inv (n + 1) ∧ rank (n + 1) ≤ rank n)
    (drops : ∀ n, inv n → tick n → goal n ∨ inv (n + 1) ∧ rank (n + 1) < rank n) {start} (h0 : inv start) :
    ∃ n, start ≤ n ∧ tick n ∧ goal n := by
  induction hr : rank start using Nat.strong_induction_on generalizing start with
  | _ r ih =>
    classical
    let next := Nat.find (fair start)
    obtain ⟨hle, ht⟩ : start ≤ next ∧ tick next := Nat.find_spec (fair start)
    have hquiet : ∀ k, start ≤ k → k < next → ¬ tick k :=
      fun k hk hkm htk => Nat.find_min (fair start) hkm ⟨hk, htk⟩
    obtain ⟨hi, hn⟩ := until_tick hle hquiet h0 keeps
    rcases drops next hi ht with hg | ⟨hi', hlt⟩
    · exact ⟨next, hle, ht, hg⟩
    · obtain ⟨n, hn', htn, hg⟩ := ih (rank (next + 1)) (by omega) hi' rfl
      exact ⟨n, by omega, htn, hg⟩

/-- The step at which `p` comes to hold. -/
theorem crossing {p : Nat → Prop} {a b} (hab : a ≤ b) (ha : ¬ p a) (hb : p b) :
    ∃ k, a ≤ k ∧ k < b ∧ ¬ p k ∧ p (k + 1) := by
  induction b, hab using Nat.le_induction with
  | base => exact absurd hb ha
  | succ b hab ih =>
    by_cases hp : p b
    · obtain ⟨k, hak, hkb, hk⟩ := ih hp
      exact ⟨k, hak, by omega, hk⟩
    · exact ⟨b, hab, by omega, hp, hb⟩

end MilpbookLM.Progress
