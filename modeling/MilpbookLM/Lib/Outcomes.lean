/-
Computations that may fail: what a bind, a `forM` or a `mapM` that went through did
(`Except.bind_ok_iff`, `Except.forM_ok_iff`, `Except.mapM_ok_iff`, `mem_of_mapM`), and what the
error of a loop is.
-/
import Mathlib.Data.List.Forall2

namespace MilpbookLM

/-! ## Optional values -/

theorem mem_of_mapM {α β : Type} {f : α → Option β} {as : List α} {bs : List β} (h : as.mapM f = some bs) {b : β}
    (hb : b ∈ bs) : ∃ a ∈ as, f a = some b := by
  induction as generalizing bs with
  | nil =>
    cases h
    cases hb
  | cons a as ih =>
    simp only [List.mapM_cons, Option.bind_eq_bind, Option.bind_eq_some_iff] at h
    obtain ⟨b', hb', bs', hbs', h⟩ := h
    cases h
    rcases List.mem_cons.1 hb with rfl | hb
    · exact ⟨a, by simp, hb'⟩
    · obtain ⟨a', ha', h⟩ := ih hbs' hb
      exact ⟨a', by simp [ha'], h⟩

theorem mapM_isSome {α β : Type} {f : α → Option β} {as : List α} (h : ∀ a ∈ as, ∃ b, f a = some b) :
    ∃ bs, as.mapM f = some bs := by
  induction as with
  | nil => exact ⟨[], rfl⟩
  | cons a as ih =>
    obtain ⟨b, hb⟩ := h a (by simp)
    obtain ⟨bs, hbs⟩ := ih fun a' ha => h a' (by simp [ha])
    exact ⟨b :: bs, by simp [List.mapM_cons, hb, hbs]⟩

/-! ## Errors -/

namespace Except

variable {ε α β : Type}

/-- What went through did so in steps. -/
theorem bind_ok_iff {x : Except ε α} {f : α → Except ε β} {b : β} :
    (x >>= f) = .ok b ↔ ∃ a, x = .ok a ∧ f a = .ok b := by
  cases x <;> simp [bind, Except.bind]

/-- A loop of checks went through if each did. -/
theorem forM_ok_iff {f : α → Except ε Unit} {l : List α} : l.forM f = .ok () ↔ ∀ x ∈ l, f x = .ok () := by
  induction l with
  | nil => simp [pure, Except.pure]
  | cons x l ih =>
    change (f x >>= fun _ => l.forM f) = .ok () ↔ _
    cases hx : f x with
    | error e => simp [bind, Except.bind, hx]
    | ok u => simpa [bind, Except.bind, hx] using ih

/-- Each element was mapped. -/
theorem mapM_ok_iff {f : α → Except ε β} {xs : List α} {ys : List β} :
    xs.mapM f = .ok ys ↔ List.Forall₂ (fun x y => f x = .ok y) xs ys := by
  induction xs generalizing ys with
  | nil =>
    rw [List.mapM_nil, List.forall₂_nil_left_iff]
    exact ⟨fun h => (Except.ok.inj h).symm, fun h => h ▸ rfl⟩
  | cons x xs ih =>
    simp only [List.mapM_cons, bind_ok_iff, List.forall₂_cons_left_iff, ih]
    constructor
    · rintro ⟨y, hy, ys', hys, h⟩
      cases h
      exact ⟨y, ys', hy, hys, rfl⟩
    · rintro ⟨y, ys', hy, hys, rfl⟩
      exact ⟨y, hy, ys', hys, rfl⟩

section Errors

variable {P : ε → Prop}

/-- The error of a loop is one of an element. -/
theorem mapM_error {f : α → Except ε β} (hf : ∀ a e, f a = .error e → P e) {l : List α} {e : ε}
    (h : l.mapM f = .error e) : P e := by
  induction l with
  | nil => cases h
  | cons a l ih =>
    rw [List.mapM_cons] at h
    cases ha : f a with
    | error e' =>
      rw [ha] at h
      cases h
      exact hf a e ha
    | ok b =>
      rw [ha] at h
      cases hl : l.mapM f with
      | error e' =>
        rw [hl] at h
        cases h
        exact ih hl
      | ok bs =>
        rw [hl] at h
        cases h

theorem forM_error {f : α → Except ε Unit} (hf : ∀ a e, f a = .error e → P e) {l : List α} {e : ε}
    (h : l.forM f = .error e) : P e := by
  induction l with
  | nil => cases h
  | cons a l ih =>
    simp only [List.forM] at h
    cases ha : f a with
    | error e' =>
      rw [ha] at h
      cases h
      exact hf a e ha
    | ok b =>
      rw [ha] at h
      exact ih h

end Errors

end Except

end MilpbookLM
