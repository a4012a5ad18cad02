/-
Programs side by side, each with an outcome of its own. `Prog.Keeps` says of one
program that its calls keep an invariant and make only steps that `guar` admits, as
long as the others make only steps that `rely` admits, and what holds when it ends.
`Crowd.keeps` puts programs together, where the steps of each are steps that all
others rely on.
-/
import MilpbookLM.Lib.Interleave

namespace MilpbookLM.Interleave

variable {P ι : Type} {ρ : ι → Type} {σ E α β : Type}

/-! ## One program -/

namespace Prog

/-- From `s` on, whatever others do that `rely` admits: a call that meets `cond` keeps
`inv` and makes a step that `guar` admits, and `Q` holds of the outcome. -/
def Keeps (exec : Exec ι ρ σ E) (cond : ι → E → σ → Prop) (inv : σ → Prop) (rely guar : σ → σ → Prop) :
    Prog ι ρ α → (α → σ → Prop) → σ → Prop
  | .ret a, Q, s => ∀ s', rely s s' → inv s' → Q a s'
  | .call i k, Q, s => ∀ s' e, rely s s' → inv s' → cond i e s' →
      inv (exec i e s').2 ∧ guar s' (exec i e s').2 ∧ (k (exec i e s').1).Keeps exec cond inv rely guar Q (exec i e s').2

section Keeps

variable {exec : Exec ι ρ σ E} {cond : ι → E → σ → Prop} {inv : σ → Prop} {rely guar : σ → σ → Prop} {s s' : σ}

/-- What others do leaves a program what it is. -/
theorem Keeps.stable {x : Prog ι ρ α} {Q : α → σ → Prop} (htrans : ∀ s s' s'', rely s s' → rely s' s'' → rely s s'')
    (h : x.Keeps exec cond inv rely guar Q s) (hr : rely s s') : x.Keeps exec cond inv rely guar Q s' := by
  cases x with
  | ret a => exact fun s'' hr' => h s'' (htrans _ _ _ hr hr')
  | call i k => exact fun s'' e hr' => h s'' e (htrans _ _ _ hr hr')

/-- What holds of the outcome of a program that has ended. -/
theorem Keeps.ended {a : α} {Q : α → σ → Prop} (h : (ret a : Prog ι ρ α).Keeps exec cond inv rely guar Q s)
    (hrefl : ∀ s, rely s s) (hinv : inv s) : Q a s := h s (hrefl s) hinv

end Keeps

end Prog

/-! ## Any number of programs -/

/-- The shared state, and what is left of every program. -/
structure Crowd (P ι : Type) (ρ : ι → Type) (σ α : Type) where
  shared : σ
  procs : P → Prog ι ρ α

variable [DecidableEq P]

/-- One program makes its next call. -/
def Crowd.call (exec : Exec ι ρ σ E) (c : Crowd P ι ρ σ α) (p : P) (e : E) : Crowd P ι ρ σ α :=
  match c.procs p with
  | .ret _ => c
  | .call i k => ⟨(exec i e c.shared).2, Function.update c.procs p (k (exec i e c.shared).1)⟩

/-- A call that meets `cond`. -/
inductive Crowd.Step (exec : Exec ι ρ σ E) (cond : P → ι → E → σ → Prop) : Crowd P ι ρ σ α → Crowd P ι ρ σ α → Prop
  | call {c : Crowd P ι ρ σ α} {p i k} (e : E) : c.procs p = .call i k → cond p i e c.shared →
      Crowd.Step exec cond c (c.call exec p e)

/-- What the programs reach when every call meets `cond`. -/
abbrev Crowd.Reach (exec : Exec ι ρ σ E) (init : σ → Prop) (start : P → Prog ι ρ α) (cond : P → ι → E → σ → Prop) :
    Crowd P ι ρ σ α → Prop :=
  Interleave.Reach (fun c => init c.shared ∧ c.procs = start) (Crowd.Step exec cond)

section Reach

variable {exec : Exec ι ρ σ E} {init : σ → Prop} {start : P → Prog ι ρ α} {cond : P → ι → E → σ → Prop}
  {c : Crowd P ι ρ σ α}

/-- **From programs to crowds.** -/
theorem Crowd.keeps (inv : σ → Prop) (rely guar : P → σ → σ → Prop) (Q : P → α → σ → Prop) (hrefl : ∀ p s, rely p s s)
    (htrans : ∀ p s s' s'', rely p s s' → rely p s' s'' → rely p s s'')
    (hguar : ∀ p q s s', q ≠ p → guar p s s' → rely q s s') (hinit : ∀ s, init s → inv s)
    (hstart : ∀ p s, init s → (start p).Keeps exec (cond p) inv (rely p) (guar p) (Q p) s)
    (h : Crowd.Reach exec init start cond c) :
    inv c.shared ∧ ∀ p, (c.procs p).Keeps exec (cond p) inv (rely p) (guar p) (Q p) c.shared := by
  refine Interleave.Reach.invariant (I := fun c : Crowd P ι ρ σ α =>
    inv c.shared ∧ ∀ p, (c.procs p).Keeps exec (cond p) inv (rely p) (guar p) (Q p) c.shared) ?_ ?_ h
  · intro c hc
    refine ⟨hinit _ hc.1, fun p => ?_⟩
    rw [hc.2]
    exact hstart p _ hc.1
  · intro c c' _ hi hstep
    cases hstep with
    | @call p i k e hp hc =>
      have hkeeps := hi.2 p
      rw [hp] at hkeeps
      obtain ⟨hinv, hg, hrest⟩ := hkeeps _ e (hrefl p _) hi.1 hc
      simp only [Crowd.call, hp]
      refine ⟨hinv, fun q => ?_⟩
      by_cases hq : q = p
      · subst hq
        rw [Function.update_self]
        exact hrest
      · rw [Function.update_of_ne hq]
        exact (hi.2 q).stable (htrans q) (hguar p q _ _ hq hg)

/-! ### Schedules -/

/-- Every call of a schedule meets `cond`. -/
def Crowd.Meets (exec : Exec ι ρ σ E) (cond : P → ι → E → σ → Prop) : Crowd P ι ρ σ α → List (P × E) → Prop
  | _, [] => True
  | c, (p, e) :: ms =>
    (match c.procs p with
      | .ret _ => True
      | .call i _ => cond p i e c.shared) ∧ Crowd.Meets exec cond (c.call exec p e) ms

/-- A schedule is a run. -/
theorem Crowd.reach_calls (h : Crowd.Reach exec init start cond c) {ms : List (P × E)} (hm : Crowd.Meets exec cond c ms) :
    Crowd.Reach exec init start cond (ms.foldl (fun c m => c.call exec m.1 m.2) c) := by
  induction ms generalizing c with
  | nil => exact h
  | cons m ms ih =>
    refine ih ?_ hm.2
    cases hcur : c.procs m.1 with
    | ret a => simpa only [Crowd.call, hcur] using h
    | call i k =>
      have hc := hm.1
      simp only [hcur] at hc
      exact Interleave.Reach.next h (.call m.2 hcur hc)

end Reach

end MilpbookLM.Interleave
