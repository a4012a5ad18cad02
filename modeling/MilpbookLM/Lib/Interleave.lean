/-
Programs that act on a shared state through atomic calls, any number of them
interleaved.

A program is the tree of its calls and of what it does with each answer
(`Prog`). A run is the shared state and the trace of the calls made so far
(`Run`); a pool adds what is left of every process's program (`Pool`). What a
process calls depends on its own answers only, so a pool is understood in two
steps: `Prog.Along` says of one program, alone, which calls it makes after which
answers; `Machine.runs_along` then turns every pool reached into a run whose
calls follow these rules, and what is left to prove is an invariant of runs.

Between two calls of a process others call as they like, so what a check of it said
may be so no more: `Unspoilt` says that it is, for every process since whose latest
call nothing was called that spoils it.
-/
import Mathlib.Algebra.Ring.Nat
import Mathlib.Logic.Function.Basic
import Mathlib.Logic.Relation

namespace MilpbookLM.Interleave

/-- A pool of two processes and one of three are not empty. -/
instance neZero_two : NeZero 2 := ⟨by decide⟩

instance neZero_three : NeZero 3 := ⟨by decide⟩

/-! ## Runs -/

/-- The states `step` reaches from those `init` admits. -/
inductive Reach {σ : Type} (init : σ → Prop) (step : σ → σ → Prop) : σ → Prop
  | start {s} : init s → Reach init step s
  | next {s s'} : Reach init step s → step s s' → Reach init step s'

namespace Reach

variable {σ : Type} {init : σ → Prop} {step step' : σ → σ → Prop}

/-- An invariant holds in every state reached. -/
theorem invariant {I : σ → Prop} (h0 : ∀ s, init s → I s)
    (hs : ∀ s s', Reach init step s → I s → step s s' → I s') {s} (h : Reach init step s) : I s := by
  induction h with
  | start hi => exact h0 _ hi
  | next hr hst ih => exact hs _ _ hr ih hst

theorem mono (hs : ∀ s s', step s s' → step' s s') {s} (h : Reach init step s) : Reach init step' s := by
  induction h with
  | start hi => exact .start hi
  | next _ hst ih => exact .next ih (hs _ _ hst)

/-- What is reached is reached from where it started. -/
theorem from_start {s} (h : Reach init step s) : ∃ s₀, init s₀ ∧ Relation.ReflTransGen step s₀ s := by
  induction h with
  | start hi => exact ⟨_, hi, .refl⟩
  | next _ hst ih =>
    obtain ⟨s₀, hi, hs⟩ := ih
    exact ⟨s₀, hi, hs.tail hst⟩

/-- What is reached in further steps is reached. -/
theorem trans {s s'} (h : Reach init step s) (hs : Relation.ReflTransGen step s s') : Reach init step s' := by
  induction hs with
  | refl => exact h
  | tail _ hst ih => exact .next ih hst

end Reach

section Runs

variable {P ι : Type} {ρ : ι → Type} {σ E : Type}

/-- A call made: by whom, which one, and its answer. -/
structure Event (P ι : Type) (ρ : ι → Type) where
  party : P
  call : ι
  answer : ρ call

/-- The shared state, and the calls that led to it, the latest first. -/
structure Run (P ι : Type) (ρ : ι → Type) (σ : Type) where
  shared : σ
  trace : List (Event P ι ρ)

/-- What a call does to the shared state, given what the environment decides
(clocks, fresh names, choices the source leaves open). -/
abbrev Exec (ι : Type) (ρ : ι → Type) (σ E : Type) := (i : ι) → E → σ → ρ i × σ

/-- The run after one more call. -/
def Run.call (exec : Exec ι ρ σ E) (p : P) (i : ι) (e : E) (r : Run P ι ρ σ) : Run P ι ρ σ :=
  ⟨(exec i e r.shared).2, ⟨p, i, (exec i e r.shared).1⟩ :: r.trace⟩

@[simp] theorem Run.call_shared (exec : Exec ι ρ σ E) (p : P) (i : ι) (e : E) (r : Run P ι ρ σ) :
    (r.call exec p i e).shared = (exec i e r.shared).2 := rfl

@[simp] theorem Run.call_trace (exec : Exec ι ρ σ E) (p : P) (i : ι) (e : E) (r : Run P ι ρ σ) :
    (r.call exec p i e).trace = ⟨p, i, (exec i e r.shared).1⟩ :: r.trace := rfl

/-- One call that meets `cond`. -/
inductive Run.Step (exec : Exec ι ρ σ E) (cond : P → ι → E → Run P ι ρ σ → Prop) :
    Run P ι ρ σ → Run P ι ρ σ → Prop
  | call {r} (p : P) (i : ι) (e : E) : cond p i e r → Run.Step exec cond r (r.call exec p i e)

/-- The runs whose calls all meet `cond`. -/
abbrev Runs (exec : Exec ι ρ σ E) (init : σ → Prop) (cond : P → ι → E → Run P ι ρ σ → Prop) :
    Run P ι ρ σ → Prop :=
  Reach (fun r => init r.shared ∧ r.trace = []) (Run.Step exec cond)

/-- What holds of every call and its answer when it is made holds of all in the trace. -/
theorem Runs.event {exec : Exec ι ρ σ E} {init : σ → Prop} {cond : P → ι → E → Run P ι ρ σ → Prop}
    {G : P → (i : ι) → ρ i → Prop}
    (hg : ∀ p i e r, Runs exec init cond r → cond p i e r → G p i (exec i e r.shared).1) {r}
    (h : Runs exec init cond r) {p i a} (hev : (⟨p, i, a⟩ : Event P ι ρ) ∈ r.trace) : G p i a := by
  refine Reach.invariant (I := fun r => ∀ ev ∈ r.trace, G ev.party ev.call ev.answer) ?_ ?_ h _ hev
  · rintro r ⟨-, h⟩ ev hev
    simp [h] at hev
  · rintro r r' hr hi ⟨p, i, e, hc⟩ ev hev
    rcases List.mem_cons.1 hev with rfl | hev
    · exact hg p i e r hr hc
    · exact hi ev hev

variable [DecidableEq P]

/-- The calls of `p`, the latest first. -/
def own (p : P) (t : List (Event P ι ρ)) : List (Σ i, ρ i) :=
  (t.filter fun ev => ev.party = p).map fun ev => ⟨ev.call, ev.answer⟩

@[simp] theorem own_nil (p : P) : own p ([] : List (Event P ι ρ)) = [] := rfl

@[simp] theorem own_self (p : P) (i : ι) (a : ρ i) (t : List (Event P ι ρ)) :
    own p (⟨p, i, a⟩ :: t) = ⟨i, a⟩ :: own p t := by
  simp [own]

theorem own_other {p q : P} (h : q ≠ p) (i : ι) (a : ρ i) (t : List (Event P ι ρ)) :
    own p (⟨q, i, a⟩ :: t) = own p t := by
  simp [own, h]

theorem mem_own {p : P} {t : List (Event P ι ρ)} {i a} :
    (⟨i, a⟩ : Σ i, ρ i) ∈ own p t ↔ (⟨p, i, a⟩ : Event P ι ρ) ∈ t := by
  simp only [own, List.mem_map, List.mem_filter, decide_eq_true_eq]
  constructor
  · rintro ⟨⟨q, j, b⟩, ⟨hmem, rfl⟩, heq⟩
    cases heq; exact hmem
  · exact fun h => ⟨_, ⟨h, rfl⟩, rfl⟩

end Runs

/-! ## Programs -/

/-- A program over the calls `ι`, where call `i` is answered by a `ρ i`. -/
inductive Prog (ι : Type) (ρ : ι → Type) (α : Type)
  | ret (a : α)
  | call (i : ι) (k : ρ i → Prog ι ρ α)

namespace Prog

variable {ι : Type} {ρ : ι → Type} {α β ε : Type}

def bind : Prog ι ρ α → (α → Prog ι ρ β) → Prog ι ρ β
  | .ret a, f => f a
  | .call i k, f => .call i fun r => (k r).bind f

instance : Monad (Prog ι ρ) where
  pure := .ret
  bind := bind

/-- The program that makes one call. -/
def perform (i : ι) : Prog ι ρ (ρ i) := .call i .ret

/-- Along every path of a program, from the calls `t` made before: each call is
one that `ok` allows after the calls before it, and the outcome is one that `Q`
admits. Calls are answered as `adm` says. -/
def Along (adm : (i : ι) → ρ i → Prop) (ok : List (Σ i, ρ i) → ι → Prop) :
    Prog ι ρ α → (α → List (Σ i, ρ i) → Prop) → List (Σ i, ρ i) → Prop
  | .ret a, Q, t => Q a t
  | .call i k, Q, t => ok t i ∧ ∀ r, adm i r → (k r).Along adm ok Q (⟨i, r⟩ :: t)

section Along

variable {adm : (i : ι) → ρ i → Prop} {ok : List (Σ i, ρ i) → ι → Prop} {t : List (Σ i, ρ i)}

theorem Along.mono {x : Prog ι ρ α} {Q Q' : α → List (Σ i, ρ i) → Prop} (h : x.Along adm ok Q t)
    (hQ : ∀ a t, Q a t → Q' a t) : x.Along adm ok Q' t := by
  induction x generalizing t with
  | ret a => exact hQ a t h
  | call i k ih => exact ⟨h.1, fun r hr => ih r (h.2 r hr)⟩

theorem Along.imp {ok' : List (Σ i, ρ i) → ι → Prop} {x : Prog ι ρ α} {Q : α → List (Σ i, ρ i) → Prop}
    (h : x.Along adm ok Q t) (hok : ∀ t i, ok t i → ok' t i) : x.Along adm ok' Q t := by
  induction x generalizing t with
  | ret a => exact h
  | call i k ih => exact ⟨hok t i h.1, fun r hr => ih r (h.2 r hr)⟩

/-- Two sets of rules at once. -/
theorem Along.and {ok' : List (Σ i, ρ i) → ι → Prop} {x : Prog ι ρ α} {Q Q' : α → List (Σ i, ρ i) → Prop}
    (h : x.Along adm ok Q t) (h' : x.Along adm ok' Q' t) :
    x.Along adm (fun t i => ok t i ∧ ok' t i) (fun a t => Q a t ∧ Q' a t) t := by
  induction x generalizing t with
  | ret a => exact ⟨h, h'⟩
  | call i k ih => exact ⟨⟨h.1, h'.1⟩, fun r hr => ih r (h.2 r hr) (h'.2 r hr)⟩

theorem Along.bind {x : Prog ι ρ α} {f : α → Prog ι ρ β} {Q : β → List (Σ i, ρ i) → Prop}
    (h : x.Along adm ok (fun a t => (f a).Along adm ok Q t) t) : (x >>= f).Along adm ok Q t := by
  induction x generalizing t with
  | ret a => exact h
  | call i k ih => exact ⟨h.1, fun r hr => ih r (h.2 r hr)⟩

/-! The same for programs that may raise. -/

/-- Sequencing: an exception of the first program is the whole's. -/
theorem Along.seq {x : ExceptT ε (Prog ι ρ) α} {f : α → ExceptT ε (Prog ι ρ) β}
    {Q : Except ε β → List (Σ i, ρ i) → Prop}
    (h : Along adm ok x.run
      (fun r t => match r with | .ok a => Along adm ok (f a).run Q t | .error e => Q (.error e) t) t) :
    Along adm ok (x >>= f).run Q t :=
  Along.bind (x := x.run) (h.mono fun r _ hr => by cases r <;> exact hr)

/-- A handler runs on the exceptions of the program it guards. -/
theorem Along.guarded {x : ExceptT ε (Prog ι ρ) α} {f : ε → ExceptT ε (Prog ι ρ) α}
    {Q : Except ε α → List (Σ i, ρ i) → Prop}
    (h : Along adm ok x.run
      (fun r t => match r with | .ok a => Q (.ok a) t | .error e => Along adm ok (f e).run Q t) t) :
    Along adm ok (tryCatch x f).run Q t :=
  Along.bind (x := x.run) (h.mono fun r _ hr => by cases r <;> exact hr)

theorem Along.map {x : ExceptT ε (Prog ι ρ) α} {f : α → β} {Q : Except ε β → List (Σ i, ρ i) → Prop}
    (h : Along adm ok x.run (fun r t => Q (r.map f) t) t) : Along adm ok (f <$> x).run Q t :=
  Along.bind (x := x.run) (h.mono fun r _ hr => by cases r <;> exact hr)

/-- A loop keeps what its body keeps. -/
theorem Along.forM {γ : Type} {f : γ → ExceptT ε (Prog ι ρ) PUnit}
    {Q : Except ε PUnit → List (Σ i, ρ i) → Prop} (I : List (Σ i, ρ i) → Prop) {xs : List γ} (ht : I t)
    (hf : ∀ x ∈ xs, ∀ t, I t →
      Along adm ok (f x).run (fun r t => match r with | .ok _ => I t | .error e => Q (.error e) t) t)
    (hQ : ∀ t, I t → Q (.ok ⟨⟩) t) : Along adm ok (xs.forM f).run Q t := by
  induction xs generalizing t with
  | nil => exact hQ t ht
  | cons x xs ih =>
    refine Along.seq ((hf x (by simp) t ht).mono fun r t hr => ?_)
    cases r with
    | ok => exact ih hr fun y hy => hf y (by simp [hy])
    | error e => exact hr

/-- A program only adds to the calls before it. -/
theorem Along.grow {x : Prog ι ρ α} {Q : α → List (Σ i, ρ i) → Prop} (h : x.Along adm ok Q t) :
    x.Along adm ok (fun a t' => Q a t' ∧ t <:+ t') t := by
  induction x generalizing t with
  | ret a => exact ⟨h, List.suffix_refl t⟩
  | call i k ih =>
    exact ⟨h.1, fun r hr => (ih r (h.2 r hr)).mono fun _ _ hq => ⟨hq.1, (List.suffix_cons _ t).trans hq.2⟩⟩

end Along

/-! ### What a program has done when it does not raise -/

/-- Along every path the calls are allowed, and `R` holds where the program returns. -/
def Ensures (adm : (i : ι) → ρ i → Prop) (ok : List (Σ i, ρ i) → ι → Prop) (x : ExceptT ε (Prog ι ρ) α)
    (R : α → List (Σ i, ρ i) → Prop) (t : List (Σ i, ρ i)) : Prop :=
  Along adm ok x.run (fun r t => ∀ a, r = .ok a → R a t) t

section Ensures

variable {adm : (i : ι) → ρ i → Prop} {ok : List (Σ i, ρ i) → ι → Prop} {t : List (Σ i, ρ i)}
  {x : ExceptT ε (Prog ι ρ) α} {R R' : α → List (Σ i, ρ i) → Prop}

theorem Ensures.mono (h : Ensures adm ok x R t) (hR : ∀ a t', t <:+ t' → R a t' → R' a t') : Ensures adm ok x R' t :=
  (Along.grow h).mono fun _ _ hr a ha => hR a _ hr.2 (hr.1 a ha)

theorem ensures_pure {a : α} (h : R a t) : Ensures adm ok (pure a : ExceptT ε (Prog ι ρ) α) R t := fun _ hb => Except.ok.inj hb ▸ h

theorem ensures_throw {e : ε} : Ensures adm ok (throw e : ExceptT ε (Prog ι ρ) α) R t := fun _ hb => nomatch hb

theorem Ensures.bind {f : α → ExceptT ε (Prog ι ρ) β} {S : β → List (Σ i, ρ i) → Prop} (hx : Ensures adm ok x R t)
    (hf : ∀ a t', t <:+ t' → R a t' → Ensures adm ok (f a) S t') : Ensures adm ok (x >>= f) S t := by
  refine Along.seq ((Along.grow hx).mono fun r t' hr => ?_)
  cases r with
  | ok a => exact hf a t' hr.2 (hr.1 a rfl)
  | error e => exact fun _ hb => nomatch hb

theorem ensures_ite {c : Prop} [Decidable c] {y : ExceptT ε (Prog ι ρ) α} (hx : c → Ensures adm ok x R t)
    (hy : ¬ c → Ensures adm ok y R t) : Ensures adm ok (if c then x else y) R t := by
  split
  · next h => exact hx h
  · next h => exact hy h

/-- What the body of a loop does for its element, the loop does for all, where later calls leave it done. -/
theorem Ensures.forM {γ : Type} {f : γ → ExceptT ε (Prog ι ρ) PUnit} (I : List (Σ i, ρ i) → Prop)
    (R : γ → List (Σ i, ρ i) → Prop) (hR : ∀ x t t', t <:+ t' → R x t → R x t') {xs : List γ} (ht : I t)
    (hf : ∀ x ∈ xs, ∀ t, I t → Ensures adm ok (f x) (fun _ t => I t ∧ R x t) t) :
    Ensures adm ok (xs.forM f) (fun _ t => I t ∧ ∀ x ∈ xs, R x t) t := by
  induction xs generalizing I t with
  | nil => exact ensures_pure ⟨ht, by simp⟩
  | cons x xs ih =>
    refine (hf x (by simp) t ht).bind fun _ t _ ht => ?_
    refine (ih (fun t => I t ∧ R x t) ht fun y hy t ht => ?_).mono fun _ t _ ht => ⟨ht.1.1, ?_⟩
    · exact (hf y (by simp [hy]) t ht.1).mono fun _ t' hs h => ⟨⟨h.1, hR x t t' hs ht.2⟩, h.2⟩
    · intro y hy
      rcases List.mem_cons.1 hy with rfl | hy
      · exact ht.1.2
      · exact ht.2 y hy

end Ensures

/-! ### Which calls a program may make -/

/-- Every call is one of `S`, whatever the answers. -/
def Only (S : ι → Prop) : Prog ι ρ α → Prop
  | .ret _ => True
  | .call i k => S i ∧ ∀ r, (k r).Only S

section Only

variable {S S' : ι → Prop} {x y : ExceptT ε (Prog ι ρ) α}

theorem only_pure (a : α) : Only S (pure a : ExceptT ε (Prog ι ρ) α).run := trivial

theorem only_throw (e : ε) : Only S (throw e : ExceptT ε (Prog ι ρ) α).run := trivial

theorem Only.mono {z : Prog ι ρ α} (h : z.Only S) (hS : ∀ i, S i → S' i) : z.Only S' := by
  induction z with
  | ret a => trivial
  | call i k ih => exact ⟨hS i h.1, fun r => ih r (h.2 r)⟩

theorem Only.andThen {z : Prog ι ρ α} {f : α → Prog ι ρ β} (hz : z.Only S) (hf : ∀ a, (f a).Only S) :
    (z >>= f).Only S := by
  induction z with
  | ret a => exact hf a
  | call i k ih => exact ⟨hz.1, fun r => ih r (hz.2 r)⟩

theorem Only.bind {f : α → ExceptT ε (Prog ι ρ) β} (hx : Only S x.run) (hf : ∀ a, Only S (f a).run) :
    Only S (x >>= f).run :=
  Only.andThen (z := x.run) hx fun r => by
    cases r with
    | ok a => exact hf a
    | error e => trivial

theorem Only.map {f : α → β} (hx : Only S x.run) : Only S (f <$> x).run :=
  Only.andThen (z := x.run) hx fun r => by cases r <;> trivial

theorem Only.guarded {f : ε → ExceptT ε (Prog ι ρ) α} (hx : Only S x.run) (hf : ∀ e, Only S (f e).run) :
    Only S (tryCatch x f).run :=
  Only.andThen (z := x.run) hx fun r => by
    cases r with
    | ok a => trivial
    | error e => exact hf e

theorem only_ite {c : Prop} [Decidable c] (hx : c → Only S x.run) (hy : ¬ c → Only S y.run) :
    Only S (if c then x else y).run := by
  split
  · next h => exact hx h
  · next h => exact hy h

/-- A program of calls that keep `I`, where `I` allows them. -/
theorem Only.keeps {adm : (i : ι) → ρ i → Prop} {ok : List (Σ i, ρ i) → ι → Prop} {t : List (Σ i, ρ i)}
    {I : List (Σ i, ρ i) → Prop} {z : Prog ι ρ α} (h : z.Only S) (ht : I t) (hok : ∀ t i, I t → S i → ok t i)
    (hI : ∀ t i r, I t → S i → I (⟨i, r⟩ :: t)) : z.Along adm ok (fun _ t => I t) t := by
  induction z generalizing t with
  | ret a => exact ht
  | call i k ih => exact ⟨hok t i ht h.1, fun r _ => ih r (h.2 r) (hI t i r ht h.1)⟩

/-- A program of such calls keeps to rules that allow them. -/
theorem Only.along {adm : (i : ι) → ρ i → Prop} {ok : List (Σ i, ρ i) → ι → Prop} {t : List (Σ i, ρ i)}
    {z : Prog ι ρ α} (h : z.Only S) (hok : ∀ t' i, t <:+ t' → S i → ok t' i) :
    z.Along adm ok (fun _ _ => True) t := by
  induction z generalizing t with
  | ret a => trivial
  | call i k ih =>
    refine ⟨hok t i (List.suffix_refl t) h.1, fun r _ => ?_⟩
    exact ih r (h.2 r) fun t' j ht hj => hok t' j ((List.suffix_cons _ t).trans ht) hj

end Only

/-- The calls, the latest first, with which a program comes to `a`. -/
def Returns : Prog ι ρ α → List (Σ i, ρ i) → α → Prop
  | .ret a, s, b => s = [] ∧ a = b
  | .call i k, s, b => ∃ r s', s = s' ++ [⟨i, r⟩] ∧ (k r).Returns s' b

section Returns

variable {ok : List (Σ i, ρ i) → ι → Prop} {s t : List (Σ i, ρ i)} {a : α}

theorem Along.returns {x : Prog ι ρ α} {Q : α → List (Σ i, ρ i) → Prop} (h : x.Along (fun _ _ => True) ok Q t)
    (hs : x.Returns s a) : Q a (s ++ t) := by
  induction x generalizing s t with
  | ret b =>
    obtain ⟨rfl, rfl⟩ := hs
    exact h
  | call i k ih =>
    obtain ⟨r, s', rfl, hs⟩ := hs
    rw [List.append_assoc]
    exact ih r (h.2 r trivial) hs

/-- What a program ensures holds of the calls with which it returns. -/
theorem Ensures.returns {x : ExceptT ε (Prog ι ρ) α} {R : α → List (Σ i, ρ i) → Prop}
    (h : Ensures (fun _ _ => True) ok x R t) (hs : Prog.Returns x.run s (.ok a)) : R a (s ++ t) :=
  Along.returns h hs a rfl

end Returns

/-! ### Programs over other calls -/

section Through

variable {κ : Type} {ρ : κ → Type} {f : ι → κ}

/-- The program with `f i` for each call `i`. -/
def through (f : ι → κ) : Prog ι (fun i => ρ (f i)) α → Prog κ ρ α
  | .ret a => .ret a
  | .call i k => .call (f i) fun r => (k r).through f

/-- A call made through `f`. -/
def sent (f : ι → κ) (c : Σ i, ρ (f i)) : Σ k, ρ k := ⟨f c.1, c.2⟩

theorem Along.through {x : Prog ι (fun i => ρ (f i)) α} {adm : (k : κ) → ρ k → Prop} {ok : List (Σ k, ρ k) → κ → Prop}
    {Q : α → List (Σ k, ρ k) → Prop} {s : List (Σ i, ρ (f i))} {t : List (Σ k, ρ k)}
    (h : x.Along (fun i r => adm (f i) r) (fun s i => ok (s.map (sent f) ++ t) (f i))
      (fun a s => Q a (s.map (sent f) ++ t)) s) : (x.through f).Along adm ok Q (s.map (sent f) ++ t) := by
  induction x generalizing s with
  | ret a => exact h
  | call i k ih => exact ⟨h.1, fun r hr => ih r (h.2 r hr)⟩

end Through

end Prog

/-! ## Pools -/

/-- The calls, and the program a process starts on a request. -/
structure Machine (P ι : Type) (ρ : ι → Type) (ε σ E S : Type) where
  exec : Exec ι ρ σ E
  start : P → S → Prog ι ρ (Except ε Unit)

/-- A run, and what is left of each process's program. -/
structure Pool (P ι : Type) (ρ : ι → Type) (ε σ : Type) where
  run : Run P ι ρ σ
  procs : P → Prog ι ρ (Except ε Unit)

/-- A move: a call of `p`, or the start of `p`'s next program. -/
inductive Move (P E S : Type)
  | call (p : P) (e : E)
  | start (p : P) (r : S)

section Pools

variable {P ι : Type} {ρ : ι → Type} {ε σ E S : Type} [DecidableEq P] {M : Machine P ι ρ ε σ E S}
  {init : σ → Prop} {cond : P → ι → E → Run P ι ρ σ → Prop} {pool : Pool P ι ρ ε σ}

/-- The pool after a move; a move that is not possible changes nothing. -/
def Machine.move (M : Machine P ι ρ ε σ E S) (pool : Pool P ι ρ ε σ) : Move P E S → Pool P ι ρ ε σ
  | .call p e =>
    match pool.procs p with
    | .ret _ => pool
    | .call i k =>
      ⟨pool.run.call M.exec p i e, Function.update pool.procs p (k (M.exec i e pool.run.shared).1)⟩
  | .start p r =>
    match pool.procs p with
    | .ret (.ok ()) => ⟨pool.run, Function.update pool.procs p (M.start p r)⟩
    | _ => pool

/-- One step of a pool whose calls all meet `cond`. A process whose program
raised is never started again. -/
inductive Machine.Step (M : Machine P ι ρ ε σ E S) (cond : P → ι → E → Run P ι ρ σ → Prop) :
    Pool P ι ρ ε σ → Pool P ι ρ ε σ → Prop
  | call {pool p e i k} : pool.procs p = .call i k → cond p i e pool.run →
      Machine.Step M cond pool (M.move pool (.call p e))
  | start {pool p} (r : S) : pool.procs p = .ret (.ok ()) → Machine.Step M cond pool (M.move pool (.start p r))

/-- Nothing called yet, every process idle, the shared state as `init` says. -/
def Pool.Idle (init : σ → Prop) (pool : Pool P ι ρ ε σ) : Prop :=
  (init pool.run.shared ∧ pool.run.trace = []) ∧ ∀ p, pool.procs p = .ret (.ok ())

/-- The pools reached when every call meets `cond`. -/
abbrev Machine.Reach (M : Machine P ι ρ ε σ E S) (init : σ → Prop)
    (cond : P → ι → E → Run P ι ρ σ → Prop) : Pool P ι ρ ε σ → Prop :=
  Interleave.Reach (Pool.Idle init) (M.Step cond)

/-- Every call of a schedule meets `cond`. -/
def Machine.Meets (M : Machine P ι ρ ε σ E S) (cond : P → ι → E → Run P ι ρ σ → Prop) :
    Pool P ι ρ ε σ → List (Move P E S) → Prop
  | _, [] => True
  | pool, m :: ms =>
    (match m with
      | .call p e => match pool.procs p with
        | .ret _ => True
        | .call i _ => cond p i e pool.run
      | .start .. => True) ∧ M.Meets cond (M.move pool m) ms

instance Machine.decidableMeets [∀ p i e r, Decidable (cond p i e r)] (ms : List (Move P E S))
    (pool : Pool P ι ρ ε σ) : Decidable (M.Meets cond pool ms) :=
  match ms with
  | [] => .isTrue trivial
  | .start .. :: ms =>
    have := Machine.decidableMeets ms
    inferInstanceAs (Decidable (True ∧ _))
  | .call p e :: ms =>
    have := Machine.decidableMeets ms
    have : Decidable (match pool.procs p with | .ret _ => True | .call i _ => cond p i e pool.run) :=
      match pool.procs p with
      | .ret _ => .isTrue trivial
      | .call _ _ => inferInstance
    inferInstanceAs (Decidable (_ ∧ _))

/-- The moves of a schedule are steps, or change nothing. -/
theorem Machine.steps_moves {ms : List (Move P E S)} (hm : M.Meets cond pool ms) :
    Relation.ReflTransGen (M.Step cond) pool (ms.foldl M.move pool) := by
  induction ms generalizing pool with
  | nil => exact .refl
  | cons m ms ih =>
    refine .trans ?_ (ih hm.2)
    cases m with
    | call p e =>
      rcases hp : pool.procs p with a | ⟨i, k⟩
      · simpa only [Machine.move, hp] using .refl
      · have hc := hm.1
        simp only [hp] at hc
        exact .single (.call hp hc)
    | start p r =>
      rcases hp : pool.procs p with (e | ⟨⟩) | ⟨i, k⟩
      · simpa only [Machine.move, hp] using .refl
      · exact .single (.start r hp)
      · simpa only [Machine.move, hp] using .refl

/-- A schedule is a run. -/
theorem Machine.reach_moves (h : M.Reach init cond pool) {ms : List (Move P E S)} (hm : M.Meets cond pool ms) :
    M.Reach init cond (ms.foldl M.move pool) :=
  Reach.trans h (Machine.steps_moves hm)

theorem Machine.Meets.mono {cond' : P → ι → E → Run P ι ρ σ → Prop} (hc : ∀ p i e r, cond p i e r → cond' p i e r)
    {ms : List (Move P E S)} (h : M.Meets cond pool ms) : M.Meets cond' pool ms := by
  induction ms generalizing pool with
  | nil => trivial
  | cons m ms ih =>
    refine ⟨?_, ih h.2⟩
    cases m with
    | start => trivial
    | call p e =>
      have hm := h.1
      cases hp : pool.procs p with
      | ret => simp only [hp]
      | call i k => simp only [hp] at hm ⊢; exact hc p i e _ hm

theorem Machine.meets_true {ms : List (Move P E S)} : M.Meets (fun _ _ _ _ => True) pool ms := by
  induction ms generalizing pool with
  | nil => trivial
  | cons m ms ih =>
    refine ⟨?_, ih⟩
    cases m with
    | start => trivial
    | call p => cases hp : pool.procs p <;> simp [hp]

/-- A step is a call on the shared state, or leaves it. -/
theorem Machine.shared_step {pool' : Pool P ι ρ ε σ} (hst : M.Step cond pool pool') :
    (∃ p i k e, pool.procs p = .call i k ∧ pool'.run.shared = (M.exec i e pool.run.shared).2) ∨
      pool'.run.shared = pool.run.shared := by
  cases hst with
  | @call p e i k hp hc =>
    refine .inl ⟨p, i, k, e, hp, ?_⟩
    simp only [Machine.move, hp]
    rfl
  | @start p s hp =>
    refine .inr ?_
    simp only [Machine.move, hp]

/-- What the programs start with, and their calls leave, every process has left. -/
theorem Machine.procs_step {pool' : Pool P ι ρ ε σ} {I : P → Prog ι ρ (Except ε Unit) → Prop}
    (hst : M.Step cond pool pool') (h : ∀ p, I p (pool.procs p)) (hstart : ∀ p s, I p (M.start p s))
    (hcall : ∀ p i k e, I p (.call i k) → I p (k (M.exec i e pool.run.shared).1)) : ∀ p, I p (pool'.procs p) := by
  intro q
  cases hst with
  | @call p e i k hp hc =>
    have hI := h p
    rw [hp] at hI
    simp only [Machine.move, hp]
    by_cases hqp : q = p
    · subst hqp
      rw [Function.update_self]
      exact hcall q i k e hI
    · rw [Function.update_of_ne hqp]
      exact h q
  | @start p s hp =>
    simp only [Machine.move, hp]
    by_cases hqp : q = p
    · subst hqp
      rw [Function.update_self]
      exact hstart q s
    · rw [Function.update_of_ne hqp]
      exact h q

variable {adm : (i : ι) → ρ i → Prop} {ok : P → List (Σ i, ρ i) → ι → Prop}
  {Q : P → Except ε Unit → List (Σ i, ρ i) → Prop}

/-- **From pools to runs.** When every program keeps to its rules, so does every
call of the run a pool makes, and so does what is left of each program. -/
theorem Machine.runs_along
    (hadm : ∀ p i e r, Runs M.exec init (fun p i e r => cond p i e r ∧ ok p (own p r.trace) i) r →
      cond p i e r → ok p (own p r.trace) i → adm i (M.exec i e r.shared).1)
    (hret : ∀ p, Q p (.ok ()) [])
    (hstart : ∀ p s t, Q p (.ok ()) t → (M.start p s).Along adm (ok p) (Q p) t)
    (h : M.Reach init cond pool) :
    Runs M.exec init (fun p i e r => cond p i e r ∧ ok p (own p r.trace) i) pool.run ∧
      ∀ p, (pool.procs p).Along adm (ok p) (Q p) (own p pool.run.trace) := by
  induction h with
  | start hi => exact ⟨.start hi.1, fun p => by rw [hi.2 p, hi.1.2]; exact hret p⟩
  | @next pool _ _ hst ih =>
    obtain ⟨hruns, hal⟩ := ih
    cases hst with
    | @call q e i k hq hc =>
      have hok : ok q (own q pool.run.trace) i := by
        have := hal q
        rw [hq] at this
        exact this.1
      simp only [Machine.move, hq]
      refine ⟨.next hruns (.call q i e ⟨hc, hok⟩), fun p => ?_⟩
      by_cases hpq : p = q
      · subst hpq
        have := hal p
        rw [hq] at this
        simpa using this.2 _ (hadm p i e _ hruns hc hok)
      · simpa [Function.update_of_ne hpq, own_other (Ne.symm hpq)] using hal p
    | @start q r hq =>
      simp only [Machine.move, hq]
      refine ⟨hruns, fun p => ?_⟩
      by_cases hpq : p = q
      · subst hpq
        have hret := hal p
        rw [hq] at hret
        simpa using hstart p r _ hret
      · simpa [Function.update_of_ne hpq] using hal p

end Pools

/-! ## Checks that are acted on later -/

section Checks

variable {P ι : Type} {ρ : ι → Type} {σ E : Type} [DecidableEq P]

/-- The calls since the latest of `p`. -/
def callsSince (p : P) (t : List (Event P ι ρ)) : List (Event P ι ρ) := t.takeWhile fun ev => ev.party ≠ p

theorem callsSince_other {p q : P} (h : q ≠ p) (i : ι) (a : ρ i) (t : List (Event P ι ρ)) :
    callsSince p (⟨q, i, a⟩ :: t) = ⟨q, i, a⟩ :: callsSince p t := by
  simp [callsSince, h]

/-- What the answer `a` to the call `i` says, and the calls after which it need not be so. -/
structure Reading (P ι : Type) (ρ : ι → Type) (σ : Type) where
  holds : (i : ι) → ρ i → Run P ι ρ σ → Prop
  spoils : (i : ι) → ρ i → Event P ι ρ → Prop

/-- What a process was told last is so, unless spoilt since. -/
def Unspoilt (R : Reading P ι ρ σ) (r : Run P ι ρ σ) : Prop :=
  ∀ p i a t, own p r.trace = ⟨i, a⟩ :: t → (∀ ev ∈ callsSince p r.trace, ¬ R.spoils i a ev) → R.holds i a r

section Step

variable {R : Reading P ι ρ σ} {exec : Exec ι ρ σ E} {r : Run P ι ρ σ} {p : P} {i : ι} {e : E}

theorem unspoilt_start (h : r.trace = []) : Unspoilt R r := by
  intro p i a t hown
  rw [h, own_nil] at hown
  cases hown

/-- A call says what it says, and leaves what it does not spoil. -/
theorem Unspoilt.call (h : Unspoilt R r) (hholds : R.holds i (exec i e r.shared).1 (r.call exec p i e))
    (hkeep : ∀ j a, R.holds j a r → ¬ R.spoils j a ⟨p, i, (exec i e r.shared).1⟩ → R.holds j a (r.call exec p i e)) :
    Unspoilt R (r.call exec p i e) := by
  intro q j a t hown hsince
  simp only [Run.call_trace] at hown hsince
  by_cases hq : p = q
  · subst hq
    rw [own_self] at hown
    cases hown
    exact hholds
  · rw [own_other hq] at hown
    rw [callsSince_other hq, List.forall_mem_cons] at hsince
    exact hkeep j a (h q j a t hown hsince.2) hsince.1

end Step

end Checks

end MilpbookLM.Interleave
