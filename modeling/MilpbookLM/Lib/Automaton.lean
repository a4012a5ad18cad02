/-
Programs that keep to an automaton. The state of a process is computed from its own
calls and their answers, and says which calls may come next; `Prog.Obeys` says of a
program that every call it comes to is one of these. `Machine.obeys` lifts this to pools:
what is left is an invariant of runs that relates the states to what is shared.
-/
import MilpbookLM.Lib.Interleave

namespace MilpbookLM.Interleave

/-- States, what a call and its answer make of one, and the calls that may come next. -/
structure Automaton (ι : Type) (ρ : ι → Type) (S : Type) where
  start : S
  step : S → (i : ι) → ρ i → S
  allows : S → ι → Prop

section Automata

variable {P ι S R E σ : Type} {ρ : ι → Type} {α β ε : Type} {adm : (i : ι) → ρ i → Prop}
  {A : Automaton ι ρ S} {st : S}

/-- The state after the calls `t`, the latest first. -/
def Automaton.after (A : Automaton ι ρ S) (t : List (Σ i, ρ i)) : S := t.foldr (fun ev st => A.step st ev.1 ev.2) A.start

@[simp] theorem Automaton.after_nil : A.after [] = A.start := rfl

@[simp] theorem Automaton.after_cons (ev : Σ i, ρ i) (t : List (Σ i, ρ i)) :
    A.after (ev :: t) = A.step (A.after t) ev.1 ev.2 := rfl

namespace Prog

/-- From `st` on, along every path each call is allowed, and `Q` admits the outcome and the last state.
Calls are answered as `adm` says. -/
def Obeys (adm : (i : ι) → ρ i → Prop) (A : Automaton ι ρ S) : Prog ι ρ α → (α → S → Prop) → S → Prop
  | .ret a, Q, st => Q a st
  | .call i k, Q, st => A.allows st i ∧ ∀ r, adm i r → (k r).Obeys adm A Q (A.step st i r)

theorem Obeys.mono {x : Prog ι ρ α} {Q Q' : α → S → Prop} (h : x.Obeys adm A Q st) (hQ : ∀ a st, Q a st → Q' a st) :
    x.Obeys adm A Q' st := by
  induction x generalizing st with
  | ret a => exact hQ a st h
  | call i k ih => exact ⟨h.1, fun r hr => ih r (h.2 r hr)⟩

theorem Obeys.bind {x : Prog ι ρ α} {f : α → Prog ι ρ β} {Q : β → S → Prop}
    (h : x.Obeys adm A (fun a st => (f a).Obeys adm A Q st) st) : (x >>= f).Obeys adm A Q st := by
  induction x generalizing st with
  | ret a => exact h
  | call i k ih => exact ⟨h.1, fun r hr => ih r (h.2 r hr)⟩

/-- Sequencing: an exception of the first program is the whole's. -/
theorem Obeys.seq {x : ExceptT ε (Prog ι ρ) α} {f : α → ExceptT ε (Prog ι ρ) β} {Q : Except ε β → S → Prop}
    (h : Obeys adm A x.run (fun r st => match r with | .ok a => Obeys adm A (f a).run Q st | .error e => Q (.error e) st) st) :
    Obeys adm A (x >>= f).run Q st :=
  Obeys.bind (x := x.run) (h.mono fun r _ hr => by cases r <;> exact hr)

/-- A handler runs on the exceptions of the program it guards. -/
theorem Obeys.guarded {x : ExceptT ε (Prog ι ρ) α} {f : ε → ExceptT ε (Prog ι ρ) α} {Q : Except ε α → S → Prop}
    (h : Obeys adm A x.run (fun r st => match r with | .ok a => Q (.ok a) st | .error e => Obeys adm A (f e).run Q st) st) :
    Obeys adm A (tryCatch x f).run Q st :=
  Obeys.bind (x := x.run) (h.mono fun r _ hr => by cases r <;> exact hr)

theorem Obeys.map {x : ExceptT ε (Prog ι ρ) α} {f : α → β} {Q : Except ε β → S → Prop}
    (h : Obeys adm A x.run (fun r st => Q (r.map f) st) st) : Obeys adm A (f <$> x).run Q st :=
  Obeys.bind (x := x.run) (h.mono fun r _ hr => by cases r <;> exact hr)

/-- A program that obeys makes the calls that are allowed after those before. -/
theorem Obeys.along {x : Prog ι ρ α} {Q : α → S → Prop} {t : List (Σ i, ρ i)} (h : x.Obeys adm A Q (A.after t)) :
    x.Along adm (fun t i => A.allows (A.after t) i) (fun a t => Q a (A.after t)) t := by
  induction x generalizing t with
  | ret a => exact h
  | call i k ih => exact ⟨h.1, fun r hr => ih r (h.2 r hr)⟩

theorem Along.obeys {x : Prog ι ρ α} {Q : α → S → Prop} {t : List (Σ i, ρ i)}
    (h : x.Along adm (fun t i => A.allows (A.after t) i) (fun a t => Q a (A.after t)) t) :
    x.Obeys adm A Q (A.after t) := by
  induction x generalizing t with
  | ret a => exact h
  | call i k ih => exact ⟨h.1, fun r hr => ih r (h.2 r hr)⟩

/-- A program of calls that leave the state alone. -/
theorem Only.obeys {C : ι → Prop} {x : Prog ι ρ α} (h : x.Only C)
    (hC : ∀ i, C i → A.allows st i ∧ ∀ r, adm i r → A.step st i r = st) : x.Obeys adm A (fun _ st' => st' = st) st := by
  induction x with
  | ret a => exact rfl
  | call i k ih =>
    refine ⟨(hC i h.1).1, fun r hr => ?_⟩
    rw [(hC i h.1).2 r hr]
    exact ih r (h.2 r)

end Prog

/-! ## Pools -/

variable [DecidableEq P] {A : P → Automaton ι ρ S} {M : Machine P ι ρ ε σ E R} {init : σ → Prop}
  {cond : P → ι → E → Run P ι ρ σ → Prop} {pool : Pool P ι ρ ε σ} {Q : P → Except ε Unit → S → Prop}

/-- Where `p` stands after a run. -/
def Run.at (A : P → Automaton ι ρ S) (r : Run P ι ρ σ) (p : P) : S := (A p).after (own p r.trace)

@[simp] theorem Run.at_call_self (exec : Exec ι ρ σ E) (r : Run P ι ρ σ) (p : P) (i : ι) (e : E) :
    (r.call exec p i e).at A p = (A p).step (r.at A p) i (exec i e r.shared).1 := by
  simp [Run.at]

theorem Run.at_call_other (exec : Exec ι ρ σ E) (r : Run P ι ρ σ) {p q : P} (h : q ≠ p) (i : ι) (e : E) :
    (r.call exec p i e).at A q = r.at A q := by
  simp [Run.at, own_other (Ne.symm h)]

/-- The runs whose calls meet `cond`, and are allowed. -/
abbrev Obeying (A : P → Automaton ι ρ S) (exec : Exec ι ρ σ E) (init : σ → Prop)
    (cond : P → ι → E → Run P ι ρ σ → Prop) : Run P ι ρ σ → Prop :=
  Runs exec init fun p i e r => cond p i e r ∧ (A p).allows (r.at A p) i

/-- **From pools to runs.** When every program obeys its process's automaton, so does
every call of the run a pool makes, and so does what is left of each program. -/
theorem Machine.obeys (hadm : ∀ i e s, adm i (M.exec i e s).1) (hret : ∀ p, Q p (.ok ()) (A p).start)
    (hstart : ∀ p s st, Q p (.ok ()) st → (M.start p s).Obeys adm (A p) (Q p) st) (h : M.Reach init cond pool) :
    Obeying A M.exec init cond pool.run ∧ ∀ p, (pool.procs p).Obeys adm (A p) (Q p) (pool.run.at A p) := by
  obtain ⟨hruns, halong⟩ := @Machine.runs_along P ι ρ ε σ E R _ M init cond pool adm
    (fun p t i => (A p).allows ((A p).after t) i) (fun p x t => Q p x ((A p).after t)) (fun _ i e r _ _ _ => hadm i e r.shared)
    hret (fun p s t ht => (hstart p s _ ht).along) h
  exact ⟨hruns, fun p => (halong p).obeys⟩

/-- Further steps of a pool are further calls that are allowed. -/
theorem Machine.obeys_steps (hadm : ∀ i e s, adm i (M.exec i e s).1) (hret : ∀ p, Q p (.ok ()) (A p).start)
    (hstart : ∀ p s st, Q p (.ok ()) st → (M.start p s).Obeys adm (A p) (Q p) st) (h : M.Reach init cond pool)
    {pool' : Pool P ι ρ ε σ} (hs : Relation.ReflTransGen (M.Step cond) pool pool') :
    Relation.ReflTransGen (Run.Step M.exec fun p i e r => cond p i e r ∧ (A p).allows (r.at A p) i) pool.run pool'.run := by
  induction hs with
  | refl => exact .refl
  | @tail pool₁ _ hsteps hst ih =>
    refine ih.trans ?_
    obtain ⟨-, hobeys⟩ := Machine.obeys hadm hret hstart (h.trans hsteps)
    cases hst with
    | @call q e i k hq hc =>
      have hallows := hobeys q
      rw [hq] at hallows
      simp only [Machine.move, hq]
      exact .single (.call q i e ⟨hc, hallows.1⟩)
    | @start q s hq =>
      simp only [Machine.move, hq]
      exact .refl

/-! ## Calls and states -/

omit [DecidableEq P] in
/-- A call that was made after `r` was made in a state between. -/
theorem Run.event_between {exec : Exec ι ρ σ E} {r r' : Run P ι ρ σ} (hs : Relation.ReflTransGen (Run.Step exec cond) r r')
    {ev : Event P ι ρ} (hev : ev ∈ r'.trace) : ev ∈ r.trace ∨
      ∃ r₁ e, Relation.ReflTransGen (Run.Step exec cond) r r₁ ∧ Relation.ReflTransGen (Run.Step exec cond) r₁ r' ∧
        ev.answer = (exec ev.call e r₁.shared).1 := by
  induction hs with
  | refl => exact .inl hev
  | @tail r₁ _ hsteps hst ih =>
    have hst' := hst
    obtain ⟨p, i, e, -⟩ := hst
    rcases List.mem_cons.1 hev with rfl | hev
    · exact .inr ⟨r₁, e, hsteps, .single hst', rfl⟩
    · exact (ih hev).imp_right fun ⟨r₂, e', h, h', he⟩ => ⟨r₂, e', h, h'.tail hst', he⟩

/-! ## Since the last call of a kind -/

/-- There is an event of the kind `what` after the last of the kind `mark` that is `p`'s. -/
def since (mark what : Event P ι ρ → Bool) (p : P) : List (Event P ι ρ) → Bool
  | [] => false
  | ev :: t => !(decide (ev.party = p) && mark ev) && (what ev || since mark what p t)

theorem since_cons {mark what : Event P ι ρ → Bool} {p : P} {ev : Event P ι ρ} {t : List (Event P ι ρ)}
    (h : since mark what p (ev :: t) = false) (hmark : ev.party ≠ p ∨ mark ev = false) :
    what ev = false ∧ since mark what p t = false := by
  rcases hmark with hmark | hmark <;> simpa [since, hmark] using h

end Automata

end MilpbookLM.Interleave
