/-
Programs that run one after another on a shared state. One at a time makes calls; it
may be abandoned between any two of them, and then another is started. In the
meantime others move the state. `Prog.Safe` says of a program and a state that an
invariant holds wherever its calls lead, and what holds when it ends;
`Serial.invariant` makes of it an invariant of every state reached.

Executions may keep the calls they made beside the state, so that a condition on a call, an
invariant and a result may speak of what was called before (`recorded`). For programs that may raise
there are rules that tell one exception from another (`Safe.seq`, `Safe.guarded`).
-/
import MilpbookLM.Lib.Interleave

namespace MilpbookLM.Interleave

variable {ι : Type} {ρ : ι → Type} {σ E S α β ε : Type}

/-! ## One program -/

namespace Prog

/-- From the state `s`, whatever calls that meet `cond` come to and whatever others do
that `rely` allows: `inv` holds throughout, and `Q` of the outcome. -/
def Safe (exec : Exec ι ρ σ E) (rely : σ → σ → Prop) (cond : ι → E → σ → Prop) (inv : σ → Prop) :
    Prog ι ρ α → (α → σ → Prop) → σ → Prop
  | .ret a, Q, s => inv s ∧ Q a s
  | .call i k, Q, s =>
    inv s ∧ ∀ s' e, rely s s' → cond i e s' → (k (exec i e s').1).Safe exec rely cond inv Q (exec i e s').2

section Safe

variable {exec : Exec ι ρ σ E} {rely : σ → σ → Prop} {cond : ι → E → σ → Prop} {inv : σ → Prop} {s : σ}

theorem Safe.mono {x : Prog ι ρ α} {Q Q' : α → σ → Prop} (h : x.Safe exec rely cond inv Q s)
    (hQ : ∀ a s, inv s → Q a s → Q' a s) : x.Safe exec rely cond inv Q' s := by
  induction x generalizing s with
  | ret a => exact ⟨h.1, hQ a s h.1 h.2⟩
  | call i k ih => exact ⟨h.1, fun s' e hr hc => ih _ (h.2 s' e hr hc)⟩

theorem Safe.holds {x : Prog ι ρ α} {Q : α → σ → Prop} (h : x.Safe exec rely cond inv Q s) : inv s := by
  cases x <;> exact h.1

/-- What others do leaves a program safe. -/
theorem Safe.stable {x : Prog ι ρ α} {Q : α → σ → Prop} (htrans : ∀ s s' s'', rely s s' → rely s' s'' → rely s s'')
    (hinv : ∀ s s', rely s s' → inv s → inv s') (hQ : ∀ a s s', rely s s' → Q a s → Q a s') {s' : σ}
    (hr : rely s s') (h : x.Safe exec rely cond inv Q s) : x.Safe exec rely cond inv Q s' := by
  cases x with
  | ret a => exact ⟨hinv _ _ hr h.1, hQ a _ _ hr h.2⟩
  | call i k => exact ⟨hinv _ _ hr h.1, fun s'' e hr' => h.2 s'' e (htrans _ _ _ hr hr')⟩

theorem Safe.bind {x : Prog ι ρ α} {f : α → Prog ι ρ β} {Q : β → σ → Prop}
    (h : x.Safe exec rely cond inv (fun a s => (f a).Safe exec rely cond inv Q s) s) :
    (x >>= f).Safe exec rely cond inv Q s := by
  induction x generalizing s with
  | ret a => exact h.2
  | call i k ih => exact ⟨h.1, fun s' e hr hc => ih _ (h.2 s' e hr hc)⟩

/-- What every call of `S` keeps holds throughout a program of such calls. -/
theorem Only.safe {C : ι → Prop} {P : σ → Prop} {x : Prog ι ρ α} (h : x.Only C) (hs : P s) (hinv : ∀ s, P s → inv s)
    (hrely : ∀ s s', rely s s' → P s → P s') (hcall : ∀ i e s, C i → P s → P (exec i e s).2) :
    x.Safe exec rely cond inv (fun _ s => P s) s := by
  induction x generalizing s with
  | ret a => exact ⟨hinv s hs, hs⟩
  | call i k ih =>
    exact ⟨hinv s hs, fun s' e hr _ => ih _ (h.2 _) (hcall i e s' h.1 (hrely s s' hr hs))⟩

end Safe

/-! ### Programs that may raise -/

/-- The same, with `R` where the program returns and `F` where it raises. -/
def Leaves (exec : Exec ι ρ σ E) (rely : σ → σ → Prop) (cond : ι → E → σ → Prop) (inv : σ → Prop)
    (x : ExceptT ε (Prog ι ρ) α) (R : α → σ → Prop) (F : σ → Prop) (s : σ) : Prop :=
  x.run.Safe exec rely cond inv (fun r s => match r with | .ok a => R a s | .error _ => F s) s

section Leaves

variable {exec : Exec ι ρ σ E} {rely : σ → σ → Prop} {cond : ι → E → σ → Prop} {inv : σ → Prop} {s : σ}
  {x : ExceptT ε (Prog ι ρ) α} {R R' : α → σ → Prop} {F F' : σ → Prop}

theorem Leaves.mono (h : Leaves exec rely cond inv x R F s) (hR : ∀ a s, inv s → R a s → R' a s)
    (hF : ∀ s, inv s → F s → F' s) : Leaves exec rely cond inv x R' F' s :=
  Safe.mono h fun r s hi hr => by
    cases r with
    | ok a => exact hR a s hi hr
    | error e => exact hF s hi hr

theorem leaves_pure {a : α} (hi : inv s) (h : R a s) :
    Leaves exec rely cond inv (pure a : ExceptT ε (Prog ι ρ) α) R F s := ⟨hi, h⟩

theorem leaves_throw {e : ε} (hi : inv s) (h : F s) :
    Leaves exec rely cond inv (throw e : ExceptT ε (Prog ι ρ) α) R F s := ⟨hi, h⟩

theorem Leaves.bind {f : α → ExceptT ε (Prog ι ρ) β} {T : β → σ → Prop} (hx : Leaves exec rely cond inv x R F s)
    (hf : ∀ a s, inv s → R a s → Leaves exec rely cond inv (f a) T F s) : Leaves exec rely cond inv (x >>= f) T F s := by
  refine Safe.bind (x := x.run) (Safe.mono hx fun r s hi hr => ?_)
  cases r with
  | ok a => exact hf a s hi hr
  | error e => exact ⟨hi, hr⟩

theorem Leaves.map {f : α → β} {T : β → σ → Prop}
    (h : Leaves exec rely cond inv x (fun a s => T (f a) s) F s) : Leaves exec rely cond inv (f <$> x) T F s := by
  refine Safe.bind (x := x.run) (Safe.mono h fun r s hi hr => ?_)
  cases r with
  | ok a => exact ⟨hi, hr⟩
  | error e => exact ⟨hi, hr⟩

theorem Leaves.guarded {f : ε → ExceptT ε (Prog ι ρ) α} (hx : Leaves exec rely cond inv x R F' s)
    (hf : ∀ e s, inv s → F' s → Leaves exec rely cond inv (f e) R F s) :
    Leaves exec rely cond inv (tryCatch x f) R F s := by
  refine Safe.bind (x := x.run) (Safe.mono hx fun r s hi hr => ?_)
  cases r with
  | ok a => exact ⟨hi, hr⟩
  | error e => exact hf e s hi hr

theorem leaves_ite {c : Prop} [Decidable c] {y : ExceptT ε (Prog ι ρ) α} (hx : c → Leaves exec rely cond inv x R F s)
    (hy : ¬ c → Leaves exec rely cond inv y R F s) : Leaves exec rely cond inv (if c then x else y) R F s := by
  split
  · next h => exact hx h
  · next h => exact hy h

theorem Only.leaves {C : ι → Prop} {P : σ → Prop} (h : Only C x.run) (hs : P s) (hinv : ∀ s, P s → inv s)
    (hrely : ∀ s s', rely s s' → P s → P s') (hcall : ∀ i e s, C i → P s → P (exec i e s).2) :
    Leaves exec rely cond inv x (fun _ s => P s) P s :=
  Safe.mono (Only.safe h hs hinv hrely hcall) fun r s _ hr => by cases r <;> exact hr

end Leaves

end Prog

/-! ## A program alone -/

namespace Prog

/-- The outcome of a program that nobody else disturbs, and the run it leaves. -/
def alone (exec : Exec ι ρ σ E) (e : E) : Prog ι ρ α → Run Unit ι ρ σ → α × Run Unit ι ρ σ
  | .ret a, r => (a, r)
  | .call i k, r => (k (exec i e r.shared).1).alone exec e (r.call exec () i e)

/-- By itself, a program started on `s` comes to an outcome and a state that `Q` admits. -/
def Ends (exec : Exec ι ρ σ E) (e : E) : Prog ι ρ α → (α → σ → Prop) → σ → Prop
  | .ret a, Q, s => Q a s
  | .call i k, Q, s => (k (exec i e s).1).Ends exec e Q (exec i e s).2

section Ends

variable {exec : Exec ι ρ σ E} {e : E} {s : σ}

theorem ends_iff {x : Prog ι ρ α} {Q : α → σ → Prop} {r : Run Unit ι ρ σ} :
    x.Ends exec e Q r.shared ↔ Q (x.alone exec e r).1 (x.alone exec e r).2.shared := by
  induction x generalizing r with
  | ret a => rfl
  | call i k ih => exact ih _ (r := r.call exec () i e)

theorem Ends.mono {x : Prog ι ρ α} {Q Q' : α → σ → Prop} (h : x.Ends exec e Q s) (hQ : ∀ a s, Q a s → Q' a s) :
    x.Ends exec e Q' s := by
  induction x generalizing s with
  | ret a => exact hQ a s h
  | call i k ih => exact ih _ h

theorem ends_andThen {x : Prog ι ρ α} {f : α → Prog ι ρ β} {Q : β → σ → Prop} :
    (x >>= f).Ends exec e Q s ↔ x.Ends exec e (fun a s => (f a).Ends exec e Q s) s := by
  induction x generalizing s with
  | ret a => rfl
  | call i k ih => exact ih _

theorem ends_perform {i : ι} {Q : ρ i → σ → Prop} :
    (perform i).Ends exec e Q s ↔ Q (exec i e s).1 (exec i e s).2 := Iff.rfl

theorem ends_bind {x : ExceptT ε (Prog ι ρ) α} {f : α → ExceptT ε (Prog ι ρ) β} {Q : Except ε β → σ → Prop} :
    Ends exec e (x >>= f).run Q s ↔ Ends exec e x.run
      (fun r s => match r with | .ok a => Ends exec e (f a).run Q s | .error y => Q (.error y) s) s := by
  refine (ends_andThen (x := x.run)).trans ⟨fun h => h.mono fun r s hr => ?_, fun h => h.mono fun r s hr => ?_⟩ <;>
    cases r <;> exact hr

theorem ends_map {x : ExceptT ε (Prog ι ρ) α} {f : α → β} {Q : Except ε β → σ → Prop} :
    Ends exec e (f <$> x).run Q s ↔ Ends exec e x.run (fun r s => Q (r.map f) s) s := by
  refine (ends_andThen (x := x.run)).trans ⟨fun h => h.mono fun r s hr => ?_, fun h => h.mono fun r s hr => ?_⟩ <;>
    cases r <;> exact hr

theorem ends_tryCatch {x : ExceptT ε (Prog ι ρ) α} {f : ε → ExceptT ε (Prog ι ρ) α} {Q : Except ε α → σ → Prop} :
    Ends exec e (tryCatch x f).run Q s ↔ Ends exec e x.run
      (fun r s => match r with | .ok a => Q (.ok a) s | .error y => Ends exec e (f y).run Q s) s := by
  refine (ends_andThen (x := x.run)).trans ⟨fun h => h.mono fun r s hr => ?_, fun h => h.mono fun r s hr => ?_⟩ <;>
    cases r <;> exact hr

/-- What is made of a program's outcome leaves its run. -/
theorem alone_bind_pure {x : Prog ι ρ α} {f : α → β} {r : Run Unit ι ρ σ} :
    ((x >>= fun a => .ret (f a)).alone exec e r).2 = (x.alone exec e r).2 := by
  induction x generalizing r with
  | ret a => rfl
  | call i k ih => exact ih _

theorem alone_map {x : ExceptT ε (Prog ι ρ) α} {f : α → β} {r : Run Unit ι ρ σ} :
    (alone exec e (f <$> x).run r).2 = (alone exec e x.run r).2 := by
  refine Eq.trans ?_ (alone_bind_pure (x := x.run) (f := Except.map f))
  refine congrArg (fun z => (alone exec e (x.run >>= z) r).2) (funext fun a => ?_)
  cases a <;> rfl

/-- By itself a program makes the calls it may make. -/
theorem Only.alone {S : ι → Prop} {x : Prog ι ρ α} (h : x.Only S) {r : Run Unit ι ρ σ} {ev : Event Unit ι ρ}
    (hev : ev ∈ (x.alone exec e r).2.trace) : ev ∈ r.trace ∨ S ev.call := by
  induction x generalizing r with
  | ret a => exact .inl hev
  | call i k ih =>
    rcases ih _ (h.2 _) hev with hmem | hs
    · rcases List.mem_cons.1 hmem with rfl | hmem
      · exact .inr h.1
      · exact .inl hmem
    · exact .inr hs

end Ends

end Prog

/-! ## One program after another -/

/-- The shared state, and what is left of the program at work. -/
structure Serial (ι : Type) (ρ : ι → Type) (σ α : Type) where
  shared : σ
  current : Prog ι ρ α

/-- A call of the program at work, or a step of others. -/
inductive Serial.Among (exec : Exec ι ρ σ E) (others : σ → σ → Prop) : Serial ι ρ σ α → Serial ι ρ σ α → Prop
  | call {s i k} (e : E) : s.current = .call i k →
      Serial.Among exec others s ⟨(exec i e s.shared).2, k (exec i e s.shared).1⟩
  | others {s : Serial ι ρ σ α} {w} : others s.shared w → Serial.Among exec others s ⟨w, s.current⟩

/-- A program that is safe stays so among others, as long as it has calls to make. -/
theorem Prog.Safe.among {exec : Exec ι ρ σ E} {rely others : σ → σ → Prop} {inv : σ → Prop} {Q : α → σ → Prop}
    {s s' : Serial ι ρ σ α} (hrefl : ∀ w, rely w w) (htrans : ∀ w w' w'', rely w w' → rely w' w'' → rely w w'')
    (hothers : ∀ w w', others w w' → rely w w') (hinv : ∀ w w', rely w w' → inv w → inv w')
    (h : s.current.Safe exec rely (fun _ _ _ => True) inv Q s.shared)
    (hs : Relation.ReflTransGen (Serial.Among exec others) s s') {i k} (hcur : s'.current = .call i k) :
    s'.current.Safe exec rely (fun _ _ _ => True) inv Q s'.shared := by
  induction hs generalizing i k with
  | refl => exact h
  | tail _ hstep ih =>
    cases hstep with
    | call e hbefore =>
      have hsafe := ih hbefore
      rw [hbefore] at hsafe
      exact hsafe.2 _ e (hrefl _) trivial
    | others ho =>
      have hsafe := ih hcur
      rw [hcur] at hsafe ⊢
      exact ⟨hinv _ _ (hothers _ _ ho) hsafe.1, fun w e hr => hsafe.2 w e (htrans _ _ _ (hothers _ _ ho) hr)⟩

/-- What the program at work comes to with its next call, and the state then. -/
def Serial.last? (exec : Exec ι ρ σ E) (e : E) (s : Serial ι ρ σ α) : Option (α × σ) :=
  match s.current with
  | .ret _ => none
  | .call i k =>
    match k (exec i e s.shared).1 with
    | .ret a => some (a, (exec i e s.shared).2)
    | .call .. => none

/-- **One program among others**: what it is safe to come to, it comes to. -/
theorem Prog.Safe.last {exec : Exec ι ρ σ E} {rely others : σ → σ → Prop} {inv : σ → Prop} {Q : α → σ → Prop}
    {s s' : Serial ι ρ σ α} (hrefl : ∀ w, rely w w) (htrans : ∀ w w' w'', rely w w' → rely w' w'' → rely w w'')
    (hothers : ∀ w w', others w w' → rely w w') (hinv : ∀ w w', rely w w' → inv w → inv w')
    (h : s.current.Safe exec rely (fun _ _ _ => True) inv Q s.shared)
    (hs : Relation.ReflTransGen (Serial.Among exec others) s s') {e : E} {a : α} {w : σ}
    (hlast : s'.last? exec e = some (a, w)) : Q a w := by
  simp only [Serial.last?] at hlast
  split at hlast
  · cases hlast
  next i k hcur =>
  split at hlast
  · next b hret =>
    cases hlast
    have hsafe := Prog.Safe.among hrefl htrans hothers hinv h hs hcur
    rw [hcur] at hsafe
    have hdone := hsafe.2 _ e (hrefl _) trivial
    rw [hret] at hdone
    exact hdone.2
  · cases hlast

/-- A call of the program at work, a step of others, or the start of another program
where this one is left as it is. -/
inductive Serial.Step (exec : Exec ι ρ σ E) (start : S → Prog ι ρ α) (others : σ → σ → Prop)
    (cond : ι → E → σ → Prop) : Serial ι ρ σ α → Serial ι ρ σ α → Prop
  | call {s i k} (e : E) : s.current = .call i k → cond i e s.shared →
      Serial.Step exec start others cond s ⟨(exec i e s.shared).2, k (exec i e s.shared).1⟩
  | others {s : Serial ι ρ σ α} {w} : others s.shared w → Serial.Step exec start others cond s ⟨w, s.current⟩
  | start {s} (r : S) : Serial.Step exec start others cond s ⟨s.shared, start r⟩

/-- A program was started on a state as `init` says. -/
def Serial.Started (init : σ → Prop) (start : S → Prog ι ρ α) (s : Serial ι ρ σ α) : Prop :=
  init s.shared ∧ ∃ r, s.current = start r

/-- The states reached when every call meets `cond`. -/
abbrev Serial.Reach (exec : Exec ι ρ σ E) (start : S → Prog ι ρ α) (others : σ → σ → Prop) (init : σ → Prop)
    (cond : ι → E → σ → Prop) : Serial ι ρ σ α → Prop :=
  Interleave.Reach (Serial.Started init start) (Serial.Step exec start others cond)

section Reach

variable {exec : Exec ι ρ σ E} {start : S → Prog ι ρ α} {others : σ → σ → Prop} {init inv : σ → Prop}
  {cond : ι → E → σ → Prop} {s : Serial ι ρ σ α}

/-- **From programs to runs.** What every program keeps, and others keep, holds in
every state reached. -/
theorem Serial.invariant (rely : σ → σ → Prop) (hrefl : ∀ w, rely w w) (htrans : ∀ w w' w'', rely w w' → rely w' w'' → rely w w'')
    (hothers : ∀ w w', others w w' → rely w w') (hinv : ∀ w w', rely w w' → inv w → inv w')
    (hinit : ∀ w, init w → inv w)
    (hstart : ∀ r w, inv w → (start r).Safe exec rely cond inv (fun _ _ => True) w)
    (h : Serial.Reach exec start others init cond s) : inv s.shared := by
  have hsafe : s.current.Safe exec rely cond inv (fun _ _ => True) s.shared := by
    refine Interleave.Reach.invariant (I := fun s => s.current.Safe exec rely cond inv (fun _ _ => True) s.shared)
      ?_ ?_ h
    · rintro s ⟨hi, r, hr⟩
      rw [hr]
      exact hstart r s.shared (hinit _ hi)
    · rintro s s' - hsafe hstep
      cases hstep with
      | call e hcur hc =>
        rw [hcur] at hsafe
        exact hsafe.2 _ e (hrefl _) hc
      | others ho => exact Prog.Safe.stable htrans hinv (fun _ _ _ _ h => h) (hothers _ _ ho) hsafe
      | start r => exact hstart r _ hsafe.holds
  exact hsafe.holds

/-! ### Schedules -/

/-- A move of a schedule: a call of the program at work, or the start of another. -/
inductive Serial.Move (E S : Type)
  | call (e : E)
  | start (r : S)

/-- The state after a move; a call of a program that ended changes nothing. -/
def Serial.move (exec : Exec ι ρ σ E) (start : S → Prog ι ρ α) (s : Serial ι ρ σ α) : Serial.Move E S → Serial ι ρ σ α
  | .call e =>
    match s.current with
    | .ret _ => s
    | .call i k => ⟨(exec i e s.shared).2, k (exec i e s.shared).1⟩
  | .start r => ⟨s.shared, start r⟩

/-- Every call of a schedule meets `cond`. -/
def Serial.Meets (exec : Exec ι ρ σ E) (start : S → Prog ι ρ α) (cond : ι → E → σ → Prop) :
    Serial ι ρ σ α → List (Serial.Move E S) → Prop
  | _, [] => True
  | s, m :: ms =>
    (match m with
      | .call e => match s.current with
        | .ret _ => True
        | .call i _ => cond i e s.shared
      | .start _ => True) ∧ Serial.Meets exec start cond (s.move exec start m) ms

instance Serial.decidableMeets [∀ i e w, Decidable (cond i e w)] (ms : List (Serial.Move E S)) (s : Serial ι ρ σ α) :
    Decidable (Serial.Meets exec start cond s ms) :=
  match ms with
  | [] => .isTrue trivial
  | .start _ :: ms =>
    have := Serial.decidableMeets ms
    inferInstanceAs (Decidable (True ∧ _))
  | .call e :: ms =>
    have := Serial.decidableMeets ms
    have : Decidable (match s.current with | .ret _ => True | .call i _ => cond i e s.shared) :=
      match s.current with
      | .ret _ => .isTrue trivial
      | .call _ _ => inferInstance
    inferInstanceAs (Decidable (_ ∧ _))

/-- Calls alone are a run among others. -/
theorem Serial.among_calls {start : S → Prog ι ρ α} (es : List E) (s : Serial ι ρ σ α) :
    Relation.ReflTransGen (Serial.Among exec others) s ((es.map Serial.Move.call).foldl (Serial.move exec start) s) := by
  induction es generalizing s with
  | nil => exact .refl
  | cons e es ih =>
    refine .trans ?_ (ih _)
    cases hcur : s.current with
    | ret a => simpa only [Serial.move, hcur] using .refl
    | call i k => simpa only [Serial.move, hcur] using .single (Serial.Among.call e hcur)

theorem Serial.meets_true {ms : List (Serial.Move E S)} : Serial.Meets exec start (fun _ _ _ => True) s ms := by
  induction ms generalizing s with
  | nil => trivial
  | cons m ms ih =>
    refine ⟨?_, ih⟩
    cases m with
    | start => trivial
    | call e => cases s.current <;> trivial

/-- A schedule is a run. -/
theorem Serial.reach_moves (h : Serial.Reach exec start others init cond s) {ms : List (Serial.Move E S)}
    (hm : Serial.Meets exec start cond s ms) :
    Serial.Reach exec start others init cond (ms.foldl (Serial.move exec start) s) := by
  induction ms generalizing s with
  | nil => exact h
  | cons m ms ih =>
    refine ih ?_ hm.2
    cases m with
    | start r => exact .next h (.start r)
    | call e =>
      cases hcur : s.current with
      | ret a => simpa only [Serial.move, hcur] using h
      | call i k =>
        have hc := hm.1
        simp only [hcur] at hc
        simpa only [Serial.move, hcur] using Interleave.Reach.next h (Serial.Step.call e hcur hc)

end Reach

/-! ## The calls beside the state -/

section Recorded

variable {ι : Type} {ρ : ι → Type} {σ E α β ε : Type}

/-- A state, and the calls made with their answers, the latest first. -/
abbrev WithCalls (ι : Type) (ρ : ι → Type) (σ : Type) := σ × List (Σ i, ρ i)

/-- The same calls, recorded. -/
def recorded (exec : Exec ι ρ σ E) : Exec ι ρ (WithCalls ι ρ σ) E :=
  fun i e s => ((exec i e s.1).1, (exec i e s.1).2, ⟨i, (exec i e s.1).1⟩ :: s.2)

/-- What others do to the state; they add nothing to the calls. -/
def Beside (rely : σ → σ → Prop) (s s' : WithCalls ι ρ σ) : Prop := rely s.1 s'.1 ∧ s'.2 = s.2

namespace Prog

/-! ## Programs that may raise -/

section Safe

variable {exec : Exec ι ρ σ E} {rely : σ → σ → Prop} {cond : ι → E → σ → Prop} {inv inv' : σ → Prop} {s : σ}

/-- Two results at once. -/
theorem Safe.and {x : Prog ι ρ α} {Q Q' : α → σ → Prop} (h : x.Safe exec rely cond inv Q s)
    (h' : x.Safe exec rely cond inv' Q' s) :
    x.Safe exec rely cond (fun s => inv s ∧ inv' s) (fun a s => Q a s ∧ Q' a s) s := by
  induction x generalizing s with
  | ret a => exact ⟨⟨h.1, h'.1⟩, h.2, h'.2⟩
  | call i k ih => exact ⟨⟨h.1, h'.1⟩, fun s' e hr hc => ih _ (h.2 s' e hr hc) (h'.2 s' e hr hc)⟩

theorem Safe.weaken {x : Prog ι ρ α} {Q : α → σ → Prop} (h : x.Safe exec rely cond inv Q s)
    (hinv : ∀ s, inv s → inv' s) : x.Safe exec rely cond inv' Q s := by
  induction x generalizing s with
  | ret a => exact ⟨hinv s h.1, h.2⟩
  | call i k ih => exact ⟨hinv s h.1, fun s' e hr hc => ih _ (h.2 s' e hr hc)⟩

/-- Sequencing: an exception of the first program is the whole's. -/
theorem Safe.seq {x : ExceptT ε (Prog ι ρ) α} {f : α → ExceptT ε (Prog ι ρ) β} {Q : Except ε β → σ → Prop}
    (h : x.run.Safe exec rely cond inv
      (fun r s => match r with | .ok a => (f a).run.Safe exec rely cond inv Q s | .error e => Q (.error e) s) s) :
    (x >>= f).run.Safe exec rely cond inv Q s := by
  refine Safe.bind (x := x.run) (Safe.mono h fun r s hi hr => ?_)
  cases r with
  | ok a => exact hr
  | error e => exact ⟨hi, hr⟩

theorem Safe.map {x : ExceptT ε (Prog ι ρ) α} {f : α → β} {Q : Except ε β → σ → Prop}
    (h : x.run.Safe exec rely cond inv (fun r s => Q (r.map f) s) s) : (f <$> x).run.Safe exec rely cond inv Q s := by
  refine Safe.bind (x := x.run) (Safe.mono h fun r s hi hr => ?_)
  cases r with
  | ok a => exact ⟨hi, hr⟩
  | error e => exact ⟨hi, hr⟩

/-- A handler runs on the exceptions of the program it guards. -/
theorem Safe.guarded {x : ExceptT ε (Prog ι ρ) α} {f : ε → ExceptT ε (Prog ι ρ) α} {Q : Except ε α → σ → Prop}
    (h : x.run.Safe exec rely cond inv
      (fun r s => match r with | .ok a => Q (.ok a) s | .error e => (f e).run.Safe exec rely cond inv Q s) s) :
    (tryCatch x f).run.Safe exec rely cond inv Q s := by
  refine Safe.bind (x := x.run) (Safe.mono h fun r s hi hr => ?_)
  cases r with
  | ok a => exact ⟨hi, hr⟩
  | error e => exact hr

theorem safe_ite {c : Prop} [Decidable c] {x y : ExceptT ε (Prog ι ρ) α} {Q : Except ε α → σ → Prop}
    (hx : c → x.run.Safe exec rely cond inv Q s) (hy : ¬ c → y.run.Safe exec rely cond inv Q s) :
    (if c then x else y).run.Safe exec rely cond inv Q s := by
  split
  · next h => exact hx h
  · next h => exact hy h

end Safe

/-- One call. -/
theorem leaves_perform {δ : ι → Type} {exec : Exec ι (fun i => Except ε (δ i)) σ E} {rely : σ → σ → Prop}
    {cond : ι → E → σ → Prop} {inv F : σ → Prop} {s : σ} {i : ι} {R : δ i → σ → Prop} (hi : inv s)
    (h : ∀ s' e, rely s s' → cond i e s' → inv (exec i e s').2 ∧
      (∀ a, (exec i e s').1 = .ok a → R a (exec i e s').2) ∧ ∀ y, (exec i e s').1 = .error y → F (exec i e s').2) :
    Leaves exec rely cond inv (ExceptT.mk (perform i)) R F s := by
  refine ⟨hi, fun s' e hr hc => ?_⟩
  obtain ⟨hinv, hok, herror⟩ := h s' e hr hc
  refine ⟨hinv, ?_⟩
  cases ha : (exec i e s').1 with
  | ok a => exact hok a ha
  | error y => exact herror y ha

end Prog

end Recorded

end MilpbookLM.Interleave
