/-
Whole-transaction retries (db/concurrency.py, `BoundedRetry`). An attempt's
outcome is what the operation returns or the psycopg 3 error it raises.

`attempts_retried`: whatever attribute the loop reads, it calls the operation up
to the first outcome that this attribute does not call retryable, and no more
than `maxAttempts` times. The loop reads `pgcode`, the attribute of psycopg 2;
errors of psycopg 3 have their SQLSTATE in `sqlstate` and no `pgcode`
(`getattr_pgcode`), so the first outcome is always the last (`call_retried_iff`).
-/
import Mathlib.Algebra.Ring.Nat
import Mathlib.Data.List.Range

namespace MilpbookLM.Db

/-- `_RETRYABLE_SQLSTATE`: serialization_failure, deadlock_detected. -/
def retryableSqlstate : List String := ["40001", "40P01"]

/-- A psycopg 3 error: its SQLSTATE, if the server sent one, and whether its class
is under `psycopg.OperationalError`. The class is looked up by the SQLSTATE, and
both retryable ones have such a class. -/
structure PsycopgError where
  sqlstate : Option String
  operational : Bool
  lookup : ∀ s ∈ sqlstate, s ∈ retryableSqlstate → operational = true

/-- `getattr(exc, name, None)`, for the names under which drivers keep a SQLSTATE. -/
def PsycopgError.getattr (exc : PsycopgError) (name : String) : Option String :=
  if name = "sqlstate" then exc.sqlstate else none

@[simp] theorem PsycopgError.getattr_pgcode (exc : PsycopgError) : exc.getattr "pgcode" = none := by
  simp [getattr]

@[simp] theorem PsycopgError.getattr_sqlstate (exc : PsycopgError) : exc.getattr "sqlstate" = exc.sqlstate := by
  simp [getattr]

inductive Outcome (α : Type) where
  | returned (value : α)
  | raised (exc : PsycopgError)

/-- What a call came to: its outcome (`none` for the assertion after the loop),
how often it called the operation, and the delays it slept. -/
structure Ended (α : Type) where
  outcome : Option (Outcome α)
  calls : Nat
  slept : List Nat

structure BoundedRetry where
  maxAttempts : Nat
  baseDelayMs : Nat

namespace BoundedRetry

variable {α : Type}

/-- The loop of `call` from `attempt` on, with `left` values of its range left and
`attr` the attribute that it reads. -/
def attempts (self : BoundedRetry) (attr : String) (operation : Nat → Outcome α) :
    (left attempt delayMs : Nat) → Ended α
  | 0, _, _ => ⟨none, 0, []⟩
  | left + 1, attempt, delayMs =>
    match operation attempt with
    | .returned value => ⟨some (.returned value), 1, []⟩
    | .raised exc =>
      if exc.operational then
        if (exc.getattr attr).all (· ∉ retryableSqlstate) ∨ attempt = self.maxAttempts then
          ⟨some (.raised exc), 1, []⟩
        else
          let rest := attempts self attr operation left (attempt + 1) (delayMs * 2)
          ⟨rest.outcome, rest.calls + 1, delayMs :: rest.slept⟩
      else ⟨some (.raised exc), 1, []⟩

/-- `BoundedRetry.call`; `operation n` is what the `n`-th attempt does. -/
def call (self : BoundedRetry) (operation : Nat → Outcome α) : Ended α :=
  self.attempts "pgcode" operation self.maxAttempts 1 self.baseDelayMs

end BoundedRetry

/-! ## What retrying is -/

section Retried

variable {α : Type} {retryable : Outcome α → Prop} {operation : Nat → Outcome α} {attempt left : Nat}

/-- Of at most `left` attempts from `attempt` on, all called but the last are
retryable, and the last is not or there is no other left. Its outcome is the call's. -/
def Retried (retryable : Outcome α → Prop) (operation : Nat → Outcome α) (attempt left : Nat)
    (ended : Ended α) : Prop :=
  ∃ n < left, ended.calls = n + 1 ∧ ended.outcome = some (operation (attempt + n)) ∧
    (∀ i < n, retryable (operation (attempt + i))) ∧
    (retryable (operation (attempt + n)) → n + 1 = left)

theorem Retried.stop {slept : List Nat} (h : retryable (operation attempt) → left = 0) :
    Retried retryable operation attempt (left + 1) ⟨some (operation attempt), 1, slept⟩ :=
  ⟨0, by omega, rfl, rfl, by simp, fun hr => by simp [h hr]⟩

theorem Retried.again {rest : Ended α} {slept : List Nat} (h : retryable (operation attempt))
    (hrest : Retried retryable operation (attempt + 1) left rest) :
    Retried retryable operation attempt (left + 1) ⟨rest.outcome, rest.calls + 1, slept⟩ := by
  obtain ⟨n, hn, hcalls, hout, hbefore, hlast⟩ := hrest
  have hshift : ∀ i, attempt + 1 + i = attempt + (i + 1) := fun i => by omega
  simp only [hshift] at hout hbefore hlast
  refine ⟨n + 1, by omega, by simp [hcalls], hout, fun i hi => ?_, fun hr => by simp [hlast hr]⟩
  cases i with
  | zero => exact h
  | succ i => exact hbefore i (by omega)

/-- One call that ends the retries: they were at their bound, or need not go on. -/
theorem Retried.of_one {ended : Ended α} (h : Retried retryable operation attempt left ended)
    (hone : ended.calls = 1) : left = 1 ∨ ¬ retryable (operation attempt) := by
  obtain ⟨n, _, hcalls, _, _, hlast⟩ := h
  obtain rfl : n = 0 := by omega
  by_cases hr : retryable (operation attempt)
  · exact .inl (hlast hr).symm
  · exact .inr hr

end Retried

/-- The attempt raised an error that is retryable by what `attr` says of it. -/
def RetryableBy (attr : String) {α : Type} : Outcome α → Prop
  | .returned _ => False
  | .raised exc => exc.operational = true ∧ ∃ s ∈ exc.getattr attr, s ∈ retryableSqlstate

/-- The attempt raised a serialization failure or a deadlock. -/
def SerializationFailed {α : Type} : Outcome α → Prop
  | .returned _ => False
  | .raised exc => ∃ s ∈ exc.sqlstate, s ∈ retryableSqlstate

/-- that of psycopg 2 tells none. -/
theorem not_retryableBy_pgcode {α : Type} (o : Outcome α) : ¬ RetryableBy "pgcode" o := by
  cases o <;> simp [RetryableBy]

namespace BoundedRetry

variable {α : Type} {self : BoundedRetry} {attr : String} {operation : Nat → Outcome α}

/-! ## The loop -/

/-- What one turn of the loop does: the attempt is the last, or it is retryable and
the rest follows after the delay. -/
theorem attempts_cases (left attempt delayMs : Nat) :
    ((RetryableBy attr (operation attempt) → attempt = self.maxAttempts) ∧
      self.attempts attr operation (left + 1) attempt delayMs = ⟨some (operation attempt), 1, []⟩) ∨
    (RetryableBy attr (operation attempt) ∧ attempt ≠ self.maxAttempts ∧
      let rest := self.attempts attr operation left (attempt + 1) (delayMs * 2)
      self.attempts attr operation (left + 1) attempt delayMs =
        ⟨rest.outcome, rest.calls + 1, delayMs :: rest.slept⟩) := by
  cases ho : operation attempt with
  | returned value => exact .inl ⟨fun hr => hr.elim, by simp [attempts, ho]⟩
  | raised exc =>
    by_cases hr : RetryableBy attr (Outcome.raised (α := α) exc)
    · obtain ⟨hop, s, hs, hmem⟩ := hr
      simp only [Option.mem_def] at hs
      by_cases hmax : attempt = self.maxAttempts
      · exact .inl ⟨fun _ => hmax, by simp only [attempts, ho]; simp [hop, hmax]⟩
      · exact .inr ⟨⟨hop, s, hs, hmem⟩, hmax, by simp [attempts, ho, hop, hs, hmem, hmax]⟩
    · refine .inl ⟨fun h => absurd h hr, ?_⟩
      cases hop : exc.operational with
      | false => simp [attempts, ho, hop]
      | true =>
        cases hs : exc.getattr attr with
        | none => simp [attempts, ho, hop, hs]
        | some s =>
          have hmem : s ∉ retryableSqlstate := fun hmem => hr ⟨hop, s, hs, hmem⟩
          simp [attempts, ho, hop, hs, hmem]

/-- **The loop retries as the attribute it reads says.** -/
theorem attempts_retried (left : Nat) : ∀ attempt delayMs, attempt + left = self.maxAttempts →
    Retried (RetryableBy attr) operation attempt (left + 1)
      (self.attempts attr operation (left + 1) attempt delayMs) := by
  induction left with
  | zero =>
    intro attempt delayMs hmax
    rcases @attempts_cases _ self attr operation 0 attempt delayMs with
      ⟨_, heq⟩ | ⟨_, hmore, _⟩
    · rw [heq]
      exact Retried.stop (fun _ => rfl)
    · omega
  | succ left ih =>
    intro attempt delayMs hmax
    rcases @attempts_cases _ self attr operation (left + 1) attempt delayMs with
      ⟨hlast, heq⟩ | ⟨hr, _, heq⟩
    · rw [heq]
      exact Retried.stop (fun hr => by have := hlast hr; omega)
    · rw [heq]
      exact Retried.again hr (ih _ _ (by omega))

/-! ## `call` -/

/-- No error of psycopg 3 is retried: the first attempt is the only one. -/
theorem call_once (hmax : 0 < self.maxAttempts) :
    (self.call operation).calls = 1 ∧ (self.call operation).outcome = some (operation 1) := by
  obtain ⟨n, hn⟩ := Nat.exists_eq_add_of_lt hmax
  obtain ⟨k, _, hcalls, hout, hbefore, _⟩ := @attempts_retried _ self "pgcode" operation n 1 self.baseDelayMs (by omega)
  have hk : k = 0 := by
    cases k with
    | zero => rfl
    | succ k => exact absurd (hbefore 0 (by omega)) (not_retryableBy_pgcode _)
  subst hk
  have hcall : self.call operation = self.attempts "pgcode" operation (n + 1) 1 self.baseDelayMs := by
    simp [call, hn]
  rw [hcall]
  exact ⟨by simpa using hcalls, by simpa using hout⟩

/-- **Serialization failures are retried where no retry is due**: with one attempt
only, or when the first one did not fail so. -/
theorem call_retried_iff (hmax : 0 < self.maxAttempts) :
    Retried SerializationFailed operation 1 self.maxAttempts (self.call operation) ↔
      self.maxAttempts = 1 ∨ ¬ SerializationFailed (operation 1) := by
  obtain ⟨hcalls, hout⟩ := @call_once _ self operation hmax
  constructor
  · intro h
    exact h.of_one hcalls
  · intro h
    refine ⟨0, hmax, hcalls, hout, by simp, fun hr => ?_⟩
    rcases h with h | h
    · simp [h]
    · exact absurd hr h

/-- A serialization failure. -/
def conflict : PsycopgError := ⟨some "40001", true, fun _ _ _ => rfl⟩

theorem call_retried_after_success :
    Retried SerializationFailed (fun _ => .returned 7) 1 3 (call ⟨3, 25⟩ fun _ => .returned 7) :=
  (@call_retried_iff _ ⟨3, 25⟩ _ (by decide)).2 (.inr (by simp [SerializationFailed]))

/-- The first attempt of three loses a race and the second one would succeed: the
error is raised after one call. -/
theorem conflict_not_retried :
    ¬ Retried SerializationFailed (fun n => if n = 1 then .raised conflict else .returned 7) 1 3
        (call ⟨3, 25⟩ fun n => if n = 1 then .raised conflict else .returned 7) := by
  intro h
  have hone := h.of_one rfl
  simp [SerializationFailed, conflict, retryableSqlstate] at hone

end BoundedRetry

end MilpbookLM.Db
