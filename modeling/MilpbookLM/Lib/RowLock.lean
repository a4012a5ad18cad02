/-
A row under READ COMMITTED. A statement sees what is committed, and over it what its own
transaction wrote. A write holds the lock of the row until its transaction ends, and a
statement of another transaction that writes the row waits for that (`Cell.Free`).
-/
import Mathlib.Logic.Basic

namespace MilpbookLM.RowLock

/-- A row, if one is committed, and a write that is not committed yet. -/
structure Cell (T V : Type) where
  committed : Option V := none
  pending : Option (T × V) := none

namespace Cell

variable {T V : Type} [DecidableEq T] {c : Cell T V} {t t' : T} {v : V}

/-- What a statement of `t` sees. -/
def visible (t : T) (c : Cell T V) : Option V :=
  match c.pending with
  | some (t', v) => if t' = t then some v else c.committed
  | none => c.committed

/-- No other transaction holds the lock. -/
def Free (t : T) (c : Cell T V) : Prop := ∀ t' v, c.pending = some (t', v) → t' = t

/-- A write, where the lock is free. -/
def write (t : T) (v : V) (c : Cell T V) : Cell T V := { c with pending := some (t, v) }

/-- The end of the transaction `t`. -/
def commit (t : T) (c : Cell T V) : Cell T V :=
  match c.pending with
  | some (t', v) => if t' = t then ⟨some v, none⟩ else c
  | none => c

def rollback (t : T) (c : Cell T V) : Cell T V :=
  match c.pending with
  | some (t', _) => if t' = t then { c with pending := none } else c
  | none => c

omit [DecidableEq T] in
@[simp] theorem write_committed : (c.write t v).committed = c.committed := rfl

omit [DecidableEq T] in
@[simp] theorem write_pending : (c.write t v).pending = some (t, v) := rfl

/-- A transaction that wrote nothing sees what is committed. -/
theorem visible_committed (h : ∀ v, c.pending ≠ some (t, v)) : c.visible t = c.committed := by
  unfold visible
  split
  · next t' v hp =>
    have hne : t' ≠ t := by
      intro he
      exact h v (he ▸ hp)
    simp [hne]
  · rfl

omit [DecidableEq T] in
/-- A transaction that wrote nothing and finds the lock free is alone. -/
theorem pending_none (hfree : c.Free t) (h : ∀ v, c.pending ≠ some (t, v)) : c.pending = none := by
  cases hp : c.pending with
  | none => rfl
  | some w =>
    obtain ⟨t', v⟩ := w
    obtain rfl := hfree t' v hp
    exact absurd hp (h v)

theorem commit_own (h : c.pending = some (t, v)) : c.commit t = ⟨some v, none⟩ := by
  simp [commit, h]

@[simp] theorem rollback_committed : (c.rollback t).committed = c.committed := by
  unfold rollback
  split
  · split <;> rfl
  · rfl

/-- What is left after a rollback is what others wrote. -/
theorem rollback_pending : (c.rollback t).pending = some (t', v) ↔ c.pending = some (t', v) ∧ t' ≠ t := by
  unfold rollback
  split
  · next t'' v' hp =>
    split
    · next he =>
      simp only [hp, Option.some.injEq, Prod.mk.injEq]
      grind
    · next hne =>
      simp only [hp, Option.some.injEq, Prod.mk.injEq]
      grind
  · next hp => simp [hp]

end Cell

end MilpbookLM.RowLock
