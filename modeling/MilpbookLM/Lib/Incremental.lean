/-
Readers of an input that comes in chunks. A reader takes one value off the front of its input, or
needs more of it, or refuses it, and what it took or refused no further input changes (`Reader`).
Each chunk is read behind what was left over of those before, and all that is read of the chunks is
what is read of them in one piece (`Reader.stream_eq`).
-/
import Mathlib.Data.List.Basic

namespace MilpbookLM.Incremental

variable {α β : Type}

/-- What a reader makes of the front of an input. -/
inductive Front (α β : Type)
  | value (b : β) (rest : List α)
  | more
  | bad

structure Reader (α β : Type) where
  front : List α → Front α β
  front_nil : front [] = .more
  shorter {s rest b} : front s = .value b rest → rest.length < s.length
  value_append {s rest b} (t : List α) : front s = .value b rest → front (s ++ t) = .value b (rest ++ t)
  bad_append {s} (t : List α) : front s = .bad → front (s ++ t) = .bad

namespace Reader

variable (r : Reader α β)

/-- At most so many values, and what is left over. -/
def readUpTo : Nat → List α → Option (List β × List α)
  | 0, s => some ([], s)
  | n + 1, s =>
    match r.front s with
    | .value b rest => (readUpTo n rest).map fun p => (b :: p.1, p.2)
    | .more => some ([], s)
    | .bad => none

/-- All values up to where more is needed, and what is left over; none where the reader refuses. -/
def read (s : List α) : Option (List β × List α) := r.readUpTo s.length s

/-- An input that ends where a value does. -/
def whole (s : List α) : Option (List β) :=
  match r.read s with
  | some (bs, []) => some bs
  | _ => none

/-- What is read of the chunks, the first behind what is left over. -/
def stream : List α → List (List α) → Option (List β × List α)
  | left, [] => some ([], left)
  | left, chunk :: chunks => do
    let (bs, left) ← r.read (left ++ chunk)
    let (cs, left) ← stream left chunks
    some (bs ++ cs, left)

variable {r} {s : List α}

theorem readUpTo_eq {m n : Nat} (hm : s.length ≤ m) (hn : s.length ≤ n) : r.readUpTo m s = r.readUpTo n s := by
  induction m generalizing n s with
  | zero =>
    obtain rfl := List.eq_nil_of_length_eq_zero (Nat.le_zero.1 hm)
    cases n <;> simp [readUpTo, r.front_nil]
  | succ m ih =>
    cases n with
    | zero =>
      obtain rfl := List.eq_nil_of_length_eq_zero (Nat.le_zero.1 hn)
      simp [readUpTo, r.front_nil]
    | succ n =>
      simp only [readUpTo]
      split
      next hfront =>
        have := r.shorter hfront
        rw [ih (n := n) (by omega) (by omega)]
      next => rfl
      next => rfl

/-- One value, and then the others. -/
theorem read_eq (s : List α) : r.read s =
    match r.front s with
    | .value b rest => (r.read rest).map fun p => (b :: p.1, p.2)
    | .more => some ([], s)
    | .bad => none := by
  cases s with
  | nil => simp [read, readUpTo, r.front_nil]
  | cons a s =>
    simp only [read, List.length_cons, readUpTo]
    cases hfront : r.front (a :: s) with
    | value b rest =>
      have hlength : rest.length ≤ s.length := Nat.le_of_lt_succ (r.shorter hfront)
      simp only [readUpTo_eq hlength (Nat.le_refl _)]
    | more => rfl
    | bad => rfl

/-- What is left over needs more. -/
theorem read_left {bs : List β} {left : List α} (h : r.read s = some (bs, left)) : r.read left = some ([], left) := by
  induction hlength : s.length using Nat.strongRecOn generalizing s bs with
  | _ n ih =>
    rw [read_eq] at h
    cases hfront : r.front s with
    | value b rest =>
      simp only [hfront, Option.map_eq_some_iff] at h
      obtain ⟨p, hp, heq⟩ := h
      cases heq
      exact ih rest.length (hlength ▸ r.shorter hfront) hp rfl
    | more =>
      simp only [hfront, Option.some.injEq, Prod.mk.injEq] at h
      obtain ⟨rfl, rfl⟩ := h
      rw [read_eq, hfront]
    | bad => simp [hfront] at h

/-- **More input is read behind what was left over.** -/
theorem read_append (s t : List α) :
    r.read (s ++ t) = (r.read s).bind fun p => (r.read (p.2 ++ t)).map fun q => (p.1 ++ q.1, q.2) := by
  induction hlength : s.length using Nat.strongRecOn generalizing s with
  | _ n ih =>
    cases hfront : r.front s with
    | value b rest =>
      rw [read_eq (s ++ t), read_eq s, r.value_append t hfront, hfront]
      simp only [ih rest.length (hlength ▸ r.shorter hfront) rest rfl]
      cases r.read rest <;> simp
      rfl
    | more =>
      rw [read_eq s, hfront]
      simp
    | bad =>
      rw [read_eq (s ++ t), read_eq s, r.bad_append t hfront, hfront]
      rfl

/-- **What is read of chunks is what is read of them in one piece.** -/
theorem stream_eq {left : List α} (h : r.read left = some ([], left)) (chunks : List (List α)) :
    r.stream left chunks = r.read (left ++ chunks.flatten) := by
  induction chunks generalizing left with
  | nil => simp [stream, h]
  | cons chunk chunks ih =>
    rw [stream, List.flatten_cons, ← List.append_assoc, read_append (left ++ chunk)]
    cases hread : r.read (left ++ chunk) with
    | none => rfl
    | some p =>
      simp only [Option.bind_eq_bind, Option.bind_some, ih (read_left hread)]
      cases r.read (p.2 ++ chunks.flatten) <;> rfl

theorem stream_nil (chunks : List (List α)) : r.stream [] chunks = r.read chunks.flatten := by
  rw [stream_eq (by rw [read_eq, r.front_nil]), List.nil_append]

/-- A function takes the input apart as the reader does. -/
def Follows (r : Reader α β) (f : List α → Option (List β)) (s : List α) : Prop :=
  f s =
    match r.front s with
    | .value b rest => (f rest).map (b :: ·)
    | .more => if s = [] then some [] else none
    | .bad => none

/-- **A function that follows the reader** reads the input in one piece. -/
theorem eq_whole {f : List α → Option (List β)} (h : ∀ s, r.Follows f s) (s : List α) : f s = r.whole s := by
  induction hlength : s.length using Nat.strongRecOn generalizing s with
  | _ n ih =>
    rw [h, whole, read_eq]
    cases hfront : r.front s with
    | value b rest =>
      simp only [ih rest.length (hlength ▸ r.shorter hfront) rest rfl, whole]
      cases r.read rest with
      | none => rfl
      | some p => obtain ⟨bs, _ | _⟩ := p <;> rfl
    | more => cases s <;> rfl
    | bad => rfl

end Reader

end MilpbookLM.Incremental
