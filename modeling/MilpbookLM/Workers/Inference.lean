/-
The inference process manager: the coroutines of `load`, `unload` and `serial_session`,
each resumed where it awaits a lock, a notification or the controller. What runs between two
awaits is one step. The controller answers `start` and `stop` when it likes, or raises.
-/
import Mathlib.Logic.Function.Basic
import MilpbookLM.Lib.Interleave

namespace MilpbookLM.Inference

inductive ModelWorkload
  | embedding | reranker | chat | media
  deriving DecidableEq

/-- `HOT_WORKLOADS`. -/
def ModelWorkload.hot : ModelWorkload → Bool
  | .media => false
  | _ => true

/-- The configured models, in their order. -/
structure Profiles (M : Type) where
  ids : List M
  workload : M → ModelWorkload
  complete : ∀ m, m ∈ ids

/-- Where a coroutine is. A load goes on as a `session`, or returns. -/
inductive Pc (M : Type)
  | idle
  /-- To acquire the gate. -/
  | entering (m : M) (session : Bool)
  /-- Has the gate; about to wait. -/
  | parking (m : M) (session : Bool)
  /-- Waits for a notification. -/
  | waiting (m : M) (session : Bool)
  /-- To acquire the gate again. -/
  | notified (m : M) (session : Bool)
  /-- Has the gate; the controller stops `idle`. -/
  | evicting (m : M) (session : Bool) (idle : M) (rest : List M)
  /-- Has the gate; `rest` is still to be looked at. -/
  | scanning (m : M) (session : Bool) (rest : List M)
  /-- To acquire the lock of the model. -/
  | locking (m : M) (session : Bool)
  /-- Has the lock; the controller starts the model. -/
  | starting (m : M) (session : Bool)
  /-- A load that returned. -/
  | loaded (m : M)
  /-- A session, to acquire the serial lock. -/
  | queueing (m : M)
  /-- A session that has the serial lock. -/
  | serving (m : M)
  /-- An unload, to acquire the lock of the model. -/
  | releasing (m : M)
  /-- Has the lock; the controller stops the model. -/
  | stopping (m : M)
  /-- To acquire the gate and notify. -/
  | notifying
  deriving DecidableEq

/-- `InferenceProcessManager`, its coroutines, and the processes that the controller started and has not stopped. -/
structure Manager (C M : Type) where
  pc : C → Pc M
  gate : Option C
  lock : M → Option C
  serial : M → Option C
  references : M → Nat
  alive : M → Bool

/-- A coroutine is called; or it is resumed: what it awaited is there, the controller returned (`ok`) or raised, and
`running` is what the controller answers until the next await. -/
inductive Move (C M : Type)
  | load (c : C) (m : M)
  | session (c : C) (m : M)
  | unload (c : C) (m : M)
  | resume (c : C) (ok : Bool) (running : M → Bool)

variable {C M : Type}

namespace Manager

/-! ## Fields -/

section Coroutines

variable [DecidableEq C] (s : Manager C M) (c c' : C)

def goto (pc : Pc M) : Manager C M := { s with pc := Function.update s.pc c pc }

@[simp] theorem goto_pc (pc : Pc M) : (s.goto c pc).pc c' = if c' = c then pc else s.pc c' := Function.update_apply ..
@[simp] theorem goto_gate (pc : Pc M) : (s.goto c pc).gate = s.gate := rfl
@[simp] theorem goto_lock (pc : Pc M) : (s.goto c pc).lock = s.lock := rfl
@[simp] theorem goto_references (pc : Pc M) : (s.goto c pc).references = s.references := rfl
@[simp] theorem goto_alive (pc : Pc M) : (s.goto c pc).alive = s.alive := rfl

end Coroutines

section Gate

variable (s : Manager C M) (holder : Option C)

def setGate : Manager C M := { s with gate := holder }

@[simp] theorem setGate_pc : (s.setGate holder).pc = s.pc := rfl
@[simp] theorem setGate_gate : (s.setGate holder).gate = holder := rfl
@[simp] theorem setGate_lock : (s.setGate holder).lock = s.lock := rfl
@[simp] theorem setGate_references : (s.setGate holder).references = s.references := rfl
@[simp] theorem setGate_alive : (s.setGate holder).alive = s.alive := rfl

end Gate

section Models

variable [DecidableEq M] (s : Manager C M) (m m' : M) (holder : Option C) (n : Nat) (b : Bool)

def setLock : Manager C M := { s with lock := Function.update s.lock m holder }
def setSerial : Manager C M := { s with serial := Function.update s.serial m holder }
def setReferences : Manager C M := { s with references := Function.update s.references m n }
def setAlive : Manager C M := { s with alive := Function.update s.alive m b }

@[simp] theorem setLock_pc : (s.setLock m holder).pc = s.pc := rfl
@[simp] theorem setLock_gate : (s.setLock m holder).gate = s.gate := rfl
@[simp] theorem setLock_lock : (s.setLock m holder).lock m' = if m' = m then holder else s.lock m' := Function.update_apply ..
@[simp] theorem setLock_references : (s.setLock m holder).references = s.references := rfl
@[simp] theorem setLock_alive : (s.setLock m holder).alive = s.alive := rfl
@[simp] theorem setSerial_pc : (s.setSerial m holder).pc = s.pc := rfl
@[simp] theorem setSerial_gate : (s.setSerial m holder).gate = s.gate := rfl
@[simp] theorem setSerial_lock : (s.setSerial m holder).lock = s.lock := rfl
@[simp] theorem setSerial_references : (s.setSerial m holder).references = s.references := rfl
@[simp] theorem setSerial_alive : (s.setSerial m holder).alive = s.alive := rfl
@[simp] theorem setReferences_pc : (s.setReferences m n).pc = s.pc := rfl
@[simp] theorem setReferences_gate : (s.setReferences m n).gate = s.gate := rfl
@[simp] theorem setReferences_lock : (s.setReferences m n).lock = s.lock := rfl
@[simp] theorem setReferences_references : (s.setReferences m n).references m' = if m' = m then n else s.references m' :=
  Function.update_apply ..
@[simp] theorem setReferences_alive : (s.setReferences m n).alive = s.alive := rfl
@[simp] theorem setAlive_pc : (s.setAlive m b).pc = s.pc := rfl
@[simp] theorem setAlive_gate : (s.setAlive m b).gate = s.gate := rfl
@[simp] theorem setAlive_lock : (s.setAlive m b).lock = s.lock := rfl
@[simp] theorem setAlive_references : (s.setAlive m b).references = s.references := rfl
@[simp] theorem setAlive_alive : (s.setAlive m b).alive m' = if m' = m then b else s.alive m' := Function.update_apply ..

end Models

end Manager

/-! ## Coroutines -/

variable [DecidableEq C] [DecidableEq M]

def Move.party : Move C M → C
  | .load c _ | .session c _ | .unload c _ | .resume c .. => c

namespace Manager

/-- Nothing is loaded. -/
def initial : Manager C M where
  pc _ := .idle
  gate := none
  lock _ := none
  serial _ := none
  references _ := 0
  alive _ := false

variable (P : Profiles M)

/-- `_has_active_conflict`. -/
def hasActiveConflict (s : Manager C M) (requested : M) : Bool :=
  if P.workload requested = .media then P.ids.any fun m => (P.workload m).hot && 0 < s.references m
  else P.ids.any fun m => P.workload m = .media && 0 < s.references m

/-- A load returns to its caller, or goes on as a session. -/
def returned (m : M) (session : Bool) : Pc M := if session then .queueing m else .loaded m

/-- The end of a load under the gate, and the first look at the process. -/
def reserve (s : Manager C M) (c : C) (m : M) (session : Bool) (running : M → Bool) : Manager C M :=
  ((s.setReferences m (s.references m + 1)).setGate none).goto c (if running m then returned m session else .locking m session)

/-- `_evict_idle_hot_models`, of the models that are left. -/
def evictIdleHotModels (s : Manager C M) (c : C) (m : M) (session : Bool) (running : M → Bool) : List M → Manager C M
  | [] => s.reserve c m session running
  | h :: rest =>
    if (P.workload h).hot = true ∧ s.references h = 0 ∧ running h = true then
      (s.setGate (some c)).goto c (.evicting m session h rest)
    else evictIdleHotModels s c m session running rest

/-- A load that has acquired the gate. -/
def enter (s : Manager C M) (c : C) (m : M) (session : Bool) (running : M → Bool) : Manager C M :=
  if s.hasActiveConflict P m then (s.setGate (some c)).goto c (.parking m session)
  else if P.workload m = .media then s.evictIdleHotModels P c m session running P.ids
  else s.reserve c m session running

/-- A load that has acquired the lock. -/
def start (s : Manager C M) (c : C) (m : M) (session : Bool) (running : M → Bool) : Manager C M :=
  if running m then s.goto c (returned m session) else (s.setLock m (some c)).goto c (.starting m session)

/-- An unload that has acquired the lock. -/
def release (s : Manager C M) (c : C) (m : M) : Manager C M :=
  if s.references m = 0 then s.goto c .idle
  else
    let s := s.setReferences m (s.references m - 1)
    if s.references m = 0 ∧ (P.workload m).hot = false then (s.setLock m (some c)).goto c (.stopping m)
    else s.goto c .notifying

/-- `notify_all`. -/
def notifyAll (s : Manager C M) : Manager C M :=
  { s with pc := fun c => match s.pc c with
      | .waiting m session => .notified m session
      | pc => pc }

/-- `c` is resumed; `none` where what it awaits is not there. -/
def resume (s : Manager C M) (c : C) (ok : Bool) (running : M → Bool) : Option (Manager C M) :=
  match s.pc c with
  | .idle | .loaded _ | .waiting .. => none
  | .entering m session | .notified m session => if s.gate = none then some (s.enter P c m session running) else none
  | .parking m session => some ((s.setGate none).goto c (.waiting m session))
  | .evicting m session h rest =>
    if ok then some ((s.setAlive h false).goto c (.scanning m session rest)) else some ((s.setGate none).goto c .idle)
  | .scanning m session rest => some (s.evictIdleHotModels P c m session running rest)
  | .locking m session => if s.lock m = none then some (s.start c m session running) else none
  | .starting m session =>
    if ok then some (((s.setAlive m true).setLock m none).goto c (returned m session))
    else some ((s.setLock m none).goto c .idle)
  | .queueing m => if s.serial m = none then some ((s.setSerial m (some c)).goto c (.serving m)) else none
  | .serving m => some ((s.setSerial m none).goto c (.releasing m))
  | .releasing m => if s.lock m = none then some (s.release P c m) else none
  | .stopping m =>
    if ok then some (((s.setAlive m false).setLock m none).goto c .notifying) else some ((s.setLock m none).goto c .idle)
  | .notifying => if s.gate = none then some (s.notifyAll.goto c .idle) else none

/-- One step; `none` where it cannot be made. -/
def step (s : Manager C M) : Move C M → Option (Manager C M)
  | .load c m => if s.pc c = .idle then some (s.goto c (.entering m false)) else none
  | .session c m => if s.pc c = .idle then some (s.goto c (.entering m true)) else none
  | .unload c m => if s.pc c = .idle ∨ s.pc c = .loaded m then some (s.goto c (.releasing m)) else none
  | .resume c ok running => s.resume P c ok running

end Manager

/-! ## Processes -/

/-- The model whose start the coroutine awaits. -/
def Pc.starts : Pc M → Option M
  | .starting m _ => some m
  | _ => none

/-- The model whose stop the coroutine awaits. -/
def Pc.stops : Pc M → Option M
  | .stopping m => some m
  | .evicting _ _ h _ => some h
  | _ => none

namespace Manager

variable (s : Manager C M) (m : M)

def Starting : Prop := ∃ c, (s.pc c).starts = some m

def Stopping : Prop := ∃ c, (s.pc c).stops = some m

/-- From the call of `start` until `stop` returns. -/
def Running : Prop := s.alive m = true ∨ s.Starting m

/-- What `controller.running` may answer: true of a process from the return of `start` to the call of `stop`, false of
one that is neither there nor starting. -/
def Answers (running : M → Bool) : Prop :=
  ∀ m, (s.alive m = true → ¬ s.Stopping m → running m = true) ∧ (s.alive m = false → ¬ s.Starting m → running m = false)

end Manager

/-- The answers of the controller are such. -/
def Lawful (s : Manager C M) : Move C M → Prop
  | .resume _ _ running => s.Answers running
  | _ => True

/-- The states that are reached in lawful steps that meet `cond`. -/
abbrev Reached (P : Profiles M) (cond : Manager C M → Move C M → Prop) : Manager C M → Prop :=
  Interleave.Reach (fun s => s = .initial) fun s s' => ∃ move, Lawful s move ∧ cond s move ∧ s.step P move = some s'

/-! ## Two coroutines -/

/-- A chat model and a media model. -/
def chatAndMedia : Profiles (Fin 2) where
  ids := [0, 1]
  workload m := if m = 0 then .chat else .media
  complete := by decide

abbrev Pair := Manager (Fin 2) (Fin 2)

instance (s : Pair) (move : Move (Fin 2) (Fin 2)) : Decidable (Lawful s move) := by
  rcases move with ⟨⟩ <;> dsimp only [Lawful, Manager.Answers, Manager.Stopping, Manager.Starting] <;> infer_instance

/-- The state after these moves; `none` where one is not lawful or does not meet `cond`. -/
def play (cond : Pair → Move (Fin 2) (Fin 2) → Prop) [∀ s move, Decidable (cond s move)] (moves : List (Move (Fin 2) (Fin 2))) :
    Option Pair :=
  moves.foldlM (fun s move => if Lawful s move ∧ cond s move then s.step chatAndMedia move else none) .initial

theorem play_reached {cond : Pair → Move (Fin 2) (Fin 2) → Prop} [∀ s move, Decidable (cond s move)]
    {moves : List (Move (Fin 2) (Fin 2))} {s : Pair} (h : play cond moves = some s) : Reached chatAndMedia cond s := by
  have hfold : ∀ (moves : List (Move (Fin 2) (Fin 2))) s₀, Reached chatAndMedia cond s₀ →
      moves.foldlM (fun s move => if Lawful s move ∧ cond s move then s.step chatAndMedia move else none) s₀ = some s →
      Reached chatAndMedia cond s := by
    intro moves
    induction moves with
    | nil =>
      rintro s₀ hs₀ ⟨⟩
      exact hs₀
    | cons move moves ih =>
      intro s₀ hs₀ hrun
      rw [List.foldlM_cons, Option.bind_eq_bind, Option.bind_eq_some_iff] at hrun
      obtain ⟨s₁, hstep, hrun⟩ := hrun
      split at hstep
      · next hok => exact ih s₁ (.next hs₀ ⟨move, hok.1, hok.2, hstep⟩) hrun
      · cases hstep
  exact hfold moves .initial (.start rfl) h

end MilpbookLM.Inference
