/-
A user's study state of one artifact version: the statements of `upsert_user_state`, one
transaction of READ COMMITTED each call. The expected revision is compared with the row
that the SELECT found, and the UPDATE adds one to the row it finds then; a first INSERT
compares nothing.
-/
import MilpbookLM.Lib.Automaton
import MilpbookLM.Lib.RowLock
import MilpbookLM.Studio.Artifacts

namespace MilpbookLM.Studio

open Interleave RowLock

/-! ## Rows and statements -/

/-- The row of one user and one artifact version. -/
structure StudyRow where
  stateId : Uuid
  state : Dict
  revision : Nat

/-- What a writer sends. -/
structure StudyRequest where
  state : Dict
  expectedRevision : Option Nat := none

/-- What `upsert_user_state` raises, or the database does. -/
inductive StudyError
  | stateConflict (message : String)
  | raised (name text : String)

/-- A write that was committed, and the row that it replaced. -/
structure StudyChange (T : Type) where
  writer : T
  replaced : Option StudyRow
  row : StudyRow

/-- The row; and, latest first, the writes that were committed, which no statement reads. -/
structure StudyWorld (T : Type) where
  cell : Cell T StudyRow := {}
  accepted : List (StudyChange T) := []

/-- The statements of the transaction `t`. -/
inductive StudyCall (T : Type)
  | select (t : T)
  /-- The id of the row is its `uuid4()`. -/
  | insert (t : T) (state : Dict)
  | update (t : T) (stateId : Uuid) (state : Dict)
  | load (t : T) (stateId : Uuid)
  | commit (t : T)
  | rollback (t : T)

def StudyCall.transaction {T : Type} : StudyCall T → T
  | select t | insert t _ | update t _ _ | load t _ | commit t | rollback t => t

def StudyResult {T : Type} : StudyCall T → Type
  | .select _ | .load .. => Option StudyRow
  | .insert .. => Uuid
  | .update .. | .commit _ | .rollback _ => Unit

abbrev StudyAnswer {T : Type} (c : StudyCall T) : Type := Except StudyError (StudyResult c)

/-- A fresh id, and whether the connection is lost at the statement. -/
structure StudyEnv where
  newId : Uuid := 0
  lost : Bool := false

section Store

variable {T : Type} [DecidableEq T]

/-- The statement, on a connection that is not lost. -/
def StudyCall.run : (c : StudyCall T) → Uuid → StudyWorld T → StudyAnswer c × StudyWorld T
  | .select t, _, w => (.ok (w.cell.visible t), w)
  | .insert t state, newId, w =>
    if !storableDict state then (.error (.raised "DataError" "unsupported Unicode escape sequence"), w)
    else
      match w.cell.visible t with
      | some _ => (.error (.raised "IntegrityError" "uq_user_artifact_state_user_version"), w)
      | none => (.ok newId, { w with cell := w.cell.write t ⟨newId, state, 0⟩ })
  | .update t stateId state, _, w =>
    if !storableDict state then (.error (.raised "DataError" "unsupported Unicode escape sequence"), w)
    else
      match w.cell.visible t with
      | some row =>
        if row.stateId = stateId then
          (.ok (), { w with cell := w.cell.write t { row with state, revision := row.revision + 1 } })
        else (.ok (), w)
      | none => (.ok (), w)
  | .load t stateId, _, w => (.ok ((w.cell.visible t).filter (·.stateId = stateId)), w)
  | .commit t, _, w =>
    (.ok (),
      { cell := w.cell.commit t
        accepted := match w.cell.pending with
          | some (t', row) => if t' = t then ⟨t, w.cell.committed, row⟩ :: w.accepted else w.accepted
          | none => w.accepted })
  | .rollback t, _, w => (.ok (), { w with cell := w.cell.rollback t })

/-- The statement; a connection that is lost takes its transaction with it. -/
def StudyCall.exec : Exec (StudyCall T) StudyAnswer (StudyWorld T) StudyEnv
  | c, env, w =>
    if env.lost then (.error (.raised "OperationalError" "connection lost"), { w with cell := w.cell.rollback c.transaction })
    else c.run env.newId w

end Store

/-! ## The program -/

section Program

variable {T α : Type}

abbrev StudyProgram (T α : Type) := ExceptT StudyError (Prog (StudyCall T) StudyAnswer) α

def StudyCall.perform (c : StudyCall T) : StudyProgram T (StudyResult c) := ExceptT.mk (Prog.perform c)

/-- `engine.begin()`. -/
def transaction (t : T) (body : StudyProgram T α) : StudyProgram T α := do
  let result ← tryCatch body fun e => do
    (StudyCall.rollback t).perform
    throw e
  (StudyCall.commit t).perform
  return result

/-- The row that was written. -/
def loadState (t : T) (stateId : Uuid) : StudyProgram T StudyRow := do
  let loaded : Option StudyRow ← (StudyCall.load t stateId).perform
  match loaded with
  | none => throw (.raised "NoResultFound" "No row was found when one was required")
  | some loaded => return loaded

/-- `upsert_user_state`. -/
def upsertUserState (t : T) (request : StudyRequest) : StudyProgram T StudyRow :=
  transaction t do
    let row : Option StudyRow ← (StudyCall.select t).perform
    match row with
    | none =>
      let stateId : Uuid ← (StudyCall.insert t request.state).perform
      loadState t stateId
    | some row =>
      if request.expectedRevision.any (row.revision ≠ ·) then throw (.stateConflict "study state revision conflict")
      (StudyCall.update t row.stateId request.state).perform
      loadState t row.stateId

end Program

/-! ## The order of the statements -/

/-- How far a call came. -/
inductive StudyPhase
  | idle
  | missing
  | found (row : StudyRow)
  | written
  | accepted
  | rejected

/-- What a statement and its answer make of it. -/
def StudyPhase.next {T : Type} (c : StudyCall T) (answer : StudyAnswer c) : StudyPhase :=
  match c, answer with
  | .select _, .ok none => missing
  | .select _, .ok (some row) => found row
  | .insert .., .ok _ | .update .., .ok _ | .load .., .ok _ => written
  | .commit _, .ok _ => accepted
  | .rollback _, .ok _ | _, .error _ => rejected

/-- The statements that the transaction `t` of a request may come to. -/
def StudyRequest.Allows {T : Type} (request : StudyRequest) (t : T) (st : StudyPhase) : StudyCall T → Prop
  | .select t' => t' = t ∧ (st = .idle ∨ st = .accepted)
  | .insert t' state => t' = t ∧ st = .missing ∧ state = request.state
  | .update t' stateId state => t' = t ∧ state = request.state ∧ ∃ row, st = .found row ∧ stateId = row.stateId ∧
      ∀ n, request.expectedRevision = some n → row.revision = n
  | .load t' _ | .commit t' => t' = t ∧ st = .written
  | .rollback t' => t' = t ∧ (st = .rejected ∨ st = .written ∨ ∃ row, st = .found row)

def StudyRequest.automaton {T : Type} (request : StudyRequest) (t : T) : Automaton (StudyCall T) StudyAnswer StudyPhase where
  start := .idle
  step _ := StudyPhase.next
  allows := request.Allows t

/-- Where a call may end. -/
def StudyPhase.Ended {α : Type} (x : Except StudyError α) (st : StudyPhase) : Prop :=
  match x with
  | .ok _ => st = .idle ∨ st = .accepted
  | .error _ => st = .rejected

section Obeys

variable {T α β : Type} {request : StudyRequest} {t : T} {st : StudyPhase}

abbrev StudyProgram.Obeys (x : StudyProgram T α) (request : StudyRequest) (t : T)
    (Q : Except StudyError α → StudyPhase → Prop) (st : StudyPhase) : Prop :=
  Prog.Obeys (fun _ _ => True) (request.automaton t) x.run Q st

/-- A statement that may come, and what comes after its answers. -/
theorem obeys_statement {c : StudyCall T} {f : StudyResult c → StudyProgram T β} {Q : Except StudyError β → StudyPhase → Prop}
    (hc : request.Allows t st c) (hok : ∀ b, (f b).Obeys request t Q (.next c (.ok b)))
    (herr : ∀ e, Q (.error e) (.next c (.error e))) : StudyProgram.Obeys (c.perform >>= f) request t Q st := by
  refine Prog.Obeys.seq ⟨hc, fun r _ => ?_⟩
  cases r with
  | ok b => exact hok b
  | error e => exact herr e

/-- What a transaction raises in, it may roll back in. -/
def StudyPhase.Body {α : Type} (x : Except StudyError α) (st : StudyPhase) : Prop :=
  match x with
  | .ok _ => st = .written
  | .error _ => st = .rejected ∨ st = .written ∨ ∃ row, st = .found row

theorem loadState_obeys {stateId : Uuid} : (loadState t stateId).Obeys request t StudyPhase.Body .written := by
  refine obeys_statement ⟨rfl, rfl⟩ (fun (loaded : Option StudyRow) => ?_) fun e => .inl rfl
  cases loaded with
  | none => exact .inr (.inl rfl)
  | some loaded => exact rfl

theorem transaction_obeys {body : StudyProgram T α} (h : body.Obeys request t StudyPhase.Body st) :
    (transaction t body).Obeys request t StudyPhase.Ended st := by
  refine Prog.Obeys.seq (Prog.Obeys.guarded (h.mono fun x st hx => ?_))
  cases x with
  | ok a =>
    obtain rfl : st = .written := hx
    exact obeys_statement ⟨rfl, rfl⟩ (fun _ => .inr rfl) fun e => rfl
  | error e => exact obeys_statement ⟨rfl, hx⟩ (fun _ => rfl) fun e' => rfl

/-- **A call comes to its statements in order.** -/
theorem upsertUserState_obeys (hst : st = .idle ∨ st = .accepted) :
    (upsertUserState t request).Obeys request t StudyPhase.Ended st := by
  refine transaction_obeys (obeys_statement ⟨rfl, hst⟩ (fun (row : Option StudyRow) => ?_) fun e => .inl rfl)
  cases row with
  | none => exact obeys_statement ⟨rfl, rfl, rfl⟩ (fun _ => loadState_obeys) fun e => .inl rfl
  | some row =>
    show StudyProgram.Obeys (if _ then _ else _) _ _ _ (.found row)
    split
    · exact .inr (.inr ⟨row, rfl⟩)
    · next hrevision =>
      refine obeys_statement ⟨rfl, rfl, row, rfl, rfl, fun n hn => ?_⟩ (fun _ => loadState_obeys) fun e => .inl rfl
      simpa [hn] using hrevision

end Obeys

end MilpbookLM.Studio
