/-
Private conversations, and the statements that close one: `reset` and `delete` of
`PgConversationStore`, one transaction of READ COMMITTED each call. A reset selects the
open row, updates it by its id alone, and inserts the conversation that succeeds it; a
delete is one conditional UPDATE. All of it is about one conversation, and what the calls
insert is recorded with the transaction that inserted it.
-/
import MilpbookLM.Base.Json
import MilpbookLM.Base.Uuid
import MilpbookLM.Lib.Crowd
import MilpbookLM.Lib.RowLock

namespace MilpbookLM.Chat

open Interleave RowLock

/-- `conversations.status`, as its check constraint lists the values. -/
inductive ConversationStatus
  | «open» | reset | deleted
  deriving DecidableEq

/-- `conversations.visibility`. -/
inductive Visibility
  | «private» | shared
  deriving DecidableEq

/-- A row of `conversations`. -/
structure Conversation where
  id : Uuid
  ownerUserId : Uuid
  notebookId : Option Uuid
  visibility : Visibility := .private
  status : ConversationStatus := .open
  chatConfig : Dict
  instructions : String := ""

/-- `WHERE id = :id AND owner_user_id = :actor AND visibility = 'private' AND status = 'open'`. -/
def Conversation.openFor (actor id : Uuid) (row : Conversation) : Bool :=
  row.id = id && row.ownerUserId = actor && row.visibility = .private && row.status = .open

/-- The conversation; what transactions have inserted and not committed; and what was
committed, latest first: the statuses written, and the conversations inserted. -/
structure ClosingWorld (T : Type) where
  cell : Cell T Conversation
  inserted : List (T × Conversation) := []
  closed : List (T × ConversationStatus) := []
  created : List (T × Conversation) := []

/-- The statements of the transaction `t`, and the read after it. -/
inductive ClosingCall (T : Type)
  | select (t : T) (actor id : Uuid)
  /-- `UPDATE ... SET status = 'reset' WHERE id = :id`. -/
  | close (t : T) (id : Uuid)
  | insert (t : T) (row : Conversation)
  /-- `UPDATE ... SET status = 'deleted'` of the open row. -/
  | delete (t : T) (actor id : Uuid)
  | commit (t : T)
  | load (t : T) (actor id : Uuid)

def ClosingAnswer {T : Type} : ClosingCall T → Type
  | .select .. | .load .. => Option Conversation
  | .delete .. => Nat
  | .close .. | .insert .. | .commit _ => Unit

section Store

variable {T : Type} [DecidableEq T]

/-- The statement. The environment decides nothing. -/
def ClosingCall.exec : Exec (ClosingCall T) ClosingAnswer (ClosingWorld T) Unit
  | .select t actor id, _, w => ((w.cell.visible t).filter (·.openFor actor id), w)
  | .close t id, _, w =>
    match w.cell.visible t with
    | some row =>
      if row.id = id then ((), { w with cell := w.cell.write t { row with status := .reset } }) else ((), w)
    | none => ((), w)
  | .insert t row, _, w => ((), { w with inserted := (t, row) :: w.inserted })
  | .delete t actor id, _, w =>
    match w.cell.visible t with
    | some row =>
      if row.openFor actor id then ((1 : Nat), { w with cell := w.cell.write t { row with status := .deleted } }) else ((0 : Nat), w)
    | none => ((0 : Nat), w)
  | .commit t, _, w =>
    ((),
      { cell := w.cell.commit t
        inserted := w.inserted.filter (·.1 ≠ t)
        closed := match w.cell.pending with
          | some (t', row) => if t' = t then (t, row.status) :: w.closed else w.closed
          | none => w.closed
        created := w.inserted.filter (·.1 = t) ++ w.created })
  | .load _ actor id, _, w => ((w.created.map (·.2)).find? (·.openFor actor id), w)

/-- A statement that writes the row waits for its lock; a conditional UPDATE does not
wait for a row that does not meet its condition. -/
def ClosingCall.Runs : ClosingCall T → ClosingWorld T → Prop
  | .close t _, w => w.cell.Free t
  | .delete t actor id, w => w.cell.Free t ∨ (w.cell.visible t).all (! ·.openFor actor id)
  | _, _ => True

end Store

/-! ## The calls -/

/-- What a call is: a reset, with the id it draws, or a delete. -/
inductive ClosingRequest
  | reset (newId : Uuid)
  | delete

/-- What it returns. -/
inductive ClosingResult
  | state (conversation : Option Conversation)
  | deleted (found : Bool)

section Programs

variable {T : Type}

abbrev ClosingProgram (T α : Type) := Prog (ClosingCall T) ClosingAnswer α

def ClosingCall.perform (c : ClosingCall T) : ClosingProgram T (ClosingAnswer c) := Prog.perform c

/-- The conversation that succeeds one. -/
def Conversation.successor (row : Conversation) (actor newId : Uuid) : Conversation where
  id := newId
  ownerUserId := actor
  notebookId := row.notebookId
  chatConfig := row.chatConfig
  instructions := row.instructions

/-- `PgConversationStore.reset`. -/
def reset (t : T) (actor conversationId newId : Uuid) : ClosingProgram T (Option Conversation) := do
  let row : Option Conversation ← (ClosingCall.select t actor conversationId).perform
  match row with
  | none => return none
  | some row =>
    let _ : Unit ← (ClosingCall.close t conversationId).perform
    let _ : Unit ← (ClosingCall.insert t (row.successor actor newId)).perform
    let _ : Unit ← (ClosingCall.commit t).perform
    (ClosingCall.load t actor newId).perform

/-- `PgConversationStore.delete`. -/
def delete (t : T) (actor conversationId : Uuid) : ClosingProgram T Bool := do
  let rowcount : Nat ← (ClosingCall.delete t actor conversationId).perform
  let _ : Unit ← (ClosingCall.commit t).perform
  return rowcount = 1

/-- The call of the transaction `t`. -/
def ClosingRequest.run (actor conversationId : Uuid) (t : T) : ClosingRequest → ClosingProgram T ClosingResult
  | .reset newId => .state <$> Chat.reset t actor conversationId newId
  | .delete => .deleted <$> Chat.delete t actor conversationId

end Programs

end MilpbookLM.Chat
