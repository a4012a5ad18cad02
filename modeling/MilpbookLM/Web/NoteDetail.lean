/-
The view of one note, beside the server that keeps its revisions. The view has two queries
that are fetched apart, and a draft that is opened anew where the signature of the current
content changes. What it saves carries the ETag of the one query, and a document that comes
from the other.
-/
import MilpbookLM.Base.Text
import MilpbookLM.Base.Uuid
import MilpbookLM.Web.Signatures

namespace MilpbookLM.Web

/-! ## The server -/

/-- A revision, with the content as it is read back. -/
structure NoteRevision where
  revisionId : Uuid
  content : Fields
  contentSha256 : String

/-- What is read of the note itself. -/
structure NoteView where
  currentRevisionId : Uuid
  etag : String

/-- The revisions in the order of their publication; the last is the current one, and its number is the ETag. -/
structure NoteServer where
  revisions : List NoteRevision
  editable : Bool

/-- What the server takes from its libraries. -/
structure NotePlatform where
  digest : Fields → String
  /-- A content as it comes back from a `jsonb` column. -/
  stored : Fields → Fields

namespace NoteServer

def view (server : NoteServer) : Option NoteView :=
  server.revisions.getLast?.map fun revision => ⟨revision.revisionId, toString server.revisions.length⟩

/-- `append_revision`; none where it raises. -/
def appendRevision (platform : NotePlatform) (server : NoteServer) (expectedEtag : String) (revisionId : Uuid)
    (content : Fields) : Option NoteServer :=
  match server.revisions.getLast? with
  | none => none
  | some current =>
    if !server.editable then none
    else if toString server.revisions.length ≠ expectedEtag then none
    else if current.contentSha256 = platform.digest content then some server
    else some { server with
      revisions := server.revisions ++ [⟨revisionId, platform.stored content, platform.digest content⟩] }

end NoteServer

/-! ## The view -/

/-- The draft; the content it was opened on and what was done to it since are read by nothing. -/
structure Draft where
  baseline : JsString
  document : EditorDocument
  opened : Fields
  ops : List EditorOp

/-- A save on its way, with what the view held when it was sent. -/
structure Save where
  number : Nat
  etag : String
  content : Fields
  note : NoteView
  revisions : List NoteRevision
  draft : Draft

/-- `NoteDetail`: the data of its queries, and its state. -/
structure NoteDetail where
  note : Option NoteView
  revisions : List NoteRevision
  draft : Draft
  isEditing : Bool
  /-- The save that is pending. -/
  pending : Option Nat

/-- The content that stands in where no revision is the current one. -/
def noContent : Fields := [(js "blocks", .array [])]

/-- `currentContent`. -/
def currentContent (note : Option NoteView) (revisions : List NoteRevision) : Fields :=
  match note with
  | none => noContent
  | some note => ((revisions.find? (·.revisionId = note.currentRevisionId)).map (·.content)).getD noContent

/-- `currentContentKey`. -/
def contentKey (content : Fields) : JsString := editorDocumentSignature (editorDocumentFromContent content)

def openDraft (content : Fields) : Draft where
  baseline := contentKey content
  document := editorDocumentFromContent content
  opened := content
  ops := []

def Draft.type (draft : Draft) (op : EditorOp) : Draft :=
  { draft with document := draft.document.edit [op], ops := draft.ops ++ [op] }

namespace NoteDetail

def current (detail : NoteDetail) : Fields := currentContent detail.note detail.revisions

/-- A render: the draft is reset where the content has another signature. -/
def render (detail : NoteDetail) : NoteDetail :=
  if detail.draft.baseline ≠ contentKey detail.current then { detail with draft := openDraft detail.current }
  else detail

def hasDraftChanges (detail : NoteDetail) : Bool :=
  editorDocumentSignature detail.draft.document ≠ contentKey detail.current

end NoteDetail

/-! ## Both of them -/

/-- The server, the view, and what is on its way between them. -/
structure Session where
  server : NoteServer
  detail : NoteDetail
  noteAnswers : List NoteView
  revisionAnswers : List (List NoteRevision)
  requests : List Save
  accepted : List Save
  sent : Nat

/-- An answer is what the server holds when it gives it; it arrives or is lost at any time, and in any order. -/
inductive Event
  | otherEdit (etag : String) (revisionId : Uuid) (content : Fields)
  | answerNote
  | noteArrives (index : Nat)
  | noteFails (index : Nat)
  | answerRevisions
  | revisionsArrive (index : Nat)
  | revisionsFail (index : Nat)
  | startEditing
  | type (op : EditorOp)
  | submit
  | accept (index : Nat) (revisionId : Uuid)
  | refuse (index : Nat)
  | saveSucceeds
  | saveFails
  | cancel
  | mount

namespace Session

variable (platform : NotePlatform)

def start (revisionId : Uuid) (content : Fields) (editable : Bool) : Session where
  server := ⟨[⟨revisionId, platform.stored content, platform.digest content⟩], editable⟩
  detail := ⟨none, [], openDraft noContent, false, none⟩
  noteAnswers := []
  revisionAnswers := []
  requests := []
  accepted := []
  sent := 0

/-- The id of a new revision. -/
def isFresh (s : Session) (revisionId : Uuid) : Bool := s.server.revisions.all (·.revisionId ≠ revisionId)

/-- What an event makes of a session; none where it cannot happen. -/
def perform (s : Session) : Event → Option Session
  | .otherEdit etag revisionId content => do
    guard (s.isFresh revisionId)
    let server ← s.server.appendRevision platform etag revisionId content
    return { s with server }
  | .answerNote => do
    let view ← s.server.view
    return { s with noteAnswers := s.noteAnswers ++ [view] }
  | .noteArrives index => do
    let view ← s.noteAnswers[index]?
    return { s with
      noteAnswers := s.noteAnswers.eraseIdx index
      detail := { s.detail with note := some view }.render }
  | .noteFails index => some { s with noteAnswers := s.noteAnswers.eraseIdx index }
  | .answerRevisions => some { s with revisionAnswers := s.revisionAnswers ++ [s.server.revisions] }
  | .revisionsArrive index => do
    let revisions ← s.revisionAnswers[index]?
    return { s with
      revisionAnswers := s.revisionAnswers.eraseIdx index
      detail := { s.detail with revisions }.render }
  | .revisionsFail index => some { s with revisionAnswers := s.revisionAnswers.eraseIdx index }
  | .startEditing => some { s with detail := { s.detail with isEditing := true } }
  | .type op => do
    guard (s.detail.isEditing && s.detail.pending.isNone)
    return { s with detail := { s.detail with draft := s.detail.draft.type op } }
  | .submit => do
    guard (s.detail.isEditing && s.detail.pending.isNone && s.detail.hasDraftChanges)
    let note ← s.detail.note
    let save : Save := {
      number := s.sent
      etag := note.etag
      content := serializeEditorDocument s.detail.draft.document
      note
      revisions := s.detail.revisions
      draft := s.detail.draft }
    return { s with
      detail := { s.detail with pending := some s.sent }
      requests := s.requests ++ [save]
      sent := s.sent + 1 }
  | .accept index revisionId => do
    guard (s.isFresh revisionId)
    let save ← s.requests[index]?
    let server ← s.server.appendRevision platform save.etag revisionId save.content
    return { s with server, requests := s.requests.eraseIdx index, accepted := s.accepted ++ [save] }
  | .refuse index => some { s with requests := s.requests.eraseIdx index }
  | .saveSucceeds => do
    let number ← s.detail.pending
    guard (s.accepted.any (·.number = number))
    return { s with detail := { s.detail with pending := none, isEditing := false } }
  | .saveFails => some { s with detail := { s.detail with pending := none } }
  | .cancel => do
    guard (s.detail.isEditing && s.detail.pending.isNone)
    return { s with detail := { s.detail with draft := openDraft s.detail.current, isEditing := false } }
  | .mount => some { s with detail := { s.detail with draft := openDraft s.detail.current, pending := none } }

/-- What a run of events makes of a session. -/
def run (s : Session) : List Event → Option Session
  | [] => some s
  | event :: events => do
    let s' ← s.perform platform event
    run s' events

end Session

end MilpbookLM.Web
