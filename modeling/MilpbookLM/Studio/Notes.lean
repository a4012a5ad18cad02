/-
Notes and their revisions: the transactions of `PgNoteStore`, and the use cases that
write (`CreateNote`, `EditNote`, `SaveResponseToNote`, `TransformNotes`). The digest of a
content is given; what a transform provider returns or raises comes with its request.
-/
import MilpbookLM.Studio.Artifacts

namespace MilpbookLM.Studio

open Table Interleave

/-! ## Contents -/

mutual

/-- A value with the keys of every object in order. -/
def sortJson : Json → Json
  | .arr xs => .arr (sortItems xs)
  | .obj kvs => .obj ((sortValues kvs).insertionSort fun a b => a.1 ≤ b.1)
  | x => x

def sortItems : List Json → List Json
  | [] => []
  | x :: xs => sortJson x :: sortItems xs

def sortValues : List (String × Json) → List (String × Json)
  | [] => []
  | (k, v) :: kvs => (k, sortJson v) :: sortValues kvs

end

/-- The same content, whatever the order of its keys. -/
def SameContent (c c' : Dict) : Prop := sortJson (.obj c) = sortJson (.obj c')

/-! ## Rows -/

inductive NoteKind
  | user | savedChatResponse | derivedFromSource
  deriving DecidableEq

structure NoteView where
  noteId : Uuid
  notebookId : Uuid
  kind : NoteKind
  editable : Bool
  title : String
  currentRevisionId : Option Uuid
  createdByUserId : Uuid
  revision : Nat
  etag : String

structure NoteRevisionView where
  revisionId : Uuid
  noteId : Uuid
  revisionNumber : Nat
  content : Dict
  contentSha256 : String
  authorUserId : Uuid
  provenanceRefs : List ContentRef := []
  contentDependencies : List ContentRef := []

structure NoteSnapshot where
  note : NoteView
  revision : NoteRevisionView

/-- A message with the conversation it is in. -/
structure ResponseRow where
  messageId : Uuid
  content : String
  manifestId : Uuid
  role : String
  tombstoned : Bool := false
  ownerUserId : Uuid
  notebookId : Uuid
  visibility : String

structure SavedResponseView where
  messageId : Uuid
  content : String
  manifestId : Uuid

inductive NoteError
  | conflict (noteId : Uuid)
  | notEditable (noteId : Uuid)
  | selection (revisionIds : List Uuid)
  | raised (name text : String)

/-! ## The store -/

structure NoteWorld where
  notes : List NoteView := []
  revisions : List NoteRevisionView := []
  responses : List ResponseRow := []

namespace NoteWorld

variable (w : NoteWorld)

/-- `get_note`. -/
def note? (noteId : Uuid) : Option NoteView := lookup (fun n : NoteView => n.noteId) w.notes noteId

/-- `get_revision`. -/
def revision? (revisionId : Uuid) : Option NoteRevisionView :=
  lookup (fun r : NoteRevisionView => r.revisionId) w.revisions revisionId

/-- `_insert_revision`. -/
def insertRevision (revision : NoteRevisionView) : Except NoteError NoteWorld :=
  if !storableDict revision.content then .error (.raised "DataError" "unsupported Unicode escape sequence")
  else if w.revisions.any (·.revisionId = revision.revisionId) then .error (.raised "IntegrityError" "note_revisions_pkey")
  else if w.revisions.any fun r => r.noteId = revision.noteId && r.revisionNumber = revision.revisionNumber then
    .error (.raised "IntegrityError" "uq_note_revisions_note_number")
  else if revision.revisionNumber = 0 then .error (.raised "IntegrityError" "ck_note_revisions_number")
  else if (w.note? revision.noteId).isNone then .error (.raised "IntegrityError" "note_revisions_note_id_fkey")
  else .ok { w with revisions := w.revisions ++ [revision] }

/-- `create`. -/
def create (snapshot : NoteSnapshot) : Except NoteError (NoteSnapshot × NoteWorld) := do
  if !storableText snapshot.note.title then .error (.raised "DataError" "unsupported Unicode escape sequence")
  else if w.notes.any (·.noteId = snapshot.note.noteId) then .error (.raised "IntegrityError" "notes_pkey")
  else
    let row := { snapshot.note with
      currentRevisionId := some snapshot.revision.revisionId
      revision := 1
      etag := "1" }
    let w' ← { w with notes := w.notes ++ [row] }.insertRevision snapshot.revision
    return (⟨row, snapshot.revision⟩, w')

/-- `append_revision`; the note is locked from the first SELECT on. -/
def appendRevision (noteId : Uuid) (expectedEtag : String) (revision : NoteRevisionView) :
    Except NoteError (Option NoteSnapshot × NoteWorld) :=
  match w.note? noteId with
  | none => return (none, w)
  | some current =>
    if !current.editable then .error (.notEditable noteId)
    else if current.etag ≠ expectedEtag then .error (.conflict noteId)
    else
      match current.currentRevisionId.bind w.revision? with
      | none => .error (.raised "NoResultFound" "No row was found when one was required")
      | some currentRevision =>
        if currentRevision.contentSha256 = revision.contentSha256 then return (some ⟨current, currentRevision⟩, w)
        else do
          let nextNumber := current.revision + 1
          let persisted := { revision with revisionNumber := nextNumber }
          let w' ← w.insertRevision persisted
          let set (n : NoteView) : NoteView :=
            { n with
              currentRevisionId := some persisted.revisionId
              revision := nextNumber
              etag := toString nextNumber }
          let isCurrent (n : NoteView) : Bool := n.noteId = noteId && n.etag = expectedEtag
          return (some ⟨set current, persisted⟩, { w' with notes := update isCurrent set w'.notes })

/-- `revisions_for_notebook`. -/
def revisionsForNotebook (notebookId : Uuid) (revisionIds : List Uuid) : List NoteRevisionView :=
  revisionIds.filterMap fun revisionId =>
    (w.revision? revisionId).filter fun r => (w.note? r.noteId).any (·.notebookId = notebookId)

/-- `saved_response`. -/
def savedResponse (actorId notebookId messageId : Uuid) : Option SavedResponseView :=
  (w.responses.find? fun m => m.messageId = messageId && m.role = "assistant" && !m.tombstoned &&
    m.ownerUserId = actorId && m.notebookId = notebookId && m.visibility = "private").map fun m =>
      ⟨m.messageId, m.content, m.manifestId⟩

end NoteWorld

/-! ## Calls -/

inductive NoteCall
  | create (snapshot : NoteSnapshot)
  | getNote (noteId : Uuid)
  | appendRevision (noteId : Uuid) (expectedEtag : String) (revision : NoteRevisionView)
  | revisionsForNotebook (notebookId : Uuid) (revisionIds : List Uuid)
  | savedResponse (actorId notebookId messageId : Uuid)

def NoteResult : NoteCall → Type
  | .create _ => NoteSnapshot
  | .getNote _ => Option NoteView
  | .appendRevision .. => Option NoteSnapshot
  | .revisionsForNotebook .. => List NoteRevisionView
  | .savedResponse .. => Option SavedResponseView

abbrev NoteAnswer (c : NoteCall) : Type := Except NoteError (NoteResult c)

/-- A transaction that raised leaves everything. -/
def commitOr {α : Type} (w : NoteWorld) : Except NoteError (α × NoteWorld) → Except NoteError α × NoteWorld
  | .ok (a, w') => (.ok a, w')
  | .error e => (.error e, w)

/-- What each call does, and answers. -/
def NoteCall.exec : Exec NoteCall NoteAnswer NoteWorld Unit
  | .create snapshot, _, w => commitOr w (w.create snapshot)
  | .getNote noteId, _, w => (.ok (w.note? noteId), w)
  | .appendRevision noteId expectedEtag revision, _, w => commitOr w (w.appendRevision noteId expectedEtag revision)
  | .revisionsForNotebook notebookId revisionIds, _, w => (.ok (w.revisionsForNotebook notebookId revisionIds), w)
  | .savedResponse actorId notebookId messageId, _, w => (.ok (w.savedResponse actorId notebookId messageId), w)

abbrev NoteProgram (α : Type) := ExceptT NoteError (Prog NoteCall NoteAnswer) α

def NoteCall.perform (c : NoteCall) : NoteProgram (NoteResult c) := ExceptT.mk (Prog.perform c)

/-! ## The use cases -/

structure CreateNoteCommand where
  actorId : Uuid
  notebookId : Uuid
  title : String
  content : Dict

structure EditNoteCommand where
  actorId : Uuid
  noteId : Uuid
  expectedEtag : String
  content : Dict

structure SaveResponseToNoteCommand where
  actorId : Uuid
  notebookId : Uuid
  messageId : Uuid
  title : String

inductive NoteTransformKind
  | combine | critique | summarize | outline | studyGuide | relatedIdeas

structure TransformNotesCommand where
  actorId : Uuid
  notebookId : Uuid
  revisionIds : List Uuid
  kind : NoteTransformKind
  title : String

/-- What `NoteTransformProvider.transform` returns or raises. -/
abbrev NoteTransformProvider := NoteTransformKind → List NoteRevisionView → Except NoteError Dict

/-- `_NewNote`. -/
structure NewNote where
  actorId : Uuid
  notebookId : Uuid
  title : String
  kind : NoteKind
  editable : Bool
  content : Dict
  provenanceRefs : List ContentRef := []
  contentDependencies : List ContentRef := []

section UseCases

variable (contentSha256 : Dict → String)

/-- `_revision`; `revisionId` is its `uuid4()`. -/
def noteRevision (noteId : Uuid) (revisionNumber : Nat) (actorId : Uuid) (content : Dict)
    (provenanceRefs contentDependencies : List ContentRef) (revisionId : Uuid) : NoteRevisionView :=
  { revisionId
    noteId
    revisionNumber
    content
    contentSha256 := contentSha256 content
    authorUserId := actorId
    provenanceRefs
    contentDependencies }

/-- `_new_snapshot`; `noteId` is its `uuid4()`. -/
def newSnapshot (command : NewNote) (noteId revisionId : Uuid) : NoteSnapshot :=
  let revision := noteRevision contentSha256 noteId 1 command.actorId command.content command.provenanceRefs
    command.contentDependencies revisionId
  let note : NoteView :=
    { noteId
      notebookId := command.notebookId
      kind := command.kind
      editable := command.editable
      title := command.title
      currentRevisionId := some revision.revisionId
      createdByUserId := command.actorId
      revision := 1
      etag := "1" }
  ⟨note, revision⟩

/-- `CreateNote`. -/
def createNote (command : CreateNoteCommand) (noteId revisionId : Uuid) : NoteProgram NoteSnapshot :=
  (NoteCall.create (newSnapshot contentSha256
    { actorId := command.actorId
      notebookId := command.notebookId
      title := command.title
      kind := .user
      editable := true
      content := command.content } noteId revisionId)).perform

/-- `EditNote`. -/
def editNote (command : EditNoteCommand) (revisionId : Uuid) : NoteProgram (Option NoteSnapshot) := do
  let note : Option NoteView ← (NoteCall.getNote command.noteId).perform
  match note with
  | none => return none
  | some note =>
    if !note.editable then throw (.notEditable note.noteId)
    (NoteCall.appendRevision note.noteId command.expectedEtag
      (noteRevision contentSha256 note.noteId (note.revision + 1) command.actorId command.content [] [] revisionId)).perform

/-- The content of a note that a response is saved to. -/
def responseContent (text : String) : Dict :=
  [("blocks", .arr [.obj [("type", .str "paragraph"), ("text", .str text)]])]

/-- `SaveResponseToNote`. -/
def saveResponseToNote (command : SaveResponseToNoteCommand) (noteId revisionId : Uuid) :
    NoteProgram (Option NoteSnapshot) := do
  let response : Option SavedResponseView ←
    (NoteCall.savedResponse command.actorId command.notebookId command.messageId).perform
  match response with
  | none => return none
  | some response =>
    let messageRef : ContentRef := ⟨.message, response.messageId⟩
    let snapshot : NoteSnapshot ← (NoteCall.create (newSnapshot contentSha256
      { actorId := command.actorId
        notebookId := command.notebookId
        title := command.title
        kind := .savedChatResponse
        editable := false
        content := responseContent response.content
        provenanceRefs := [messageRef]
        contentDependencies := [messageRef] } noteId revisionId)).perform
    return some snapshot

/-- `TransformNotes`. -/
def transformNotes (provider : NoteTransformProvider) (command : TransformNotesCommand) (noteId revisionId : Uuid) :
    NoteProgram NoteSnapshot := do
  if command.revisionIds = [] ∨ ¬ command.revisionIds.Nodup then throw (.selection command.revisionIds)
  let revisions : List NoteRevisionView ←
    (NoteCall.revisionsForNotebook command.notebookId command.revisionIds).perform
  if revisions.length ≠ command.revisionIds.length then throw (.selection command.revisionIds)
  match provider command.kind revisions with
  | .error e => throw e
  | .ok content =>
    let refs := revisions.map fun r => (⟨.noteRevision, r.revisionId⟩ : ContentRef)
    (NoteCall.create (newSnapshot contentSha256
      { actorId := command.actorId
        notebookId := command.notebookId
        title := command.title
        kind := .user
        editable := true
        content
        provenanceRefs := refs
        contentDependencies := refs } noteId revisionId)).perform

end UseCases

/-- A use case with its arguments, and the ids it draws. -/
inductive NoteUse
  | create (command : CreateNoteCommand) (noteId revisionId : Uuid)
  | edit (command : EditNoteCommand) (revisionId : Uuid)
  | saveResponse (command : SaveResponseToNoteCommand) (noteId revisionId : Uuid)
  | transform (provider : NoteTransformProvider) (command : TransformNotesCommand) (noteId revisionId : Uuid)

def NoteUse.program (contentSha256 : Dict → String) : NoteUse → NoteProgram Unit
  | create command noteId revisionId => discard (createNote contentSha256 command noteId revisionId)
  | edit command revisionId => discard (editNote contentSha256 command revisionId)
  | saveResponse command noteId revisionId => discard (saveResponseToNote contentSha256 command noteId revisionId)
  | transform provider command noteId revisionId =>
    discard (transformNotes contentSha256 provider command noteId revisionId)

end MilpbookLM.Studio
