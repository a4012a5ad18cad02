/-
The publication of a grounded answer: what `PgGroundingStore.publish` checks of a draft and the
message it inserts. Notes are read as `_selected_note_contexts` reads them; the text of a
revision's content and the id of the message are given.
-/
import MilpbookLM.Base.Text
import MilpbookLM.Chat.Conversations
import MilpbookLM.Documents.Persistence
import MilpbookLM.Grounding.Assembly
import MilpbookLM.Sources.Catalog

namespace MilpbookLM.Grounding

/-! ## Values -/

/-- An explicitly selected note revision. -/
structure NoteContext where
  id : String
  noteId : Uuid
  revisionId : Uuid
  title : String
  text : String
  deriving DecidableEq

structure FrozenManifest where
  id : Uuid
  sourceVersionIds : List Uuid
  noteContexts : List NoteContext := []

structure AnswerSpan where
  text : Text
  evidenceIds : List String

/-- What a provider completes with. -/
structure AnswerDraft where
  spans : List AnswerSpan
  insufficientEvidence : Bool := false

structure GroundingRequest where
  actorUserId : Uuid
  notebookId : Uuid
  conversationId : Uuid
  selectedNoteRevisionIds : List Uuid := []

/-- An element of a message's citations. -/
inductive Citation
  | source (evidenceId label : String) (sourceVersionId nodeId : Uuid) (locatorKind : String) (charStart charEnd : Nat)
    (url : String)
  | note (evidenceId label : String) (noteId noteRevisionId : Uuid) (url : String)
  deriving DecidableEq

/-! ## Tables -/

structure NoteRow where
  id : Uuid
  notebookId : Uuid
  title : String

structure NoteRevisionRow (Content : Type) where
  id : Uuid
  noteId : Uuid
  content : Content

/-- A message of the assistant. -/
structure MessageRow where
  id : Uuid
  conversationId : Uuid
  content : Text
  manifestId : Uuid
  selectedSourceRefs : List Uuid
  selectedNoteRefs : List Uuid
  retrievalTrace : String
  citations : List Citation
  deriving DecidableEq

structure GroundingDb (Content : Type) where
  canonical : CanonicalDb := {}
  memberships : List NotebookMembership := []
  restrictions : List SourceRestriction := []
  notes : List NoteRow := []
  noteRevisions : List (NoteRevisionRow Content) := []
  conversations : List Chat.Conversation := []
  manifestIds : List Uuid := []
  messages : List MessageRow := []

/-- What `publish` raises. -/
inductive PublishError
  | grounding (message : String)
  | constraint (name : String)
  | noResultFound
  | nulCharacter
  deriving DecidableEq

/-- The last item under an id, as a dictionary of them keeps it. -/
def byId {α : Type} (key : α → String) (items : List α) (id : String) : Option α := items.reverse.find? (key · = id)

/-- The coordinates of an evidence. -/
def Evidence.coordinates (item : Evidence) : MilpbookLM.Evidence where
  sourceId := item.sourceId
  sourceVersionId := item.sourceVersionId
  canonicalNodeId := item.canonicalNodeId
  charStart := item.charStart
  charEnd := item.charEnd

namespace GroundingDb

variable {Content : Type} (noteContentText : Content → String) (db : GroundingDb Content)

/-- `_can_read`. -/
def canRead (actorUserId sourceVersionId notebookId : Uuid) : Bool :=
  db.memberships.any fun m => m.notebookId = notebookId && m.userId = actorUserId &&
    !db.restrictions.any fun r => r.sourceVersionId = sourceVersionId && r.restrictionType = "access_denied" &&
      (r.userId = none || r.userId = some actorUserId)

/-- The revision, and its note, where the note is in the notebook and the actor is a member. -/
def noteRow? (request : GroundingRequest) (revisionId : Uuid) : Option (NoteRevisionRow Content × NoteRow) := do
  let revision ← db.noteRevisions.find? (·.id = revisionId)
  let note ← db.notes.find? (·.id = revision.noteId)
  if note.notebookId = request.notebookId ∧
      db.memberships.any (fun m => m.notebookId = note.notebookId && m.userId = request.actorUserId) then
    some (revision, note)
  else none

/-- The context of a row, the `number`-th that was selected. -/
def noteContext (row : NoteRevisionRow Content × NoteRow) (number : Nat) : NoteContext where
  id := "n" ++ toString number
  noteId := row.2.id
  revisionId := row.1.id
  title := row.2.title
  text := noteContentText row.1.content

/-- `_selected_note_contexts`. -/
def selectedNoteContexts (request : GroundingRequest) : Except PublishError (List NoteContext) :=
  if request.selectedNoteRevisionIds = [] then .ok []
  else if ¬request.selectedNoteRevisionIds.Nodup then .error (.grounding "selected note revisions must be unique")
  else match request.selectedNoteRevisionIds.mapM (db.noteRow? request) with
    | none => .error (.grounding "one or more selected note revisions are unavailable")
    | some rows => .ok ((rows.zipIdx 1).map fun row => noteContext noteContentText row.1 row.2)

/-- `_validate_item`. -/
def validateItem (request : GroundingRequest) (item : Evidence) : Except PublishError Unit :=
  (db.canonical.validateItem (db.canRead request.actorUserId item.sourceVersionId request.notebookId) request.notebookId
    item.coordinates).mapError .grounding

variable (request : GroundingRequest) (manifest : FrozenManifest) (evidence : List Evidence)

/-- What `_validate` does with an evidence id of a span. -/
def validateId (evidenceId : String) : Except PublishError Unit :=
  match byId Evidence.id evidence evidenceId with
  | some item =>
    if item.sourceVersionId ∉ manifest.sourceVersionIds then
      .error (.grounding "evidence is outside the frozen manifest")
    else db.validateItem request item
  | none =>
    if (byId NoteContext.id manifest.noteContexts evidenceId).isSome then .ok ()
    else .error (.grounding "unsupported evidence id")

/-- What it does with a span. -/
def validateSpan (span : AnswerSpan) : Except PublishError Unit :=
  if isBlank span.text ∨ span.evidenceIds = [] then
    .error (.grounding "every factual span needs cited evidence")
  else span.evidenceIds.forM (db.validateId request manifest evidence)

/-- `_validate`. -/
def validate (draft : AnswerDraft) : Except PublishError Unit := do
  let contexts ← db.selectedNoteContexts noteContentText request
  if contexts ≠ manifest.noteContexts then .error (.grounding "note context is no longer authorized")
  else draft.spans.forM (db.validateSpan request manifest evidence)

/-- The citation of an evidence, with the kind of one of its node's locators. -/
def sourceCitation (item : Evidence) : Except PublishError Citation :=
  match db.canonical.locators.find? (·.canonicalNodeId = item.canonicalNodeId) with
  | none => .error .noResultFound
  | some locator => .ok (.source item.id item.label item.sourceVersionId item.canonicalNodeId locator.locatorKind
      item.charStart item.charEnd
      ("/api/v1/source-versions/" ++ item.sourceVersionId.str ++ "/nodes/" ++ item.canonicalNodeId.str))

def noteCitation (note : NoteContext) : Citation :=
  .note note.id note.title note.noteId note.revisionId ("/api/v1/note-revisions/" ++ note.revisionId.str)

/-- The citation of an evidence id. -/
def citation (noteContexts : List NoteContext) (evidenceId : String) : Except PublishError Citation :=
  match byId Evidence.id evidence evidenceId with
  | some item => db.sourceCitation item
  | none =>
    match byId NoteContext.id noteContexts evidenceId with
    | some note => .ok (noteCitation note)
    | none => .error (.constraint "KeyError")

/-- `_citation_payload`. -/
def citationPayload (noteContexts : List NoteContext) (draft : AnswerDraft) : Except PublishError (List Citation) :=
  (draft.spans.flatMap (·.evidenceIds)).mapM (db.citation evidence noteContexts)

/-- The row of a published answer. -/
def messageOf (messageId : Uuid) (draft : AnswerDraft) (retrievalTrace : String) (citations : List Citation) :
    MessageRow where
  id := messageId
  conversationId := request.conversationId
  content := draft.spans.flatMap (·.text)
  manifestId := manifest.id
  selectedSourceRefs := evidence.map (·.sourceVersionId)
  selectedNoteRefs := manifest.noteContexts.map (·.revisionId)
  retrievalTrace
  citations

/-- `INSERT INTO messages`, under its keys; a text column holds no NUL. -/
def insertMessage (message : MessageRow) : Except PublishError (GroundingDb Content) :=
  if Char.ofNat 0 ∈ message.content then .error .nulCharacter
  else if db.messages.any (·.id = message.id) then .error (.constraint "messages_pkey")
  else if !db.conversations.any (·.id = message.conversationId) then
    .error (.constraint "messages_conversation_id_fkey")
  else if message.manifestId ∉ db.manifestIds then .error (.constraint "messages_manifest_id_fkey")
  else .ok { db with messages := db.messages ++ [message] }

/-- The transaction of `publish`. -/
def publishRows (messageId : Uuid) (draft : AnswerDraft) (retrievalTrace : String) :
    Except PublishError (GroundingDb Content) := do
  db.validate noteContentText request manifest evidence draft
  let citations ← db.citationPayload evidence manifest.noteContexts draft
  db.insertMessage (messageOf request manifest evidence messageId draft retrievalTrace citations)

/-- `publish`: an error rolls its transaction back. -/
def publish (messageId : Uuid) (draft : AnswerDraft) (retrievalTrace : String) :
    Except PublishError Uuid × GroundingDb Content :=
  match db.publishRows noteContentText request manifest evidence messageId draft retrievalTrace with
  | .ok db' => (.ok messageId, db')
  | .error e => (.error e, db)

end GroundingDb

end MilpbookLM.Grounding
