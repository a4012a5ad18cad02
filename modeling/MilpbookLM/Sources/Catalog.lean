/-
The rows of sources, source versions and canonical documents that carry what may
be read of a source, and the transactions on them: acquisition, refresh, selection
and removal (`PgSourceCatalog`), the parse outcomes (`PgCanonicalRepository`), the
activation (`SourceActivationStore`), the mark of a purge (`PgSourcePurge.mark`).
A transaction that raises changes nothing.
-/
import MilpbookLM.Documents.Persistence
import MilpbookLM.Indexing.Generations

namespace MilpbookLM

open Table

/-! ## Rows -/

inductive SourceType
  | pdf | docx | pptx | xlsx | epub | webUrl | youtube | plainText | markdown | csv | image | audio | video | connector
  deriving DecidableEq

inductive Availability
  | active | stale | inaccessibleRevoked | deletedTombstoned
  deriving DecidableEq

def Availability.value : Availability → String
  | active => "active"
  | stale => "stale"
  | inaccessibleRevoked => "inaccessible_revoked"
  | deletedTombstoned => "deleted_tombstoned"

inductive VersionStatus
  | activating | parsing | parsed | encrypted | parseFailed | active | inactive | tombstoned
  deriving DecidableEq

def VersionStatus.value : VersionStatus → String
  | activating => "activating"
  | parsing => "parsing"
  | parsed => "parsed"
  | encrypted => "encrypted"
  | parseFailed => "parse_failed"
  | active => "active"
  | inactive => "inactive"
  | tombstoned => "tombstoned"

structure Source where
  id : Uuid
  notebookId : Uuid
  type : SourceType
  origin : String
  displayTitle : String
  availability : Availability := .active
  currentVersionId : Option Uuid := none
  deriving DecidableEq

structure CatalogVersion extends SourceVersion where
  versionNumber : Nat
  status : VersionStatus
  parseErrorCode : Option String := none
  deriving DecidableEq

structure NotebookMembership where
  notebookId : Uuid
  userId : Uuid
  deriving DecidableEq

structure SourceRestriction where
  sourceVersionId : Uuid
  userId : Option Uuid
  restrictionType : String
  deriving DecidableEq

/-- The tables; a locator belongs to a node that is there. -/
structure Catalog where
  sources : List Source := []
  versions : List CatalogVersion := []
  documents : List PersistedDocument := []
  nodes : List PersistedNode := []
  locators : List PersistedLocator := []
  located : ∀ l ∈ locators, ∃ n ∈ nodes, n.id = l.canonicalNodeId := by first | exact located_nil | simp
  index : IndexWorld := {}
  blobReferences : List BlobReference := []
  memberships : List NotebookMembership := []
  restrictions : List SourceRestriction := []
  purgeTasks : List Uuid := []

inductive CatalogError
  | sourceNotFound
  | unsupportedContentType (contentType : Option String)
  | noResultFound
  | constraint (name : String)
  | persist (e : PersistError)
  | index (e : IndexError)
  deriving DecidableEq

structure AcquireSourceCommand where
  notebookId : Uuid
  actorId : Uuid
  displayTitle : String
  originKind : String
  requestedUrl : Option String := none
  refreshSourceId : Option Uuid := none

/-- `_SOURCE_TYPES`. -/
def sourceTypes : List (String × SourceType) :=
  [("application/pdf", .pdf), ("text/plain", .plainText), ("text/markdown", .markdown), ("text/csv", .csv),
    ("application/vnd.openxmlformats-officedocument.spreadsheetml.sheet", .xlsx),
    ("application/vnd.openxmlformats-officedocument.wordprocessingml.document", .docx),
    ("application/vnd.openxmlformats-officedocument.presentationml.presentation", .pptx),
    ("application/epub+zip", .epub), ("text/html", .webUrl), ("image/png", .image), ("image/jpeg", .image),
    ("image/gif", .image), ("image/webp", .image), ("image/bmp", .image), ("audio/x-wav", .audio),
    ("audio/mpeg", .audio), ("video/mp4", .video), ("video/webm", .video)]

def importerVersion : String := "ing-01a-v1"

namespace AcquireSourceCommand

/-- `_origin`. -/
def origin (command : AcquireSourceCommand) (blob : BlobObject) : String :=
  match command.requestedUrl with
  | some url => "web_url:" ++ url
  | none => command.originKind ++ ":" ++ importerVersion ++ ":sha256:" ++ blob.contentSha256

end AcquireSourceCommand

/-- `_source_type`. -/
def BlobObject.sourceType (blob : BlobObject) : Option SourceType := sourceTypes.lookup (blob.contentType.getD "")

namespace Catalog

variable (w : Catalog)

/-! ## Lookups -/

def isMember (notebookId actorId : Uuid) : Bool :=
  w.memberships.any fun m => m.notebookId = notebookId && m.userId = actorId

/-- The source under the id, for an actor of its notebook. -/
def visible (sourceId actorId : Uuid) (s : Source) : Bool := s.id = sourceId && w.isMember s.notebookId actorId

def versionsOf (sourceId : Uuid) : List CatalogVersion := w.versions.filter (·.sourceId = sourceId)

/-- `ORDER BY version_number DESC LIMIT 1`. -/
def latestVersion (sourceId : Uuid) : Option CatalogVersion :=
  ((w.versionsOf sourceId).mergeSort fun a b => b.versionNumber ≤ a.versionNumber).head?

/-- The tables as the repository of canonical documents has them. -/
def canonical : CanonicalDb where
  sources := w.sources.map fun s => ⟨s.id, s.notebookId, s.availability.value⟩
  sourceVersions := w.versions.map fun v => ⟨v.id, v.sourceId, v.status.value, v.parseErrorCode⟩
  documents := w.documents
  nodes := w.nodes
  locators := w.locators
  located := w.located

/-! ## Acquisition -/

def insertSource (source : Source) : Except CatalogError Catalog :=
  if w.sources.any (·.id = source.id) then .error (.constraint "sources_pkey")
  else .ok { w with sources := w.sources ++ [source] }

def insertVersion (version : CatalogVersion) : Except CatalogError Catalog :=
  if w.versions.any (·.id = version.id) then .error (.constraint "source_versions_pkey")
  else if w.versions.any fun v => v.sourceId = version.sourceId && v.versionNumber = version.versionNumber then
    .error (.constraint "uq_source_versions_source_number")
  else .ok { w with versions := w.versions ++ [version] }

/-- `ON CONFLICT DO NOTHING`. -/
def insertReference (ref : BlobReference) : Catalog :=
  if ref ∈ w.blobReferences then w else { w with blobReferences := w.blobReferences ++ [ref] }

/-- The notebook has a source of this origin. -/
def holdsOrigin (notebookId : Uuid) (origin : String) : Bool :=
  w.sources.any fun s => s.notebookId = notebookId && s.origin = origin

/-- A version whose bytes are in the blob. -/
def activating (versionId sourceId : Uuid) (versionNumber : Nat) (blob : BlobObject) : CatalogVersion where
  id := versionId
  sourceId := sourceId
  originalBlobId := some blob.id
  contentSha256 := blob.contentSha256
  contentSizeBytes := some blob.sizeBytes
  versionNumber := versionNumber
  status := .activating

/-- `_acquire_refresh`; `versionId` is its `uuid4()`. -/
def acquireRefresh (command : AcquireSourceCommand) (sourceId : Uuid) (blob : BlobObject) (versionId : Uuid) :
    Except CatalogError Catalog :=
  let refreshable (s : Source) := w.visible sourceId command.actorId s && s.notebookId = command.notebookId &&
    s.type = .webUrl && s.availability ≠ .deletedTombstoned
  if !w.sources.any refreshable then .error .sourceNotFound
  else match w.latestVersion sourceId with
  | none => .error .noResultFound
  | some latest => do
    let w ← w.insertVersion (activating versionId sourceId (latest.versionNumber + 1) blob)
    return w.insertReference ⟨blob.id, "source_version", versionId⟩

/-- `acquire`: a source that the notebook has already is left as it is. -/
def acquire (command : AcquireSourceCommand) (blob : BlobObject) (sourceId versionId : Uuid) :
    Except CatalogError Catalog :=
  match command.refreshSourceId, blob.sourceType with
  | some refreshSourceId, _ => w.acquireRefresh command refreshSourceId blob versionId
  | none, none => .error (.unsupportedContentType blob.contentType)
  | none, some type =>
    if w.holdsOrigin command.notebookId (command.origin blob) then .ok w
    else do
      let w ← w.insertSource
        { id := sourceId, notebookId := command.notebookId, type, origin := command.origin blob
          displayTitle := command.displayTitle }
      let w ← w.insertVersion (activating versionId sourceId 1 blob)
      return w.insertReference ⟨blob.id, "source_version", versionId⟩

/-- `acquire_unavailable`: a version without a blob; `digest` is of the origin. -/
def acquireUnavailable (command : AcquireSourceCommand) (origin : String) (type : SourceType) (reason digest : String)
    (sourceId versionId : Uuid) : Except CatalogError Catalog :=
  if w.holdsOrigin command.notebookId origin then .ok w
  else do
    let w ← w.insertSource
      { id := sourceId, notebookId := command.notebookId, type, origin, displayTitle := command.displayTitle }
    w.insertVersion
      { id := versionId, sourceId, originalBlobId := none, contentSha256 := digest, contentSizeBytes := none
        versionNumber := 1, status := .parseFailed, parseErrorCode := some reason }

/-! ## Availability -/

def setAvailability (p : Source → Bool) (availability : Availability) : Catalog :=
  { w with sources := update p (fun s => { s with availability }) w.sources }

/-- `mark_refresh_failed`. -/
def markRefreshFailed (sourceId actorId : Uuid) : Catalog := w.setAvailability (w.visible sourceId actorId) .stale

/-- `set_selected`; `remove` is `set_selected(selected=False)`. -/
def setSelected (sourceId actorId : Uuid) (selected : Bool) : Except CatalogError Catalog :=
  if w.sources.any (w.visible sourceId actorId) then
    .ok (w.setAvailability (w.visible sourceId actorId) (if selected then .active else .deletedTombstoned))
  else .error .sourceNotFound

/-! ## Parsing -/

def setStatus (p : CatalogVersion → Bool) (status : VersionStatus) (parseErrorCode : Option String) : Catalog :=
  { w with versions := update p (fun v => { v with status, parseErrorCode }) w.versions }

/-- `mark_parsing`. -/
def markParsing (versionId : Uuid) : Catalog := w.setStatus (·.id = versionId) .parsing none

/-- `persist`, with the document's rows as its repository stores them. -/
def persist (rt : Runtime) (document : CanonicalDocument) : Except CatalogError Catalog :=
  match rt.persist w.canonical document with
  | .error e => .error (.persist e)
  | .ok db => .ok { w.setStatus (·.id = document.sourceVersionId) .parsed none with
      documents := db.documents, nodes := db.nodes, locators := db.locators, located := db.located }

/-- The version is another than the source's current one. -/
def isBehind (versionId : Uuid) (s : Source) : Bool :=
  w.versions.any (fun v => v.id = versionId && v.sourceId = s.id) && s.currentVersionId.any (· ≠ versionId)

/-- `persist_failure`. -/
def persistFailure (versionId : Uuid) (errorCode : String) : Catalog :=
  (w.setStatus (·.id = versionId) (if errorCode = "encrypted" then .encrypted else .parseFailed)
    (some errorCode)).setAvailability (w.isBehind versionId) .stale

/-! ## Activation -/

/-- What an activation promotes: the latest version, when it is parsed and has a document. -/
def promotable (sourceId : Uuid) : Option (CatalogVersion × PersistedDocument) :=
  match w.latestVersion sourceId with
  | none => none
  | some version =>
    if version.status = .parsed then
      (w.documents.find? (·.sourceVersionId = version.id)).map fun document => (version, document)
    else none

/-- `_demote_prior_active`, `_promote` and `_activate_document`. -/
def promote (sourceId versionId documentId : Uuid) : Catalog :=
  let demoted := update
    (fun v : CatalogVersion => v.sourceId = sourceId && v.status = .active && v.id ≠ versionId)
    (fun v => { v with status := .inactive }) w.versions
  let documents := update (fun d : PersistedDocument => d.sourceVersionId = versionId && d.active && d.id ≠ documentId)
    (fun d => { d with active := false }) w.documents
  { w with
    versions := update (fun v => v.id = versionId && v.status = .parsed) (fun v => { v with status := .active }) demoted
    documents := update (·.id = documentId) (fun d => { d with active := true }) documents
    sources := update (·.id = sourceId)
      (fun s => { s with currentVersionId := some versionId, availability := .active }) w.sources }

/-- `activate`. -/
def activate (sourceId actorId : Uuid) : Except CatalogError (Bool × Catalog) :=
  if !w.sources.any (w.visible sourceId actorId) then .error .sourceNotFound
  else match w.promotable sourceId with
  | none => .ok (false, w)
  | some (version, document) => .ok (true, w.promote sourceId version.id document.id)

/-! ## Purge -/

/-- `mark`: access to the source is blocked; a failed version keeps its error code,
which no tombstoned one may have. -/
def mark (sourceId actorId taskId : Uuid) : Except CatalogError (Option Catalog) :=
  if !w.sources.any (w.visible sourceId actorId) then .ok none
  else if (w.versionsOf sourceId).any (·.parseErrorCode.isSome) then .error (.constraint "ck_source_versions_parse_error")
  else .ok (some { w with
    sources := update (·.id = sourceId)
      (fun s => { s with availability := .deletedTombstoned, currentVersionId := none }) w.sources
    versions := update (·.sourceId = sourceId) (fun v => { v with status := .tombstoned }) w.versions
    purgeTasks := w.purgeTasks ++ [taskId] })

/-! ## The repository's tables -/

end Catalog

end MilpbookLM
