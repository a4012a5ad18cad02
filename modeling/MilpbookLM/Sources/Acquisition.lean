/-
Bytes put into the blob store and acquired as sources, any number of transactions
interleaved: `commit_finalized` and `PgSourceCatalog.acquire` in the two steps between
which others may commit (what is selected, what is inserted), the refresh, and beside them
the purge and every other transaction on the catalog.

An acquisition holds the advisory lock of its notebook and origin from its select to its
commit (`AcquisitionCall.Enabled`). The key of the lock is a hash: origins that collide only
wait for each other more often.
-/
import MilpbookLM.Sources.Tombstones
import Mathlib.Logic.Function.Basic

namespace MilpbookLM

open Table

/-! ## Views -/

structure SourceView where
  sourceId : Uuid
  sourceVersionId : Uuid
  notebookId : Uuid
  sourceType : SourceType
  displayTitle : String
  availability : Availability
  contentSha256 : String
  contentSizeBytes : Option Nat
  versionStatus : VersionStatus
  blobId : Option Nat
  deriving DecidableEq

/-- `_view`. -/
def SourceView.of (s : Source) (v : CatalogVersion) : SourceView where
  sourceId := s.id
  sourceVersionId := v.id
  notebookId := s.notebookId
  sourceType := s.type
  displayTitle := s.displayTitle
  availability := s.availability
  contentSha256 := v.contentSha256
  contentSizeBytes := v.contentSizeBytes
  versionStatus := v.status
  blobId := v.originalBlobId

namespace Catalog

variable (w : Catalog)

/-- The sources of `p`, joined with their versions. -/
def joined (p : Source → Bool) : List (Source × CatalogVersion) :=
  (w.sources.filter p).flatMap fun s => (w.versionsOf s.id).map fun v => (s, v)

/-- `_select_view`: `ORDER BY version_number DESC LIMIT 1`. -/
def selectView (p : Source → Bool) : Option SourceView :=
  ((w.joined p).mergeSort fun a b => b.2.versionNumber ≤ a.2.versionNumber).head?.map fun row => .of row.1 row.2

/-- The source has this origin in the notebook. -/
def hasOrigin (notebookId : Uuid) (origin : String) (s : Source) : Bool := s.notebookId = notebookId && s.origin = origin

end Catalog

/-! ## Transactions -/

/-- What an acquisition that found no source of its origin inserts. -/
inductive Insertion
  | acquired (command : AcquireSourceCommand) (blob : BlobObject) (type : SourceType)
  | unavailable (command : AcquireSourceCommand) (origin : String) (type : SourceType) (reason digest : String)

namespace Insertion

def notebookId : Insertion → Uuid
  | acquired command .. | unavailable command .. => command.notebookId

def origin : Insertion → String
  | acquired command blob _ => command.origin blob
  | unavailable _ origin .. => origin

/-- The source and its first version, with the reference to its blob. -/
def insert (w : Catalog) (sourceId versionId : Uuid) : Insertion → Except CatalogError Catalog
  | acquired command blob type => do
    let w ← w.insertSource
      { id := sourceId, notebookId := command.notebookId, type, origin := command.origin blob
        displayTitle := command.displayTitle }
    let w ← w.insertVersion (Catalog.activating versionId sourceId 1 blob)
    return w.insertReference ⟨blob.id, "source_version", versionId⟩
  | unavailable command origin type reason digest => do
    let w ← w.insertSource
      { id := sourceId, notebookId := command.notebookId, type, origin, displayTitle := command.displayTitle }
    w.insertVersion
      { id := versionId, sourceId, originalBlobId := none, contentSha256 := digest, contentSizeBytes := none
        versionNumber := 1, status := .parseFailed, parseErrorCode := some reason }

/-- The blob whose row a foreign key wants. -/
def blob : Insertion → Option BlobObject
  | acquired _ blob _ => some blob
  | unavailable .. => none

end Insertion

/-- What else a blob is put for: an artifact version, an output of an execution. -/
structure BlobReferrer where
  kind : String
  id : Uuid
  other : kind ≠ "source_version"

/-- What a transaction that is open has read, or what the erase phase has left to do. -/
inductive Txn
  | committing (data : Bytes) (contentType : Option String) (referrer : Option BlobReferrer)
  | inserting (insertion : Insertion)
  | erasing (versionIds : List Uuid)
  | dropping (blobIds : List Nat)

/-- What is committed, the open transactions, and the blobs the store has returned. -/
structure AcquisitionWorld (T : Type) where
  catalog : Catalog := {}
  blobObjects : List BlobObject := []
  nextBlob : Nat := 0
  txns : T → Option Txn := fun _ => none
  handed : List BlobObject := []

inductive AcquisitionCall (T : Type)
  /-- The select of `commit_finalized`; a row it finds is completed. -/
  | put (t : T) (data : Bytes) (contentType : Option String) (referrer : Option BlobReferrer) (finalizedAt : Time)
  /-- Its insert. -/
  | insertBlob (t : T) (finalizedAt : Time)
  /-- The select of `acquire`, or a refresh. -/
  | acquire (t : T) (command : AcquireSourceCommand) (blob : BlobObject) (versionId : Uuid)
  | acquireUnavailable (t : T) (command : AcquireSourceCommand) (url reason : String)
  /-- The inserts of either. -/
  | insert (t : T) (sourceId versionId : Uuid)
  | abort (t : T)
  /-- What the erase phase reads, the rest of its first transaction, and its second. -/
  | erase (t : T) (sourceId : Uuid)
  | eraseDerivatives (t : T) (artifactVersionIds : List Uuid)
  | eraseObjects (t : T)
  | other (call : SourceCall)

inductive AcquisitionError
  | catalog (e : CatalogError)
  | blob (e : BlobError)
  | integrity (constraint : String)
  deriving DecidableEq

inductive AcquisitionAnswer
  | waits
  | done
  | blob (blob : BlobObject)
  | source (view : SourceView) (created : Bool)
  | raised (e : AcquisitionError)

/-! ## What a call does -/

namespace AcquisitionWorld

variable {T : Type} [DecidableEq T] (sha256 : Bytes → String) (w : AcquisitionWorld T)

def setTxn (t : T) (txn : Option Txn) : AcquisitionWorld T := { w with txns := Function.update w.txns t txn }

def holdsBlob (id : Nat) : Bool := w.blobObjects.any (·.id = id)

/-- A row `commit_finalized` returns, and its reference, if it is for one. -/
def handOver (row : BlobObject) (referrer : Option BlobReferrer) : AcquisitionWorld T :=
  let catalog := match referrer with
    | some referrer => w.catalog.insertReference ⟨row.id, referrer.kind, referrer.id⟩
    | none => w.catalog
  { w with catalog, handed := row :: w.handed }

/-- A row that is not finalized is completed. -/
def finalized (row : BlobObject) (finalizedAt : Time) : BlobObject :=
  if row.state = .finalized then row else { row with state := .finalized, finalizedAt := some finalizedAt }

def put (t : T) (data : Bytes) (contentType : Option String) (referrer : Option BlobReferrer) (finalizedAt : Time) :
    AcquisitionAnswer × AcquisitionWorld T :=
  match w.blobObjects.find? (·.contentSha256 = sha256 data) with
  | none => (.waits, w.setTxn t (some (.committing data contentType referrer)))
  | some row =>
    if row.sizeBytes = data.length then
      (.blob (finalized row finalizedAt), { w with
        blobObjects := update (·.id = row.id) (finalized · finalizedAt) w.blobObjects }.handOver
          (finalized row finalizedAt) referrer)
    else
      (.raised (.blob (.integrity ("blob_objects row for " ++ sha256 data ++ " records " ++ toString row.sizeBytes ++
        " bytes, the object is " ++ toString data.length))), w)

/-- The row of new bytes. -/
def newBlob (data : Bytes) (contentType : Option String) (finalizedAt : Time) : BlobObject where
  id := w.nextBlob
  contentSha256 := sha256 data
  sizeBytes := data.length
  storagePath := .object (sha256 data)
  state := .finalized
  contentType := contentType
  finalizedAt := some finalizedAt

def insertBlob (t : T) (finalizedAt : Time) : AcquisitionAnswer × AcquisitionWorld T :=
  match w.txns t with
  | some (.committing data contentType referrer) =>
    let ended := w.setTxn t none
    if w.blobObjects.any (·.contentSha256 = sha256 data) then
      (.raised (.integrity "blob_objects_content_sha256_key"), ended)
    else
      let row := w.newBlob sha256 data contentType finalizedAt
      (.blob row, { ended with blobObjects := w.blobObjects ++ [row], nextBlob := w.nextBlob + 1 }.handOver row referrer)
  | _ => (.waits, w)

/-- A select for a source of an origin: what is found, or the inserts to come. -/
def select (t : T) (insertion : Insertion) : AcquisitionAnswer × AcquisitionWorld T :=
  match w.catalog.selectView (Catalog.hasOrigin insertion.notebookId insertion.origin) with
  | some existing => (.source existing false, w)
  | none => (.waits, w.setTxn t (some (.inserting insertion)))

def refresh (command : AcquireSourceCommand) (sourceId : Uuid) (blob : BlobObject) (versionId : Uuid) :
    AcquisitionAnswer × AcquisitionWorld T :=
  match w.catalog.acquireRefresh command sourceId blob versionId with
  | .error e => (.raised (.catalog e), w)
  | .ok catalog =>
    if w.holdsBlob blob.id then
      match catalog.selectView (·.id = sourceId) with
      | some view => (.source view true, { w with catalog })
      | none => (.raised (.catalog .noResultFound), w)
    else (.raised (.integrity "source_versions_original_blob_id_fkey"), w)

/-- `acquire`, to its inserts. -/
def acquire (t : T) (command : AcquireSourceCommand) (blob : BlobObject) (versionId : Uuid) :
    AcquisitionAnswer × AcquisitionWorld T :=
  match command.refreshSourceId, blob.sourceType with
  | some sourceId, _ => w.refresh command sourceId blob versionId
  | none, none => (.raised (.catalog (.unsupportedContentType blob.contentType)), w)
  | none, some type => w.select t (.acquired command blob type)

/-- `acquire_unavailable` for a public video, to its inserts. -/
def acquireUnavailable (t : T) (command : AcquireSourceCommand) (url reason : String) :
    AcquisitionAnswer × AcquisitionWorld T :=
  let origin := "public_video:" ++ url
  w.select t (.unavailable command origin .youtube reason (sha256 origin.toUTF8.toList))

/-- The inserts, and the view of what is inserted. -/
def insert (t : T) (sourceId versionId : Uuid) : AcquisitionAnswer × AcquisitionWorld T :=
  match w.txns t with
  | some (.inserting insertion) =>
    let ended := w.setTxn t none
    match insertion.insert w.catalog sourceId versionId with
    | .error e => (.raised (.catalog e), ended)
    | .ok catalog =>
      if insertion.blob.all (w.holdsBlob ·.id) then
        match catalog.selectView (·.id = sourceId) with
        | some view => (.source view true, { ended with catalog })
        | none => (.raised (.catalog .noResultFound), ended)
      else (.raised (.integrity "source_versions_original_blob_id_fkey"), ended)
  | _ => (.waits, w)

/-- Of what the first transaction of the erase phase erases, what an acquisition reads: the references and the
contents of the versions, and the state of the objects left without a reference. -/
def eraseDerivatives (t : T) (artifactVersionIds : List Uuid) : AcquisitionAnswer × AcquisitionWorld T :=
  match w.txns t with
  | some (.erasing versionIds) =>
    let purged := BlobWorld.purgedBy versionIds artifactVersionIds
    let erased := w.catalog.blobReferences.filter purged
    let references := w.catalog.blobReferences.filter (!purged ·)
    let unreferenced := (w.blobObjects.filter fun o =>
      erased.any (·.blobId = o.id) && !references.any (·.blobId = o.id)).map (·.id)
    (.done, { w.setTxn t (some (.dropping unreferenced)) with
      catalog := { w.catalog with
        versions := update (·.id ∈ versionIds) (fun v => { v with
          originalBlobId := none, contentSha256 := "purged:" ++ v.id.str, contentSizeBytes := none }) w.catalog.versions
        blobReferences := references }
      blobObjects := update (·.id ∈ unreferenced) (fun o => { o with state := .purged, finalizedAt := none }) w.blobObjects })
  | _ => (.waits, w)

/-- The delete of the objects' rows, with what the foreign keys make of it. -/
def eraseObjects (t : T) : AcquisitionAnswer × AcquisitionWorld T :=
  match w.txns t with
  | some (.dropping blobIds) =>
    (.done, { w.setTxn t none with
      catalog := { w.catalog with
        versions := update (fun v => v.originalBlobId.any (· ∈ blobIds)) (fun v => { v with originalBlobId := none })
          w.catalog.versions
        blobReferences := w.catalog.blobReferences.filter (·.blobId ∉ blobIds) }
      blobObjects := w.blobObjects.filter (·.id ∉ blobIds) })
  | _ => (.waits, w)

end AcquisitionWorld

namespace AcquisitionCall

variable {T : Type} [DecidableEq T] (sha256 : Bytes → String) (rt : Runtime)

open AcquisitionWorld in
def exec (w : AcquisitionWorld T) : AcquisitionCall T → AcquisitionAnswer × AcquisitionWorld T
  | put t data contentType referrer finalizedAt => w.put sha256 t data contentType referrer finalizedAt
  | insertBlob t finalizedAt => w.insertBlob sha256 t finalizedAt
  | acquire t command blob versionId => w.acquire t command blob versionId
  | acquireUnavailable t command url reason => w.acquireUnavailable sha256 t command url reason
  | insert t sourceId versionId => w.insert t sourceId versionId
  | abort t => (.done, w.setTxn t none)
  | erase t sourceId => (.waits, w.setTxn t (some (.erasing ((w.catalog.versionsOf sourceId).map (·.id)))))
  | eraseDerivatives t artifactVersionIds => w.eraseDerivatives t artifactVersionIds
  | eraseObjects t => w.eraseObjects t
  | other call =>
    match call.exec rt w.catalog with
    | .error e => (.raised (.catalog e), w)
    | .ok catalog => (.done, { w with catalog })

/-- The origins the program gives to files and texts; a public video and a web page have others. -/
def FileKind (kind : String) : Prop := kind = "upload" ∨ kind = "paste" ∨ ∃ revisionId : Uuid, kind = "note_revision:" ++ revisionId.str

/-- No open transaction holds the lock of the origin. -/
def LockFree (w : AcquisitionWorld T) (notebookId : Uuid) (origin : String) : Prop :=
  ∀ t i, w.txns t = some (.inserting i) → ¬ (i.notebookId = notebookId ∧ i.origin = origin)

/-- The call may be made: its transaction is not open, or is where the call goes on; the lock it takes is free; it has
its blob from the store. -/
def Enabled (w : AcquisitionWorld T) : AcquisitionCall T → Prop
  | put t .. => w.txns t = none
  | insertBlob t _ => ∃ data contentType referrer, w.txns t = some (.committing data contentType referrer)
  | acquire t command blob _ => w.txns t = none ∧ blob ∈ w.handed ∧ (command.requestedUrl = none → FileKind command.originKind) ∧
    (command.refreshSourceId = none → LockFree w command.notebookId (command.origin blob))
  | acquireUnavailable t command url _ => w.txns t = none ∧ LockFree w command.notebookId ("public_video:" ++ url)
  | insert t _ _ => ∃ i, w.txns t = some (.inserting i)
  | abort _ => True
  | erase t _ => w.txns t = none
  | eraseDerivatives t _ => ∃ versionIds, w.txns t = some (.erasing versionIds)
  | eraseObjects t => ∃ blobIds, w.txns t = some (.dropping blobIds)
  | other call => match call with
    | .acquire .. | .acquireUnavailable .. => False
    | _ => True

end AcquisitionCall

/-- A call that may be made and meets `cond`. -/
inductive AcquisitionStep {T : Type} [DecidableEq T] (sha256 : Bytes → String) (rt : Runtime)
    (cond : AcquisitionWorld T → AcquisitionCall T → Prop) (w : AcquisitionWorld T) : AcquisitionWorld T → Prop
  | call (c : AcquisitionCall T) : c.Enabled w → cond w c → AcquisitionStep sha256 rt cond w (c.exec sha256 rt w).2

end MilpbookLM
