/-
The blob root and the blob tables: temporaries under tmp/, objects under
objects/<aa>/<sha256>, the rows of blob_objects and of blob_references, and the
calls on them that the store, the garbage collection, the purge and source
acquisition make (`BlobCall.exec`). Each call is one filesystem operation or one
transaction; the purge's first transaction is two, what it reads and its commit.

What is durable is kept beside what is there: the bytes of a file since its
fsync, its directory entry since the fsync of its bucket, the bucket's entry
since the fsync of objects/.
-/
import MilpbookLM.Base.Uuid
import MilpbookLM.Domain.Jobs
import MilpbookLM.Lib.Interleave
import MilpbookLM.Lib.Table

namespace MilpbookLM

abbrev Bytes := List UInt8

/-! ## Files -/

/-- A path under the blob root. -/
inductive StorePath
  | temporary (name : Nat)
  | object (contentSha256 : String)
  deriving DecidableEq

/-- `tmp/<uuid>.tmp`. -/
structure Temporary where
  name : Nat
  content : Bytes
  mtime : Time
  synced : Bool := false
  deriving DecidableEq

/-- `objects/<aa>/<sha256>`. -/
structure ObjectFile where
  contentSha256 : String
  content : Bytes
  mtime : Time
  synced : Bool
  entrySynced : Bool := false
  deriving DecidableEq

/-- `objects/<aa>`. -/
structure Bucket where
  name : List Char
  entrySynced : Bool := false
  deriving DecidableEq

/-- `content_sha256[:2]`. -/
def bucketOf (contentSha256 : String) : List Char := contentSha256.toList.take 2

/-! ## Rows -/

inductive BlobState
  | staging | finalized | purged
  deriving DecidableEq

structure BlobObject where
  id : Nat
  contentSha256 : String
  sizeBytes : Nat
  storagePath : StorePath
  state : BlobState
  contentType : Option String := none
  finalizedAt : Option Time := none
  deriving DecidableEq

structure BlobReference where
  blobId : Nat
  referrerKind : String
  referrerId : Uuid
  deriving DecidableEq

/-- The blob root and the two tables. Names and ids are given out once. -/
structure BlobWorld where
  temporaries : List Temporary := []
  nextTemporary : Nat := 0
  objects : List ObjectFile := []
  buckets : List Bucket := []
  blobObjects : List BlobObject := []
  nextBlob : Nat := 0
  blobReferences : List BlobReference := []

inductive BlobError
  | fileNotFound
  | blobWrite (message : String)
  | contentMismatch (message : String)
  | integrity (message : String)
  | foreignKey
  | notTemporary
  deriving DecidableEq

structure TemporaryStats where
  relativePath : StorePath
  mtime : Time

structure StoredObjectStats where
  contentSha256 : String
  sizeBytes : Nat
  mtime : Time

/-! ## Calls -/

/-- What `os.link` comes to. -/
inductive Linked
  | linked | fileExists | fileNotFound
  deriving DecidableEq

/-- What `put` is called for: source acquisition adds its reference afterwards. -/
inductive PutSite
  | acquisition | other
  deriving DecidableEq

/-- What the purge has read: the references it deletes and the objects left without. -/
structure Marked where
  references : List BlobReference
  unreferenced : List BlobObject

inductive BlobCall
  | writeTemporary (data : Bytes)
  | fsyncTemporary (name : Nat)
  | readTemporary (name : Nat)
  | unlinkTemporary (name : Nat)
  | fsyncTmpDir
  | finalExists (contentSha256 : String)
  | readFinal (contentSha256 : String)
  | mkdirBucket (contentSha256 : String)
  | link (temporary : Nat) (contentSha256 : String)
  | unlinkFinal (contentSha256 : String)
  | bucketIsDir (contentSha256 : String)
  | fsyncBucket (contentSha256 : String)
  | fsyncObjectsDir
  | now
  | commitFinalized (site : PutSite) (contentSha256 : String) (sizeBytes : Nat) (finalizedAt : Time)
      (contentType referrerKind : Option String) (referrerId : Option Uuid)
  | acquire (blob : BlobObject) (versionId : Uuid)
  | listTemporaries
  | listFinals
  | allObjects
  | referenceCounts
  | purgeMark (versionIds artifactVersionIds : List Uuid)
  | purgeCommit (marked : Marked)
  | purgeDelete (ids : List Nat)

def BlobAnswer : BlobCall → Type
  | .writeTemporary _ => Nat
  | .readTemporary _ => Option Bytes
  | .finalExists _ => Bool
  | .readFinal _ => Option Bytes
  | .link .. => Linked
  | .bucketIsDir _ => Bool
  | .now => Time
  | .commitFinalized .. => Except BlobError BlobObject
  | .acquire .. => Except BlobError Bool
  | .listTemporaries => List TemporaryStats
  | .listFinals => List StoredObjectStats
  | .allObjects => List BlobObject
  | .referenceCounts => List (Nat × Nat)
  | .purgeMark .. => Marked
  | _ => Unit

/-- The clock, and whether the notebook has the acquired source already. -/
structure BlobEnv where
  clock : Time
  existing : Bool := false

namespace BlobWorld

def temporary? (w : BlobWorld) (name : Nat) : Option Temporary := w.temporaries.find? (·.name = name)

def object? (w : BlobWorld) (contentSha256 : String) : Option ObjectFile :=
  w.objects.find? (·.contentSha256 = contentSha256)

/-- The table with a reference, inserted `on_conflict_do_nothing`. -/
def addReference (ref : BlobReference) (refs : List BlobReference) : List BlobReference :=
  if ref ∈ refs then refs else refs ++ [ref]

/-- `os.link`: it wants the temporary and the bucket, and never overwrites. -/
def link (w : BlobWorld) (temporary : Nat) (contentSha256 : String) : Linked × BlobWorld :=
  match w.temporary? temporary, w.buckets.any (·.name = bucketOf contentSha256), w.object? contentSha256 with
  | none, _, _ => (.fileNotFound, w)
  | _, false, _ => (.fileNotFound, w)
  | some _, true, some _ => (.fileExists, w)
  | some t, true, none =>
    (.linked, { w with
      objects := w.objects ++ [{ contentSha256, content := t.content, mtime := t.mtime, synced := t.synced }] })

/-- The insert or reuse of the row of `commit_finalized`. -/
def finalizedRow (w : BlobWorld) (contentSha256 : String) (sizeBytes : Nat) (finalizedAt : Time)
    (contentType : Option String) : Except BlobError (BlobObject × BlobWorld) :=
  match w.blobObjects.find? (·.contentSha256 = contentSha256) with
  | some existing =>
    if existing.sizeBytes ≠ sizeBytes then
      .error (.integrity (s!"blob_objects row for {contentSha256} records " ++
        s!"{existing.sizeBytes} bytes, the object is {sizeBytes}"))
    else if existing.state ≠ .finalized then
      let row := { existing with state := .finalized, finalizedAt := some finalizedAt }
      .ok (row, { w with blobObjects := Table.put (·.id) row w.blobObjects })
    else .ok (existing, w)
  | none =>
    let row : BlobObject :=
      { id := w.nextBlob, contentSha256, sizeBytes, storagePath := .object contentSha256, state := .finalized
        contentType, finalizedAt := some finalizedAt }
    .ok (row, { w with blobObjects := w.blobObjects ++ [row], nextBlob := w.nextBlob + 1 })

/-- `commit_finalized`. -/
def commitFinalized (w : BlobWorld) (contentSha256 : String) (sizeBytes : Nat) (finalizedAt : Time)
    (contentType referrerKind : Option String) (referrerId : Option Uuid) : Except BlobError BlobObject × BlobWorld :=
  match w.finalizedRow contentSha256 sizeBytes finalizedAt contentType with
  | .error e => (.error e, w)
  | .ok (row, w) =>
    match referrerKind, referrerId with
    | some referrerKind, some referrerId =>
      (.ok row, { w with blobReferences := addReference ⟨row.id, referrerKind, referrerId⟩ w.blobReferences })
    | _, _ => (.ok row, w)

/-- The reference of a new source version (`PgSourceCatalog.acquire`); the
foreign key wants the object's row. -/
def acquire (w : BlobWorld) (existing : Bool) (blob : BlobObject) (versionId : Uuid) :
    Except BlobError Bool × BlobWorld :=
  if existing then (.ok false, w)
  else if w.blobObjects.any (·.id = blob.id) then
    (.ok true, { w with blobReferences := addReference ⟨blob.id, "source_version", versionId⟩ w.blobReferences })
  else (.error .foreignKey, w)

/-- A reference of the versions to be purged. -/
def purgedBy (versionIds artifactVersionIds : List Uuid) (ref : BlobReference) : Bool :=
  ref.referrerKind = "source_version" && ref.referrerId ∈ versionIds ||
    ref.referrerKind ∈ ["artifact_version", "artifact_rendition"] && ref.referrerId ∈ artifactVersionIds

/-- What `erase` deletes and what is left without a reference, as its transaction sees it. -/
def marked (w : BlobWorld) (versionIds artifactVersionIds : List Uuid) : Marked :=
  let references := w.blobReferences.filter (purgedBy versionIds artifactVersionIds)
  let rest := w.blobReferences.filter fun ref => !purgedBy versionIds artifactVersionIds ref
  { references
    unreferenced := w.blobObjects.filter fun row =>
      references.any (·.blobId = row.id) && !rest.any (·.blobId = row.id) }

/-- The commit of the erase phase's first transaction. -/
def purgeCommit (w : BlobWorld) (marked : Marked) : BlobWorld :=
  { w with
    blobReferences := w.blobReferences.filter (· ∉ marked.references)
    blobObjects := Table.update (fun row => row.id ∈ marked.unreferenced.map (·.id))
      (fun row => { row with state := .purged, finalizedAt := none }) w.blobObjects }

/-- The delete of the rows; the references of a row go with it. -/
def purgeDelete (w : BlobWorld) (ids : List Nat) : BlobWorld :=
  { w with
    blobObjects := w.blobObjects.filter (·.id ∉ ids)
    blobReferences := w.blobReferences.filter (·.blobId ∉ ids) }

end BlobWorld

/-- What each call does. -/
def BlobCall.exec (env : BlobEnv) : (c : BlobCall) → BlobWorld → BlobAnswer c × BlobWorld
  | .writeTemporary data, w =>
    (w.nextTemporary, { w with
      temporaries := w.temporaries ++ [{ name := w.nextTemporary, content := data, mtime := env.clock }]
      nextTemporary := w.nextTemporary + 1 })
  | .fsyncTemporary name, w =>
    ((), { w with temporaries := Table.update (·.name = name) (fun t => { t with synced := true }) w.temporaries })
  | .readTemporary name, w => ((w.temporary? name).map (·.content), w)
  | .unlinkTemporary name, w => ((), { w with temporaries := w.temporaries.filter (·.name ≠ name) })
  | .fsyncTmpDir, w => ((), w)
  | .finalExists sha, w => ((w.object? sha).isSome, w)
  | .readFinal sha, w => ((w.object? sha).map (·.content), w)
  | .mkdirBucket sha, w =>
    ((), if w.buckets.any (·.name = bucketOf sha) then w
      else { w with buckets := w.buckets ++ [{ name := bucketOf sha }] })
  | .link temporary sha, w => w.link temporary sha
  | .unlinkFinal sha, w => ((), { w with objects := w.objects.filter (·.contentSha256 ≠ sha) })
  | .bucketIsDir sha, w => (w.buckets.any (·.name = bucketOf sha), w)
  | .fsyncBucket sha, w =>
    ((), { w with
      objects := Table.update (fun f => bucketOf f.contentSha256 = bucketOf sha)
        (fun f => { f with entrySynced := true }) w.objects })
  | .fsyncObjectsDir, w => ((), { w with buckets := w.buckets.map fun b => { b with entrySynced := true } })
  | .now, w => (env.clock, w)
  | .commitFinalized _ sha size finalizedAt contentType kind id, w =>
    w.commitFinalized sha size finalizedAt contentType kind id
  | .acquire blob versionId, w => w.acquire env.existing blob versionId
  | .listTemporaries, w => (w.temporaries.map fun t => ⟨.temporary t.name, t.mtime⟩, w)
  | .listFinals, w => (w.objects.map fun f => ⟨f.contentSha256, f.content.length, f.mtime⟩, w)
  | .allObjects, w => (w.blobObjects, w)
  | .referenceCounts, w =>
    ((w.blobReferences.map (·.blobId)).dedup.map fun id => (id, w.blobReferences.countP (·.blobId = id)), w)
  | .purgeMark versionIds artifactVersionIds, w => (w.marked versionIds artifactVersionIds, w)
  | .purgeCommit marked, w => ((), w.purgeCommit marked)
  | .purgeDelete ids, w => ((), w.purgeDelete ids)

end MilpbookLM
