/-
The filesystem blob store (`FilesystemBlobStore.put` and what it calls), the
reconciliation scan and the garbage collection, the purge's erase phase as far as
it touches blobs, and source acquisition, each a program over the calls of
`BlobCall`. Streaming is one write; the purge is given the identity sets of its
source.

`sha256` is the digest, of which nothing is assumed.
-/
import MilpbookLM.Blobs.World

namespace MilpbookLM

open Interleave

abbrev BlobProgram (α : Type) := ExceptT BlobError (Prog BlobCall BlobAnswer) α

/-- The program that makes one call. -/
def BlobCall.perform (c : BlobCall) : BlobProgram (BlobAnswer c) := ExceptT.lift (Prog.perform c)

/-- `try: x finally: cleanup`. -/
def BlobProgram.tryFinally {α : Type} (x : BlobProgram α) (cleanup : BlobProgram Unit) : BlobProgram α := do
  let a ← tryCatch x fun e => do cleanup; throw e
  cleanup
  return a

section Store

variable (sha256 : Bytes → String)

/-- The first `n` characters. -/
def firstChars (n : Nat) (s : String) : String := String.ofList (s.toList.take n)

/-! ## Put -/

/-- `_write_temporary`. -/
def writeTemporary (data : Bytes) : BlobProgram (Nat × String × Nat) := do
  let temp ← (BlobCall.writeTemporary data).perform
  (BlobCall.fsyncTemporary temp).perform
  return (temp, sha256 data, data.length)

/-- `_validate_temporary`. -/
def validateTemporary (temp : Nat) (expectedSha : String) (expectedSize : Nat) : BlobProgram Unit := do
  match ← (BlobCall.readTemporary temp).perform with
  | none => throw .fileNotFound
  | some content =>
    if sha256 content ≠ expectedSha || content.length ≠ expectedSize then
      throw (.blobWrite (s!"staged temporary failed validation (sha={firstChars 12 (sha256 content)}..., " ++
        s!"size={content.length})"))

/-- `_require_identical`. -/
def requireIdentical (contentSha256 : String) (sizeBytes : Nat) : BlobProgram Unit := do
  match ← (BlobCall.readFinal contentSha256).perform with
  | none => throw .fileNotFound
  | some content =>
    if sha256 content ≠ contentSha256 || content.length ≠ sizeBytes then
      throw (.contentMismatch s!"existing final object {contentSha256} does not match its identity")

/-- `_finalize`. -/
def finalize (temp : Nat) (contentSha256 : String) (sizeBytes : Nat) : BlobProgram Unit := do
  let exists_ : Bool ← (BlobCall.finalExists contentSha256).perform
  if exists_ then requireIdentical sha256 contentSha256 sizeBytes
  else
    (BlobCall.mkdirBucket contentSha256).perform
    match ← (BlobCall.link temp contentSha256).perform with
    | .linked => pure ()
    -- A concurrent writer won the race.
    | .fileExists => requireIdentical sha256 contentSha256 sizeBytes
    | .fileNotFound => throw .fileNotFound
    (BlobCall.fsyncBucket contentSha256).perform
    BlobCall.fsyncObjectsDir.perform

/-- `put`. -/
def put (site : PutSite) (data : Bytes) (contentType referrerKind : Option String) (referrerId : Option Uuid) :
    BlobProgram BlobObject := do
  let (temp, expectedSha, expectedSize) ← writeTemporary sha256 data
  BlobProgram.tryFinally
    (do
      validateTemporary sha256 temp expectedSha expectedSize
      finalize sha256 temp expectedSha expectedSize)
    (do
      (BlobCall.unlinkTemporary temp).perform
      BlobCall.fsyncTmpDir.perform)
  let finalizedAt ← BlobCall.now.perform
  match ← (BlobCall.commitFinalized site expectedSha expectedSize finalizedAt contentType referrerKind
    referrerId).perform with
  | .ok blob => return blob
  | .error e => throw e

/-- `verify_content`. -/
def verifyContent (contentSha256 : String) (sizeBytes : Nat) : BlobProgram Unit := do
  match ← (BlobCall.readFinal contentSha256).perform with
  | none => throw (.integrity s!"finalized object {contentSha256} is missing on disk")
  | some content =>
    if sha256 content ≠ contentSha256 || content.length ≠ sizeBytes then
      throw (.integrity (s!"finalized object {contentSha256} failed its integrity check " ++
        s!"(expected {sizeBytes} bytes, found {content.length})"))

/-- `delete_temporary`. -/
def deleteTemporary : StorePath → BlobProgram Unit
  | .temporary name => do
    (BlobCall.unlinkTemporary name).perform
    BlobCall.fsyncTmpDir.perform
  | .object _ => throw .notTemporary

/-- `delete_final`. -/
def deleteFinal (contentSha256 : String) : BlobProgram Unit := do
  (BlobCall.unlinkFinal contentSha256).perform
  let isDir : Bool ← (BlobCall.bucketIsDir contentSha256).perform
  if isDir then (BlobCall.fsyncBucket contentSha256).perform

/-! ## Reconciliation -/

inductive ReconciliationClass
  | orphanTemporary | unreferencedFinal | missingReferenced
  deriving DecidableEq

structure ReconciliationFinding where
  kind : ReconciliationClass
  blobId : Option Nat
  contentSha256 : Option String
  storagePath : Option StorePath
  finalizedAt : Option Time
  filePresent : Bool
  detail : String

structure ReconciliationReport where
  at_ : Time
  findings : List ReconciliationFinding

/-- `findings_of`. -/
def ReconciliationReport.findingsOf (report : ReconciliationReport) (kind : ReconciliationClass) :
    List ReconciliationFinding :=
  report.findings.filter (·.kind = kind)

/-- `ref_counts.get(id, 0)`. -/
def refCount (refCounts : List (Nat × Nat)) (id : Nat) : Nat := (refCounts.lookup id).getD 0

/-- `_classify_temporaries`. -/
def classifyTemporaries (temporaries : List TemporaryStats) : List ReconciliationFinding :=
  temporaries.map fun stats =>
    { kind := .orphanTemporary, blobId := none, contentSha256 := none, storagePath := some stats.relativePath
      finalizedAt := some stats.mtime, filePresent := true
      detail := "temporary file left outside a committed write" }

def BlobError.text : BlobError → String
  | .blobWrite m | .contentMismatch m | .integrity m => m
  | .fileNotFound | .foreignKey | .notTemporary => ""

/-- `_integrity_scan`. -/
def integrityScan (obj : BlobObject) : BlobProgram (List ReconciliationFinding) :=
  tryCatch
    (do
      verifyContent sha256 obj.contentSha256 obj.sizeBytes
      return [])
    fun e => return [{
      kind := .missingReferenced, blobId := some obj.id, contentSha256 := some obj.contentSha256
      storagePath := some obj.storagePath, finalizedAt := obj.finalizedAt, filePresent := true
      detail := s!"integrity scan failed: {e.text}" }]

/-- `_classify_finals`, one object on disk. -/
def classifyFinal (objects : List BlobObject) (refCounts : List (Nat × Nat)) (stats : StoredObjectStats) :
    BlobProgram (List ReconciliationFinding) :=
  match objects.find? (·.contentSha256 = stats.contentSha256) with
  | none => return [{
      kind := .unreferencedFinal, blobId := none, contentSha256 := some stats.contentSha256
      storagePath := none, finalizedAt := some stats.mtime, filePresent := true
      detail := "finalized object on disk without a finalized record" }]
  | some obj =>
    if obj.state ≠ .finalized then
      return [{
        kind := .unreferencedFinal, blobId := some obj.id, contentSha256 := some stats.contentSha256
        storagePath := some obj.storagePath, finalizedAt := some stats.mtime, filePresent := true
        detail := "finalized object on disk without a finalized record" }]
    else if refCount refCounts obj.id = 0 then
      return [{
        kind := .unreferencedFinal, blobId := some obj.id, contentSha256 := some stats.contentSha256
        storagePath := some obj.storagePath, finalizedAt := some (obj.finalizedAt.getD stats.mtime)
        filePresent := true, detail := "finalized object has no references" }]
    else integrityScan sha256 obj

/-- `_classify_rows`. -/
def classifyRows (objects : List BlobObject) (finals : List StoredObjectStats) (refCounts : List (Nat × Nat)) :
    List ReconciliationFinding :=
  (objects.filter fun obj => obj.state = .finalized && !finals.any (·.contentSha256 = obj.contentSha256)).map
    fun obj =>
      if 0 < refCount refCounts obj.id then
        { kind := .missingReferenced, blobId := some obj.id, contentSha256 := some obj.contentSha256
          storagePath := some obj.storagePath, finalizedAt := obj.finalizedAt, filePresent := false
          detail := "referenced blob has no object file on disk" }
      else
        { kind := .unreferencedFinal, blobId := some obj.id, contentSha256 := some obj.contentSha256
          storagePath := some obj.storagePath, finalizedAt := obj.finalizedAt, filePresent := false
          detail := "finalized record has no object file on disk" }

/-- The findings of the objects on disk, one after another. -/
def classifyFinals (objects : List BlobObject) (refCounts : List (Nat × Nat)) :
    List StoredObjectStats → BlobProgram (List ReconciliationFinding)
  | [] => return []
  | stats :: finals => do
    let findings ← classifyFinal sha256 objects refCounts stats
    let rest ← classifyFinals objects refCounts finals
    return findings ++ rest

/-- `ReconcileBlobs.__call__`. -/
def reconcileBlobs : BlobProgram ReconciliationReport := do
  let temporaries ← BlobCall.listTemporaries.perform
  let finals ← BlobCall.listFinals.perform
  let objects ← BlobCall.allObjects.perform
  let refCounts ← BlobCall.referenceCounts.perform
  let ofFinals ← classifyFinals sha256 objects refCounts finals
  let at_ ← BlobCall.now.perform
  return ⟨at_, classifyTemporaries temporaries ++ ofFinals ++ classifyRows objects finals refCounts⟩

/-! ## Garbage collection -/

/-- `gc_eligible`. -/
def gcEligible (finalizedAt : Option Time) (now safetyDelay : Time) : Bool :=
  match finalizedAt with
  | none => false
  | some t => safetyDelay ≤ now - t

/-- The sweep of one orphan temporary. -/
def sweepTemporary (now safetyDelay : Time) (finding : ReconciliationFinding) : BlobProgram Unit := do
  if gcEligible finding.finalizedAt now safetyDelay then
    match finding.storagePath with
    | some path => deleteTemporary path
    | none => pure ()

/-- The deletion of one unreferenced final. -/
def collectFinal (now safetyDelay : Time) (finding : ReconciliationFinding) : BlobProgram Unit := do
  if finding.filePresent && gcEligible finding.finalizedAt now safetyDelay then
    match finding.contentSha256 with
    | some sha => deleteFinal sha
    | none => pure ()

structure GcReport where
  at_ : Time
  sweptTemps : Nat
  deletedFinals : Nat
  pendingSafetyDelay : Nat
  integrityIncidents : Nat

/-- `CollectBlobGarbage.__call__`. -/
def collectBlobGarbage (safetyDelay : Time) : BlobProgram GcReport := do
  let report ← reconcileBlobs sha256
  let now ← BlobCall.now.perform
  let eligible (finding : ReconciliationFinding) := gcEligible finding.finalizedAt now safetyDelay
  let temporaries := report.findingsOf .orphanTemporary
  let finals := (report.findingsOf .unreferencedFinal).filter (·.filePresent)
  temporaries.forM (sweepTemporary now safetyDelay)
  (report.findingsOf .unreferencedFinal).forM (collectFinal now safetyDelay)
  return {
    at_ := now
    sweptTemps := temporaries.countP fun finding => eligible finding && finding.storagePath.isSome
    deletedFinals := finals.countP eligible
    pendingSafetyDelay := temporaries.countP (!eligible ·) + finals.countP (!eligible ·)
    integrityIncidents := (report.findingsOf .missingReferenced).length }

/-! ## Purge and acquisition -/

/-- The blob side of `PgSourcePurge.erase`. -/
def eraseBlobs (versionIds artifactVersionIds : List Uuid) : BlobProgram Unit := do
  let marked ← (BlobCall.purgeMark versionIds artifactVersionIds).perform
  (BlobCall.purgeCommit marked).perform
  marked.unreferenced.forM fun row => deleteFinal row.contentSha256
  (BlobCall.purgeDelete (marked.unreferenced.map (·.id))).perform

/-- `AcquireSource.__call__`, from its put to the new version's reference. -/
def acquireSource (data : Bytes) (contentType : Option String) (versionId : Uuid) : BlobProgram Bool := do
  let blob ← put sha256 .acquisition data contentType none none
  match ← (BlobCall.acquire blob versionId).perform with
  | .ok created => return created
  | .error e => throw e

end Store

end MilpbookLM
