/-
The tables a source purge reads or writes, each row with the columns it reads or
writes, and the deletes on them with what the foreign keys make of them: rows
that go too (`ON DELETE CASCADE`), pointers that are nulled (`SET NULL`), and
deletes that are refused (`RESTRICT`, and the guard of the evidence snapshots).
-/
import MilpbookLM.Blobs.World
import MilpbookLM.Jobs.Repo
import MilpbookLM.Lib.Frame

namespace MilpbookLM

open Table

/-! ## Rows -/

structure SourceVersion where
  id : Uuid
  sourceId : Uuid
  originalBlobId : Option Nat
  contentSha256 : String
  contentSizeBytes : Option Nat
  deriving DecidableEq

structure CanonicalDocumentRow where
  id : Uuid
  sourceVersionId : Uuid
  deriving DecidableEq

structure CanonicalNodeRow where
  id : Uuid
  canonicalDocumentId : Uuid
  parentNodeId : Option Uuid
  deriving DecidableEq

structure CanonicalLocatorRow where
  id : Uuid
  canonicalNodeId : Uuid
  deriving DecidableEq

structure IndexGenerationRow where
  id : Uuid
  sourceId : Uuid
  deriving DecidableEq

structure IndexChunkRow where
  id : Uuid
  indexGenerationId : Uuid
  canonicalDocumentId : Uuid
  canonicalNodeId : Uuid
  deriving DecidableEq

structure Manifest where
  id : Uuid
  parentManifestId : Option Uuid
  deriving DecidableEq

structure ManifestItem where
  manifestId : Uuid
  itemKind : String
  itemId : Uuid
  deriving DecidableEq

structure Message where
  id : Uuid
  manifestId : Uuid
  deriving DecidableEq

structure Artifact where
  id : Uuid
  currentVersionId : Option Uuid
  deriving DecidableEq

structure ArtifactVersion where
  id : Uuid
  artifactId : Uuid
  manifestId : Uuid
  deriving DecidableEq

structure UserArtifactState where
  id : Uuid
  artifactVersionId : Uuid
  deriving DecidableEq

structure StudySessionSnapshot where
  id : Uuid
  artifactVersionId : Uuid
  sourceStateId : Uuid
  deriving DecidableEq

structure ShareLink where
  id : Uuid
  artifactVersionId : Option Uuid
  deriving DecidableEq

structure ResearchRunRow where
  id : Uuid
  reportArtifactVersionId : Option Uuid
  deriving DecidableEq

structure EvidenceSnapshot where
  id : Uuid
  blobId : Option Nat
  deriving DecidableEq

structure ProvenanceEdge where
  id : Uuid
  fromId : Uuid
  fromVersionId : Option Uuid
  toId : Uuid
  toVersionId : Option Uuid
  deriving DecidableEq

inductive PurgeStatus
  | pending | running | completed | failed
  deriving DecidableEq

/-- `purge_tasks.progress` of an erase. -/
structure PurgeProgress where
  phase : String
  erased : List (String × Nat)
  caveat : String
  deriving DecidableEq

structure PurgeTask where
  id : Uuid
  subjectKind : String
  subjectId : Uuid
  status : PurgeStatus
  progress : Option PurgeProgress
  startedAt : Option Time
  finishedAt : Option Time
  deriving DecidableEq

/-- The tables, and the digests that have a file in the blob root. -/
structure SourceDb where
  sourceVersions : List SourceVersion := []
  canonicalDocuments : List CanonicalDocumentRow := []
  canonicalNodes : List CanonicalNodeRow := []
  canonicalLocators : List CanonicalLocatorRow := []
  indexGenerations : List IndexGenerationRow := []
  indexChunks : List IndexChunkRow := []
  manifests : List Manifest := []
  manifestItems : List ManifestItem := []
  messages : List Message := []
  artifacts : List Artifact := []
  artifactVersions : List ArtifactVersion := []
  userArtifactState : List UserArtifactState := []
  studySessionSnapshots : List StudySessionSnapshot := []
  shareLinks : List ShareLink := []
  researchRuns : List ResearchRunRow := []
  evidenceSnapshots : List EvidenceSnapshot := []
  jobs : List JobRow := []
  jobAttempts : List JobAttempt := []
  provenanceEdges : List ProvenanceEdge := []
  blobObjects : List BlobObject := []
  blobReferences : List BlobReference := []
  purgeTasks : List PurgeTask := []
  finals : List String := []

inductive PurgeError
  | noResultFound
  | restrict (table : String)
  | evidenceImmutable
  | check (name : String)
  deriving DecidableEq

/-! ## Foreign keys -/

/-- A pointer to one of `ids`. -/
def pointsInto {κ : Type} [DecidableEq κ] (ids : List κ) (pointer : Option κ) : Bool := pointer.any (· ∈ ids)

theorem pointsInto_nil {κ : Type} [DecidableEq κ] {pointer : Option κ} : pointsInto [] pointer = false := by
  cases pointer <;> rfl

/-- A node of one of the documents, or below one. -/
def nodeErased (nodes : List CanonicalNodeRow) (documentIds : List Uuid) : Nat → CanonicalNodeRow → Bool
  | 0, node => node.canonicalDocumentId ∈ documentIds
  | depth + 1, node => node.canonicalDocumentId ∈ documentIds ||
      nodes.any fun parent => node.parentNodeId = some parent.id && nodeErased nodes documentIds depth parent

namespace SourceDb

variable (db : SourceDb)

/-- The nodes that go with the documents. -/
def erasedNodes (documentIds : List Uuid) : List Uuid :=
  (db.canonicalNodes.filter (nodeErased db.canonicalNodes documentIds db.canonicalNodes.length)).map (·.id)

/-! ## Deletes -/

def deleteMessages (p : Message → Bool) : Nat × SourceDb :=
  (db.messages.countP p, { db with messages := deleteWhere p db.messages })

def deleteSnapshots (p : StudySessionSnapshot → Bool) : Nat × SourceDb :=
  (db.studySessionSnapshots.countP p, { db with studySessionSnapshots := deleteWhere p db.studySessionSnapshots })

/-- A snapshot was taken of one of the states. -/
def holdsState (p : UserArtifactState → Bool) : Bool :=
  db.studySessionSnapshots.any (·.sourceStateId ∈ (db.userArtifactState.filter p).map (·.id))

def deleteUserState (p : UserArtifactState → Bool) : Except PurgeError (Nat × SourceDb) :=
  if db.holdsState p then .error (.restrict "study_session_snapshots")
  else .ok (db.userArtifactState.countP p, { db with userArtifactState := deleteWhere p db.userArtifactState })

/-- Share links go too, and what points to a version no longer does. No state or
snapshot of one is left by then. -/
def deleteArtifactVersions (ids : List Uuid) : Nat × SourceDb :=
  (db.artifactVersions.countP (·.id ∈ ids), { db with
    artifactVersions := deleteWhere (·.id ∈ ids) db.artifactVersions
    shareLinks := deleteWhere (fun l => pointsInto ids l.artifactVersionId) db.shareLinks
    artifacts := update (fun a => pointsInto ids a.currentVersionId) (fun a => { a with currentVersionId := none })
      db.artifacts
    researchRuns := update (fun run => pointsInto ids run.reportArtifactVersionId)
      (fun run => { run with reportArtifactVersionId := none }) db.researchRuns })

/-- `_delete_orphan_artifacts`. -/
def deleteOrphanArtifacts : Nat × SourceDb :=
  let orphan (a : Artifact) := !db.artifactVersions.any (·.artifactId = a.id)
  (db.artifacts.countP orphan, { db with artifacts := deleteWhere orphan db.artifacts })

def deleteManifestItems (p : ManifestItem → Bool) : Nat × SourceDb :=
  (db.manifestItems.countP p, { db with manifestItems := deleteWhere p db.manifestItems })

/-- The items go too, and a child manifest loses its parent. No message or version
of one is left by then. -/
def deleteManifests (ids : List Uuid) : Nat × SourceDb :=
  (db.manifests.countP (·.id ∈ ids), { db with
    manifests := deleteWhere (·.id ∈ ids) (update (fun m => pointsInto ids m.parentManifestId)
      (fun m => { m with parentManifestId := none }) db.manifests)
    manifestItems := deleteWhere (·.manifestId ∈ ids) db.manifestItems })

def deleteGenerations (p : IndexGenerationRow → Bool) : Nat × SourceDb :=
  let ids := (db.indexGenerations.filter p).map (·.id)
  (db.indexGenerations.countP p, { db with
    indexGenerations := deleteWhere p db.indexGenerations
    indexChunks := deleteWhere (·.indexGenerationId ∈ ids) db.indexChunks })

def deleteJobs (p : JobRow → Bool) : Nat × SourceDb :=
  let ids := (db.jobs.filter p).map (·.id)
  (db.jobs.countP p, { db with
    jobs := deleteWhere p db.jobs
    jobAttempts := deleteWhere (·.jobId ∈ ids) db.jobAttempts })

def deleteEdges (p : ProvenanceEdge → Bool) : Nat × SourceDb :=
  (db.provenanceEdges.countP p, { db with provenanceEdges := deleteWhere p db.provenanceEdges })

/-- Nodes, their descendants, their locators and their chunks go too. -/
def deleteDocuments (ids : List Uuid) : Nat × SourceDb :=
  let nodeIds := db.erasedNodes ids
  (db.canonicalDocuments.countP (·.id ∈ ids), { db with
    canonicalDocuments := deleteWhere (·.id ∈ ids) db.canonicalDocuments
    canonicalNodes := deleteWhere (·.id ∈ nodeIds) db.canonicalNodes
    canonicalLocators := deleteWhere (·.canonicalNodeId ∈ nodeIds) db.canonicalLocators
    indexChunks := deleteWhere (fun c => c.canonicalDocumentId ∈ ids || c.canonicalNodeId ∈ nodeIds) db.indexChunks })

def deleteReferences (p : BlobReference → Bool) : Nat × SourceDb :=
  (db.blobReferences.countP p, { db with blobReferences := deleteWhere p db.blobReferences })

/-- References go too, and what points to an object no longer does; the guard of
the evidence snapshots lets no pointer of theirs be nulled. -/
def deleteBlobObjects (ids : List Nat) : Except PurgeError (Nat × SourceDb) :=
  if db.evidenceSnapshots.any (fun s => pointsInto ids s.blobId) then .error .evidenceImmutable
  else .ok (db.blobObjects.countP (·.id ∈ ids), { db with
    blobObjects := deleteWhere (·.id ∈ ids) db.blobObjects
    blobReferences := deleteWhere (·.blobId ∈ ids) db.blobReferences
    sourceVersions := update (fun v => pointsInto ids v.originalBlobId) (fun v => { v with originalBlobId := none })
      db.sourceVersions })

end SourceDb

end MilpbookLM
