/-
`PgSourcePurge.erase`: one transaction that erases what was derived from a source
and marks the blobs left without a reference, the deletion of their files, and a
second transaction that deletes their rows. A transaction that fails changes
nothing.
-/
import MilpbookLM.Sources.Tables

namespace MilpbookLM

open Table

def purgeCaveat : String :=
  "Controlled copies were erased; data already transmitted to external services or " ++
    "independent manual copies with severed provenance cannot be recalled."

structure PurgeReport where
  taskId : Uuid
  sourceId : Uuid
  erased : List (String × Nat)
  caveat : String

/-- `payload["params"][key].astext`; no JSON value but a string has the text of a UUID. -/
def JobRow.paramText (job : JobRow) (key : String) : Option String :=
  ((job.payload.get "params").dict?.map (·.get key)).bind Json.str?

/-- `job_predicate`. -/
def JobRow.names (job : JobRow) (sourceId : Uuid) (versionIds : List Uuid) : Bool :=
  job.paramText "source_id" = some sourceId.str ||
    (job.paramText "source_version_id").any (· ∈ versionIds.map Uuid.str)

/-- `edge_filter`. -/
def ProvenanceEdge.touches (e : ProvenanceEdge) (sourceId : Uuid) (versionIds documentIds : List Uuid) : Bool :=
  e.fromId = sourceId || e.toId = sourceId || pointsInto versionIds e.fromVersionId ||
    pointsInto versionIds e.toVersionId || e.fromId ∈ documentIds || e.toId ∈ documentIds

/-- The reference of a source version. -/
def BlobReference.ofVersions (ref : BlobReference) (versionIds : List Uuid) : Bool :=
  ref.referrerKind = "source_version" && ref.referrerId ∈ versionIds

/-- The reference of an artifact version or of a rendition of one. -/
def BlobReference.ofArtifactVersions (ref : BlobReference) (artifactVersionIds : List Uuid) : Bool :=
  ref.referrerKind ∈ ["artifact_version", "artifact_rendition"] && ref.referrerId ∈ artifactVersionIds

namespace SourceDb

variable (db : SourceDb)

/-! ## Identity sets -/

def versionIds (sourceId : Uuid) : List Uuid := (db.sourceVersions.filter (·.sourceId = sourceId)).map (·.id)

def documentIds (versionIds : List Uuid) : List Uuid :=
  (db.canonicalDocuments.filter (·.sourceVersionId ∈ versionIds)).map (·.id)

/-- The item pins a version or a document of the source. -/
def pins (versionIds documentIds : List Uuid) (item : ManifestItem) : Bool :=
  item.itemKind = "source_version" && item.itemId ∈ versionIds ||
    item.itemKind = "canonical_document" && item.itemId ∈ documentIds

def manifestIds (versionIds documentIds : List Uuid) : List Uuid :=
  ((db.manifestItems.filter (pins versionIds documentIds)).map (·.manifestId)).dedup

/-- `_identity_sets`. -/
def identitySets (sourceId : Uuid) : List Uuid × List Uuid :=
  (db.versionIds sourceId, db.manifestIds (db.versionIds sourceId) (db.documentIds (db.versionIds sourceId)))

def artifactVersionIds (manifestIds : List Uuid) : List Uuid :=
  (db.artifactVersions.filter (·.manifestId ∈ manifestIds)).map (·.id)

/-! ## Updates -/

def startTask (taskId : Uuid) (now : Time) : SourceDb :=
  { db with
    purgeTasks := update (·.id = taskId)
      (fun t => { t with status := .running, startedAt := some (t.startedAt.getD now) }) db.purgeTasks }

def setProgress (taskId : Uuid) (progress : PurgeProgress) : SourceDb :=
  { db with purgeTasks := update (·.id = taskId) (fun t => { t with progress := some progress }) db.purgeTasks }

/-- A task does not finish before it started. -/
def finishTask (taskId : Uuid) (progress : PurgeProgress) (now : Time) : Except PurgeError SourceDb :=
  if db.purgeTasks.any fun t => t.id = taskId && t.startedAt.any (now < ·) then .error (.check "ck_purge_tasks_order")
  else .ok { db with
    purgeTasks := update (·.id = taskId)
      (fun t => { t with status := .completed, progress := some progress, finishedAt := some now }) db.purgeTasks }

/-- The versions stay, without their content. -/
def blankVersions (versionIds : List Uuid) : SourceDb :=
  { db with
    sourceVersions := update (·.id ∈ versionIds)
      (fun v => { v with originalBlobId := none, contentSha256 := "purged:" ++ v.id.str, contentSizeBytes := none })
      db.sourceVersions }

/-- Those of the objects that have no reference. -/
def unreferenced (blobIds : List Nat) : List BlobObject :=
  db.blobObjects.filter fun o => o.id ∈ blobIds && !db.blobReferences.any (·.blobId = o.id)

def markPurged (ids : List Nat) : SourceDb :=
  { db with
    blobObjects := update (·.id ∈ ids) (fun o => { o with state := .purged, finalizedAt := none }) db.blobObjects }

/-! ## Erase -/

/-- What the transaction has erased so far, by table. -/
abbrev Erased := List (String × Nat)

/-- What was generated from the manifests, and the manifests. An empty set of ids deletes nothing. -/
def eraseOutputs (manifestIds artifactVersionIds : List Uuid) : Except PurgeError (Erased × SourceDb) := do
  let (messages, db) := db.deleteMessages (·.manifestId ∈ manifestIds)
  let (snapshots, db) := db.deleteSnapshots (·.artifactVersionId ∈ artifactVersionIds)
  let (states, db) ← db.deleteUserState (·.artifactVersionId ∈ artifactVersionIds)
  let (versions, db) := db.deleteArtifactVersions artifactVersionIds
  let (artifacts, db) := db.deleteOrphanArtifacts
  let (items, db) := db.deleteManifestItems (·.manifestId ∈ manifestIds)
  let (manifests, db) := db.deleteManifests manifestIds
  return ([("messages", messages), ("study_session_snapshots", snapshots), ("user_artifact_state", states),
    ("artifact_versions", versions), ("artifacts", artifacts), ("manifest_items", items), ("manifests", manifests)], db)

/-- The index, the jobs, the edges and the documents of the source. -/
def eraseInputs (sourceId : Uuid) (versionIds documentIds : List Uuid) : Erased × SourceDb :=
  let (generations, db) := db.deleteGenerations (·.sourceId = sourceId)
  let (jobs, db) := db.deleteJobs (·.names sourceId versionIds)
  let (edges, db) := db.deleteEdges (·.touches sourceId versionIds documentIds)
  let (documents, db) := db.deleteDocuments documentIds
  ([("index_generations", generations), ("jobs", jobs), ("provenance_edges", edges),
    ("canonical_documents", documents)], db)

/-- The references, and the objects they leave without one. -/
def eraseReferences (versionIds artifactVersionIds : List Uuid) : Erased × List BlobObject × SourceDb :=
  let sourceBlobIds := (db.blobReferences.filter (·.ofVersions versionIds)).map (·.blobId)
  let artifactBlobIds := (db.blobReferences.filter (·.ofArtifactVersions artifactVersionIds)).map (·.blobId)
  let (references, db) := db.deleteReferences (·.ofVersions versionIds)
  let (artifactReferences, db) := db.deleteReferences (·.ofArtifactVersions artifactVersionIds)
  let db := db.blankVersions versionIds
  let unreferenced := db.unreferenced (sourceBlobIds ++ artifactBlobIds)
  ([("blob_references", references), ("artifact_blob_references", artifactReferences)], unreferenced,
    db.markPurged (unreferenced.map (·.id)))

/-- Everything derived from the source, by its identity sets. -/
def eraseClosure (sourceId : Uuid) : Except PurgeError (Erased × List BlobObject × SourceDb) := do
  let (versionIds, manifestIds) := db.identitySets sourceId
  let documentIds := db.documentIds versionIds
  let artifactVersionIds := db.artifactVersionIds manifestIds
  let (outputs, db) ← db.eraseOutputs manifestIds artifactVersionIds
  let (inputs, db) := db.eraseInputs sourceId versionIds documentIds
  let (references, unreferenced, db) := db.eraseReferences versionIds artifactVersionIds
  return (outputs ++ inputs ++ references, unreferenced, db)

/-- What the first transaction leaves to do. -/
structure Erasing where
  sourceId : Uuid
  erased : Erased
  unreferenced : List BlobObject

/-- The first transaction. -/
def eraseDerivatives (taskId : Uuid) (now : Time) : Except PurgeError (Erasing × SourceDb) :=
  match db.purgeTasks.find? (·.id = taskId) with
  | none => throw .noResultFound
  | some task => do
    let (erased, unreferenced, db) ← (db.startTask taskId now).eraseClosure task.subjectId
    return (⟨task.subjectId, erased, unreferenced⟩, db.setProgress taskId ⟨"erasing_blobs", erased, purgeCaveat⟩)

/-- `delete_final` of each. -/
def deleteFinals (objects : List BlobObject) : SourceDb :=
  { db with finals := deleteWhere (· ∈ objects.map (·.contentSha256)) db.finals }

/-- The second transaction. -/
def eraseObjects (taskId : Uuid) (erasing : Erasing) (now : Time) : Except PurgeError (PurgeReport × SourceDb) := do
  let (objects, db) ← db.deleteBlobObjects (erasing.unreferenced.map (·.id))
  let erased := erasing.erased ++ [("blob_objects", objects)]
  let db ← db.finishTask taskId ⟨"completed", erased, purgeCaveat⟩ now
  return (⟨taskId, erasing.sourceId, erased, purgeCaveat⟩, db)

/-- `erase`, its two transactions at `now` and `now'`. -/
def erase (taskId : Uuid) (now now' : Time) : Except PurgeError PurgeReport × SourceDb :=
  match db.eraseDerivatives taskId now with
  | .error e => (.error e, db)
  | .ok (erasing, db) =>
    let db := db.deleteFinals erasing.unreferenced
    match db.eraseObjects taskId erasing now' with
    | .error e => (.error e, db)
    | .ok (report, db) => (.ok report, db)

end SourceDb

end MilpbookLM
