/-
What is made of sources, as rows and the ids they record: documents and index
generations of a version, the manifests of chat turns and artifacts with the items
they pin, messages, note revisions with their references, published artifact
versions with their renditions, provenance edges. `LibraryCall.exec` is the rows
each use case leaves; what a query selects and what a model generates is given.
-/
import MilpbookLM.Documents.Persistence
import MilpbookLM.Sources.PurgeResume

namespace MilpbookLM

open Table

/-! ## Rows -/

inductive ContentKind
  | sourceVersion | canonicalDocument | noteRevision | artifactVersion | studySessionSnapshot | message
  | evidenceSnapshot
  deriving DecidableEq

def ContentKind.value : ContentKind → String
  | sourceVersion => "source_version"
  | canonicalDocument => "canonical_document"
  | noteRevision => "note_revision"
  | artifactVersion => "artifact_version"
  | studySessionSnapshot => "study_session_snapshot"
  | message => "message"
  | evidenceSnapshot => "evidence_snapshot"

structure ContentRef where
  kind : ContentKind
  id : Uuid
  deriving DecidableEq

structure NoteRevision where
  id : Uuid
  noteId : Uuid
  provenanceRefs : List ContentRef := []
  contentDependencies : List ContentRef := []
  deriving DecidableEq

/-- A row of artifact_versions with the blobs of its renditions. -/
structure PublishedVersion extends ArtifactVersion where
  renderedBlobIds : List Nat
  deriving DecidableEq

/-- A row of provenance_edges with its types. -/
structure TypedEdge extends ProvenanceEdge where
  fromType : String
  edgeType : String
  toType : String
  deriving DecidableEq

/-- The tables; artifact versions and edges are here, and not in `tables`. -/
structure Library where
  tables : SourceDb := {}
  artifactVersions : List PublishedVersion := []
  edges : List TypedEdge := []
  noteRevisions : List NoteRevision := []

inductive LibraryError
  | noteSelection (revisionIds : List Uuid)
  | grounding (message : String)
  | constraint (name : String)
  deriving DecidableEq

/-- The inputs and the lineage of an artifact version. -/
structure ArtifactRequest where
  sourceVersionIds : List Uuid
  noteRevisionIds : List Uuid
  parentManifestId : Option Uuid := none

/-- The id of a blob, where a provenance edge has it. -/
def blobUuid (blobId : Nat) : Uuid := BitVec.ofNat 128 blobId

namespace Library

variable (w : Library)

/-- The tables a purge works on. -/
def db : SourceDb :=
  { w.tables with
    artifactVersions := w.artifactVersions.map (·.toArtifactVersion)
    provenanceEdges := w.edges.map (·.toProvenanceEdge) }

/-- `uuid4()`: the id is no version's, and no manifest pins it. -/
def unusedVersion (versionId : Uuid) : Bool :=
  !w.tables.sourceVersions.any (·.id = versionId) && !w.tables.manifestItems.any (·.itemId = versionId)

/-! ## Sources -/

/-- `BlobStore.put` with a referrer: bytes that are stored already keep their row. -/
def putBlob (blob : BlobObject) (referrerKind : String) (referrerId : Uuid) : Library :=
  let ref : BlobReference := ⟨blob.id, referrerKind, referrerId⟩
  { w with
    tables := { w.tables with
      blobObjects :=
        if w.tables.blobObjects.any (·.id = blob.id) then w.tables.blobObjects else w.tables.blobObjects ++ [blob]
      finals :=
        if blob.contentSha256 ∈ w.tables.finals then w.tables.finals else w.tables.finals ++ [blob.contentSha256]
      blobReferences :=
        if ref ∈ w.tables.blobReferences then w.tables.blobReferences else w.tables.blobReferences ++ [ref] } }

/-- The version row of an acquisition or a refresh, and its blob. -/
def acquire (sourceId versionId : Uuid) (blob : BlobObject) : Except LibraryError Library :=
  if !w.unusedVersion versionId then .error (.constraint "source_versions_pkey")
  else
    let version : SourceVersion := ⟨versionId, sourceId, some blob.id, blob.contentSha256, some blob.sizeBytes⟩
    let w := { w with tables := { w.tables with sourceVersions := w.tables.sourceVersions ++ [version] } }
    .ok (w.putBlob blob "source_version" versionId)

/-- The rows of a parsed document; one that is stored already is left as it is. -/
def parse (rt : Runtime) (document : CanonicalDocument) : Except LibraryError Library :=
  if w.tables.canonicalDocuments.any (·.id = document.documentId) then .ok w
  else if document.nodes.any fun n => w.tables.canonicalNodes.any (·.id = n.nodeId) then
    .error (.constraint "canonical_nodes_pkey")
  else .ok { w with
    tables := { w.tables with
      canonicalDocuments := w.tables.canonicalDocuments ++ [⟨document.documentId, document.sourceVersionId⟩]
      canonicalNodes := w.tables.canonicalNodes ++
        document.nodes.map fun n => (n.row document.documentId 0).toCanonicalNodeRow
      canonicalLocators := w.tables.canonicalLocators ++
        document.nodes.map fun n => (rt.locatorRow n).toCanonicalLocatorRow } }

/-- The generation of a document's version and source, with a chunk for each of the nodes. -/
def index (generationId documentId : Uuid) (chunks : List (Uuid × Uuid)) : Except LibraryError Library :=
  match w.tables.canonicalDocuments.find? (·.id = documentId) with
  | none => .error (.constraint "canonical_document_missing")
  | some document =>
    match w.tables.sourceVersions.find? (·.id = document.sourceVersionId) with
    | none => .error (.constraint "source_versions_fkey")
    | some version =>
      if w.tables.indexGenerations.any (·.id = generationId) then .ok w
      else .ok { w with
        tables := { w.tables with
          indexGenerations := w.tables.indexGenerations ++ [⟨generationId, version.sourceId⟩]
          indexChunks := w.tables.indexChunks ++ chunks.map fun c => ⟨c.1, generationId, documentId, c.2⟩ } }

/-- An edge under a new id; one of the same ends is there once. -/
def insertEdge (edge : TypedEdge) : Library :=
  if w.edges.any fun e => e.fromType = edge.fromType && e.fromId = edge.fromId && e.edgeType = edge.edgeType &&
      e.toType = edge.toType && e.toId = edge.toId then w
  else { w with edges := w.edges ++ [edge] }

def edge (id : Uuid) (fromType : String) (fromId : Uuid) (edgeType toType : String) (toId : Uuid) : TypedEdge :=
  ⟨⟨id, fromId, none, toId, none⟩, fromType, edgeType, toType⟩

/-- `insert_activation_edges`, of the version with the document that an activation found. -/
def activate (versionId documentId : Uuid) (edgeIds : Uuid × Uuid × Uuid) : Except LibraryError Library :=
  match w.tables.sourceVersions.find? (·.id = versionId),
    w.tables.canonicalDocuments.find? (fun d => d.id = documentId && d.sourceVersionId = versionId) with
  | some version, some document =>
    let w := w.insertEdge (edge edgeIds.1 "source" version.sourceId "contains" "source_version" version.id)
    let w := match version.originalBlobId with
      | none => w
      | some blobId =>
        w.insertEdge (edge edgeIds.2.1 "source_version" version.id "derived_from" "blob" (blobUuid blobId))
    .ok (w.insertEdge (edge edgeIds.2.2 "canonical_document" document.id "generated_from" "source_version" version.id))
  | _, _ => .ok w

/-! ## Manifests -/

/-- A manifest that pins versions and note revisions. -/
def freeze (manifestId : Uuid) (parentManifestId : Option Uuid) (sourceVersionIds noteRevisionIds : List Uuid) :
    Except LibraryError Library :=
  if w.tables.manifests.any (·.id = manifestId) then .error (.constraint "generation_input_manifests_pkey")
  else .ok { w with
    tables := { w.tables with
      manifests := w.tables.manifests ++ [⟨manifestId, parentManifestId⟩]
      manifestItems := w.tables.manifestItems ++
        sourceVersionIds.map (⟨manifestId, ContentKind.sourceVersion.value, ·⟩) ++
        noteRevisionIds.map (⟨manifestId, ContentKind.noteRevision.value, ·⟩) } }

/-- `freeze` of a grounded turn: the versions and note revisions that were selected. -/
def freezeGrounding (manifestId : Uuid) (sourceVersionIds noteRevisionIds : List Uuid) : Except LibraryError Library :=
  if noteRevisionIds.any fun id => !w.noteRevisions.any (·.id = id) then
    .error (.grounding "one or more selected note revisions are unavailable")
  else w.freeze manifestId none sourceVersionIds noteRevisionIds

/-- `publish` and `abstain`: the assistant's message. -/
def answer (messageId manifestId : Uuid) : Except LibraryError Library :=
  if w.tables.messages.any (·.id = messageId) then .error (.constraint "messages_pkey")
  else if !w.tables.manifests.any (·.id = manifestId) then .error (.constraint "messages_manifest_id_fkey")
  else .ok { w with tables := { w.tables with messages := w.tables.messages ++ [⟨messageId, manifestId⟩] } }

/-! ## Notes -/

/-- `_new_snapshot` and `_revision`: the revision with the references it is given. -/
def addRevision (revisionId noteId : Uuid) (refs : List ContentRef) : Except LibraryError Library :=
  if w.noteRevisions.any (·.id = revisionId) then .error (.constraint "note_revisions_pkey")
  else .ok { w with noteRevisions := w.noteRevisions ++ [⟨revisionId, noteId, refs, refs⟩] }

/-- `SaveResponseToNote`: no response, no note. -/
def saveResponse (messageId revisionId noteId : Uuid) : Except LibraryError Library :=
  match w.tables.messages.find? (·.id = messageId) with
  | none => .ok w
  | some message => w.addRevision revisionId noteId [⟨.message, message.id⟩]

/-- `TransformNotes`. -/
def transform (revisionIds : List Uuid) (revisionId noteId : Uuid) : Except LibraryError Library :=
  if revisionIds = [] ∨ ¬ revisionIds.Nodup ∨ (revisionIds.any fun id => !w.noteRevisions.any (·.id = id)) = true then
    .error (.noteSelection revisionIds)
  else w.addRevision revisionId noteId (revisionIds.map (⟨.noteRevision, ·⟩))

/-- `PromoteNoteToSource`; an origin that is acquired already has its version, `known`. -/
def promote (selectedId sourceId versionId : Uuid) (known : Bool) (blob : BlobObject) (edgeId : Uuid) :
    Except LibraryError Library :=
  if !w.noteRevisions.any (·.id = selectedId) then .error (.noteSelection [selectedId])
  else (if known then .ok w else w.acquire sourceId versionId blob).map
    (·.insertEdge (edge edgeId "source_version" versionId "derived_from" "note_revision" selectedId))

/-! ## Artifacts -/

/-- `_store_renditions`: each under the artifact's id, as if that were a version's. -/
def storeRenditions (renditions : List BlobObject) (artifactId : Uuid) : Library :=
  renditions.foldl (fun w blob => w.putBlob blob "artifact_version" artifactId) w

/-- The artifact's row, with its current version. -/
def setCurrent (artifactId versionId : Uuid) : List Artifact :=
  if w.tables.artifacts.any (·.id = artifactId) then
    update (·.id = artifactId) (fun a => { a with currentVersionId := some versionId }) w.tables.artifacts
  else w.tables.artifacts ++ [⟨artifactId, some versionId⟩]

/-- `_publish`: a version on its manifest, with the renditions that were stored for it. -/
def publishVersion (artifactId manifestId versionId : Uuid) (renderedBlobIds : List Nat) :
    Except LibraryError Library :=
  if w.artifactVersions.any (·.id = versionId) then .error (.constraint "artifact_versions_pkey")
  else if !w.tables.manifests.any (·.id = manifestId) then .error (.constraint "artifact_versions_manifest_id_fkey")
  else .ok { w with
    tables := { w.tables with artifacts := w.setCurrent artifactId versionId }
    artifactVersions := w.artifactVersions ++ [⟨⟨versionId, artifactId, manifestId⟩, renderedBlobIds⟩] }

end Library

inductive LibraryCall
  | acquire (sourceId versionId : Uuid) (blob : BlobObject)
  | parse (document : CanonicalDocument)
  | index (generationId documentId : Uuid) (chunks : List (Uuid × Uuid))
  | activate (versionId documentId : Uuid) (edgeIds : Uuid × Uuid × Uuid)
  | freezeGrounding (manifestId : Uuid) (sourceVersionIds noteRevisionIds : List Uuid)
  | answer (messageId manifestId : Uuid)
  | editNote (revisionId noteId : Uuid)
  | saveResponse (messageId revisionId noteId : Uuid)
  | transform (revisionIds : List Uuid) (revisionId noteId : Uuid)
  | promote (selectedId sourceId versionId : Uuid) (known : Bool) (blob : BlobObject) (edgeId : Uuid)
  | freezeRequest (manifestId : Uuid) (request : ArtifactRequest)
  | storeRenditions (renditions : List BlobObject) (artifactId : Uuid)
  | publishVersion (artifactId manifestId versionId : Uuid) (renderedBlobIds : List Nat)

/-- What a call leaves. A note's first revision and an edit's record no reference. -/
def LibraryCall.exec (rt : Runtime) (w : Library) : LibraryCall → Except LibraryError Library
  | acquire sourceId versionId blob => w.acquire sourceId versionId blob
  | parse document => w.parse rt document
  | index generationId documentId chunks => w.index generationId documentId chunks
  | activate versionId documentId edgeIds => w.activate versionId documentId edgeIds
  | freezeGrounding manifestId sources notes => w.freezeGrounding manifestId sources notes
  | answer messageId manifestId => w.answer messageId manifestId
  | editNote revisionId noteId => w.addRevision revisionId noteId []
  | saveResponse messageId revisionId noteId => w.saveResponse messageId revisionId noteId
  | transform revisionIds revisionId noteId => w.transform revisionIds revisionId noteId
  | promote selectedId sourceId versionId known blob edgeId =>
    w.promote selectedId sourceId versionId known blob edgeId
  | freezeRequest manifestId request =>
    w.freeze manifestId request.parentManifestId request.sourceVersionIds request.noteRevisionIds
  | storeRenditions renditions artifactId => .ok (w.storeRenditions renditions artifactId)
  | publishVersion artifactId manifestId versionId renderedBlobIds =>
    w.publishVersion artifactId manifestId versionId renderedBlobIds

end MilpbookLM
