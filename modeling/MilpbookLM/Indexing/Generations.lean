/-
The index generations of source versions and their chunk rows, and the calls that
the index pipeline makes on them (`IndexCall.exec`). Each call is one transaction,
or one request to the embedding endpoint. The environment decides which calls raise,
and with what; a call that raises has no effect. Canonical documents never change,
so they are given.
-/
import MilpbookLM.Documents.Chunking
import MilpbookLM.Lib.Interleave
import MilpbookLM.Sources.Tables

namespace MilpbookLM

open Interleave

/-! ## Configuration and identity -/

structure EmbeddingSpec where
  model : String
  modelRef : Option String
  dimension : Int
  normalization : String
  batchSize : Int := 32

structure IndexBuildConfig where
  profile : ChunkerProfile
  embedding : EmbeddingSpec
  fusionConfigVersion : String := "rrf-v1"
  rerankerConfigVersion : Option String := none

structure GenerationIdentity where
  generationId : Uuid
  notebookId : Uuid
  sourceId : Uuid
  sourceVersionId : Uuid
  canonicalDocumentId : Uuid

/-- `generation_id_for`; the namespace is GENERATION_NAMESPACE. -/
def Runtime.generationIdFor (rt : Runtime) (generationNamespace sourceVersionId : Uuid) (model : String)
    (dimension : Int) (profileRevision : String) : Uuid :=
  rt.uuid5 generationNamespace
    ("index:" ++ sourceVersionId.str ++ ":" ++ model ++ ":" ++ toString dimension ++ ":" ++ profileRevision)

/-! ## Rows -/

inductive GenerationStatus
  | building | ready | superseded | stale | failed
  deriving DecidableEq

structure IndexGeneration extends IndexGenerationRow where
  notebookId : Uuid
  sourceVersionId : Uuid
  chunkerProfile : String
  chunkerRevision : String
  embeddingModel : String
  embeddingModelRef : Option String
  embeddingDimension : Int
  embeddingNormalization : String
  fusionConfigVersion : String
  rerankerConfigVersion : Option String
  status : GenerationStatus := .building
  errorCode : Option String := none
  chunkCount : Nat := 0
  deriving DecidableEq

/-- A row of index_chunks; the embedding is in its text form. -/
structure IndexChunk extends IndexChunkRow where
  notebookId : Uuid
  sourceId : Uuid
  sourceVersionId : Uuid
  charStart : Nat
  charEnd : Nat
  language : String
  chunkerRevision : String
  tokenCount : Nat
  textChecksum : String
  text : Text
  sectionAncestry : List Uuid
  nodeSpans : List NodeSpan
  prevChunkId : Option Uuid
  nextChunkId : Option Uuid
  embedding : Option String := none
  deriving DecidableEq

structure IndexWorld where
  generations : List IndexGeneration := []
  chunks : List IndexChunk := []

inductive IndexError
  | database
  | embeddingProvider
  | embeddingDimensionMismatch
  | indexGeneration (message : String)
  | lookup (message : String)
  | noResultFound
  | canonicalDocumentMissing
  | value (message : String)
  deriving DecidableEq

/-! ## Calls -/

inductive IndexCall
  | getStatus (generationId : Uuid)
  | create (identity : GenerationIdentity) (config : IndexBuildConfig)
  | swapReady (generationId : Uuid) (chunkCount : Nat)
  | markFailed (generationId : Uuid) (errorCode : String)
  | existingChunkIds (generationId : Uuid)
  /-- The same query where `run` answers with the number of the rows (`_chunk_count`). -/
  | chunkCount (generationId : Uuid)
  | insertChunks (generationId : Uuid) (document : CanonicalDocument) (chunks : List Chunk)
  | setEmbedding (generationId chunkId : Uuid) (vectorText : String)
  | load (documentId : Uuid)
  | embed (texts : List Text) (expectedDimension : Int)
  | report (phase : String) (done total : Nat)

/-- What a call returns. -/
def IndexResult : IndexCall → Type
  | .getStatus _ => Option GenerationStatus
  | .existingChunkIds _ => List Uuid
  | .chunkCount _ => Nat
  | .insertChunks .. => Nat
  | .load _ => CanonicalDocument
  | .embed .. => List String
  | _ => Unit

/-- What a call comes to: it returns, or raises. -/
abbrev IndexAnswer (c : IndexCall) : Type := Except IndexError (IndexResult c)

/-- Whether the call raises, and the vectors that the endpoint answers with. -/
structure IndexEnv where
  raises : Option IndexError := none
  vectors : List String := []

namespace IndexWorld

variable (w : IndexWorld)

def generation? (generationId : Uuid) : Option IndexGeneration :=
  Table.lookup (fun g : IndexGeneration => g.id) w.generations generationId

/-- The ids of the chunks of a generation. -/
def chunkIds (generationId : Uuid) : List Uuid :=
  (w.chunks.filter (·.indexGenerationId = generationId)).map (·.id)

def newGeneration (identity : GenerationIdentity) (config : IndexBuildConfig) : IndexGeneration where
  id := identity.generationId
  notebookId := identity.notebookId
  sourceId := identity.sourceId
  sourceVersionId := identity.sourceVersionId
  chunkerProfile := config.profile.name
  chunkerRevision := config.profile.revision
  embeddingModel := config.embedding.model
  embeddingModelRef := config.embedding.modelRef
  embeddingDimension := config.embedding.dimension
  embeddingNormalization := config.embedding.normalization
  fusionConfigVersion := config.fusionConfigVersion
  rerankerConfigVersion := config.rerankerConfigVersion

/-- `create`: inserted `on_conflict_do_nothing`, and a failed one is building again. -/
def create (identity : GenerationIdentity) (config : IndexBuildConfig) : IndexWorld :=
  let generations :=
    if w.generations.any (·.id = identity.generationId) then w.generations
    else w.generations ++ [newGeneration identity config]
  { w with
    generations := Table.update (fun g => g.id = identity.generationId && g.status = .failed)
      (fun g => { g with status := .building, errorCode := none }) generations }

/-- `swap_ready`: the other ready ones of the version are superseded, and this one
is ready if it was building. -/
def swapReady (generationId : Uuid) (chunkCount : Nat) : Except IndexError Unit × IndexWorld :=
  match w.generation? generationId with
  | none => (.error (.lookup ("unknown index generation: " ++ generationId.str)), w)
  | some generation =>
    let superseded := Table.update
      (fun g => g.sourceVersionId = generation.sourceVersionId && g.status = .ready && g.id ≠ generationId)
      (fun g => { g with status := .superseded }) w.generations
    (.ok (), { w with
      generations := Table.update (fun g => g.id = generationId && g.status = .building)
        (fun g => { g with status := .ready, chunkCount, errorCode := none }) superseded })

/-- `mark_failed`. -/
def markFailed (generationId : Uuid) (errorCode : String) : IndexWorld :=
  { w with
    generations := Table.update (·.id = generationId)
      (fun g => { g with status := .failed, errorCode := some errorCode }) w.generations }

/-- The row of a chunk. -/
def chunkRow (generation : IndexGeneration) (document : CanonicalDocument) (chunk : Chunk) : IndexChunk where
  id := chunk.chunkId
  indexGenerationId := generation.id
  notebookId := generation.notebookId
  sourceId := generation.sourceId
  sourceVersionId := generation.sourceVersionId
  canonicalDocumentId := document.documentId
  canonicalNodeId := chunk.nodeId
  charStart := chunk.charStart
  charEnd := chunk.charEnd
  language := chunk.language
  chunkerRevision := generation.chunkerRevision
  tokenCount := chunk.tokenCount
  textChecksum := chunk.textChecksum
  text := chunk.text
  sectionAncestry := chunk.sectionAncestry
  nodeSpans := chunk.nodeSpans
  prevChunkId := chunk.prevChunkId
  nextChunkId := chunk.nextChunkId

/-- `ON CONFLICT (index_generation_id, id) DO NOTHING`. -/
def addRow (rows : List IndexChunk) (row : IndexChunk) : List IndexChunk :=
  if rows.any fun r => r.indexGenerationId = row.indexGenerationId && r.id = row.id then rows else rows ++ [row]

/-- `insert_chunks`. -/
def insertChunks (generationId : Uuid) (document : CanonicalDocument) (chunks : List Chunk) :
    Except IndexError Nat × IndexWorld :=
  if chunks = [] then (.ok 0, w)
  else match w.generation? generationId with
  | none => (.error .noResultFound, w)
  | some generation =>
    let rows := (chunks.map (chunkRow generation document)).foldl addRow w.chunks
    (.ok (rows.length - w.chunks.length), { w with chunks := rows })

/-- `set_embedding`. -/
def setEmbedding (generationId chunkId : Uuid) (vectorText : String) : IndexWorld :=
  { w with
    chunks := Table.update (fun r => r.id = chunkId && r.indexGenerationId = generationId)
      (fun r => { r with embedding := some vectorText }) w.chunks }

end IndexWorld

/-- What each call does. -/
def IndexCall.effect (documents : Uuid → Option CanonicalDocument) (vectors : List String) :
    (c : IndexCall) → IndexWorld → IndexAnswer c × IndexWorld
  | .getStatus id, w => (.ok ((w.generation? id).map (·.status)), w)
  | .create identity config, w => (.ok (), w.create identity config)
  | .swapReady id count, w => w.swapReady id count
  | .markFailed id errorCode, w => (.ok (), w.markFailed id errorCode)
  | .existingChunkIds id, w => (.ok (w.chunkIds id), w)
  | .chunkCount id, w => (.ok (w.chunkIds id).length, w)
  | .insertChunks id document chunks, w => w.insertChunks id document chunks
  | .setEmbedding id chunkId vectorText, w => (.ok (), w.setEmbedding id chunkId vectorText)
  | .load id, w =>
    (match documents id with
      | some document => .ok document
      | none => .error .canonicalDocumentMissing, w)
  | .embed .., w => (.ok vectors, w)
  | .report .., w => (.ok (), w)

/-- A call that raises has no effect. -/
def IndexCall.exec (documents : Uuid → Option CanonicalDocument) (env : IndexEnv) (c : IndexCall) (w : IndexWorld) :
    IndexAnswer c × IndexWorld :=
  match env.raises with
  | some e => (.error e, w)
  | none => c.effect documents env.vectors w

section

variable {documents : Uuid → Option CanonicalDocument} {env : IndexEnv} {c : IndexCall} {w : IndexWorld}

theorem IndexCall.exec_raises {e} (h : env.raises = some e) : c.exec documents env w = (.error e, w) := by
  simp only [IndexCall.exec, h]

theorem IndexCall.exec_returns (h : env.raises = none) :
    c.exec documents env w = c.effect documents env.vectors w := by
  simp only [IndexCall.exec, h]

theorem IndexCall.exec_ok {a : IndexResult c} (h : .ok a = (c.exec documents env w).1) :
    env.raises = none ∧ .ok a = (c.effect documents env.vectors w).1 := by
  cases hr : env.raises with
  | some e =>
    rw [IndexCall.exec_raises hr] at h
    cases h
  | none =>
    rw [IndexCall.exec_returns hr] at h
    exact ⟨rfl, h⟩

end

end MilpbookLM
