/-
The build of a generation (`BuildSourceIndex.run`) and the job handler around it,
each a program over the calls of `IndexCall`: a run stops where a call raises, and
the handler then marks the generation failed. A crash is a program that makes no
further call.
-/
import MilpbookLM.Indexing.Generations

namespace MilpbookLM

open Interleave

abbrev IndexProgram (α : Type) := ExceptT IndexError (Prog IndexCall IndexAnswer) α

/-- The program that makes one call. -/
def IndexCall.perform (c : IndexCall) : IndexProgram (IndexResult c) := ExceptT.mk (Prog.perform c)

/-- `if condition: x`. -/
def IndexProgram.when (condition : Bool) (x : IndexProgram Unit) : IndexProgram Unit := if condition then x else pure ()

/-- `pending[start : start + batch_size]`, for each start of the range. -/
def batches {α : Type} (batchSize : Int) (pending : List α) : List (Nat × List α) :=
  if batchSize ≤ 0 then []
  else
    let size := batchSize.toNat
    (List.range ((pending.length + size - 1) / size)).map fun k =>
      (k * size, (pending.drop (k * size)).take size)

namespace BuildSourceIndex

variable (rt : Runtime)

/-- `report(..)`, where the run has a callback. -/
def report (progress : Bool) (phase : String) (done total : Nat) : IndexProgram Unit :=
  IndexProgram.when progress (IndexCall.report phase done total).perform

/-- One batch: `zip(batch, vectors, strict=True)` raises behind the pairs there are. -/
def embedBatch (generationId : Uuid) (dimension : Int) (batch : List Chunk) : IndexProgram Unit := do
  let vectors : List String ← (IndexCall.embed (batch.map (·.text)) dimension).perform
  (batch.zip vectors).forM fun pair => (IndexCall.setEmbedding generationId pair.1.chunkId pair.2).perform
  IndexProgram.when (batch.length ≠ vectors.length) (throw (.value "zip() arguments have different lengths"))

/-- The rows of the chunks that are not there yet. -/
def insertPending (identity : GenerationIdentity) (progress : Bool) (document : CanonicalDocument) (pending : List Chunk) :
    IndexProgram Unit :=
  IndexProgram.when (pending ≠ []) do
    let inserted : Nat ← (IndexCall.insertChunks identity.generationId document pending).perform
    report progress "lexical" inserted pending.length

/-- The vectors of the chunks that were not there, batch by batch. -/
def embedPending (identity : GenerationIdentity) (config : IndexBuildConfig) (progress : Bool) (pending : List Chunk) :
    IndexProgram Unit := do
  IndexProgram.when (config.embedding.batchSize = 0) (throw (.value "range() arg 3 must not be zero"))
  (batches config.embedding.batchSize pending).forM fun batch => do
    embedBatch identity.generationId config.embedding.dimension batch.2
    report progress "embedding" (batch.1 + batch.2.length) pending.length

/-- `run`. -/
def run (identity : GenerationIdentity) (config : IndexBuildConfig) (progress : Bool) : IndexProgram Nat := do
  let status : Option GenerationStatus ← (IndexCall.getStatus identity.generationId).perform
  if status = some .ready then (IndexCall.chunkCount identity.generationId).perform
  else
    IndexProgram.when (status = none || status = some .failed) (IndexCall.create identity config).perform
    let document : CanonicalDocument ← (IndexCall.load identity.canonicalDocumentId).perform
    IndexProgram.when (document.sourceVersionId ≠ identity.sourceVersionId)
      (throw (.indexGeneration "canonical document belongs to a different source version"))
    report progress "chunking" 0 1
    match rt.chunkDocument document config.profile with
    | none => throw (.value "chunker profile max_tokens must be >= 1")
    | some chunks =>
      let existing : List Uuid ← (IndexCall.existingChunkIds identity.generationId).perform
      let pending := chunks.filter (·.chunkId ∉ existing)
      insertPending identity progress document pending
      embedPending identity config progress pending
      (IndexCall.swapReady identity.generationId chunks.length).perform
      return chunks.length

end BuildSourceIndex

/-- The code a failure is recorded under. -/
def IndexError.failureCode : IndexError → String
  | .embeddingDimensionMismatch => "embedding_dimension_mismatch"
  | _ => "index_build_failed"

namespace SourceIndexHandler

/-- `_build_fail`: a failure to record it is only logged. -/
def buildFail (identity : GenerationIdentity) (errorCode : String) : IndexProgram Unit :=
  tryCatch (IndexCall.markFailed identity.generationId errorCode).perform fun _ => pure ()

/-- `run`, with the identity and the config of the job's payload. -/
def run (rt : Runtime) (identity : GenerationIdentity) (config : IndexBuildConfig) : IndexProgram Unit := do
  let chunkCount ← tryCatch (BuildSourceIndex.run rt identity config true) fun e => do
    buildFail identity e.failureCode
    throw e
  (IndexCall.report "ready" chunkCount chunkCount).perform

end SourceIndexHandler

/-! ## Processes -/

/-- What a process is asked to do. -/
inductive IndexRequest
  | handle (identity : GenerationIdentity) (config : IndexBuildConfig)
  | run (identity : GenerationIdentity) (config : IndexBuildConfig) (progress : Bool)
  | create (identity : GenerationIdentity) (config : IndexBuildConfig)
  | swapReady (generationId : Uuid) (chunkCount : Nat)
  | markFailed (generationId : Uuid) (errorCode : String)

def IndexRequest.program (rt : Runtime) : IndexRequest → IndexProgram Unit
  | .handle identity config => SourceIndexHandler.run rt identity config
  | .run identity config progress => do
    let _ ← BuildSourceIndex.run rt identity config progress
  | .create identity config => (IndexCall.create identity config).perform
  | .swapReady generationId chunkCount => (IndexCall.swapReady generationId chunkCount).perform
  | .markFailed generationId errorCode => (IndexCall.markFailed generationId errorCode).perform

abbrev IndexRun (P : Type) := Run P IndexCall IndexAnswer IndexWorld

abbrev IndexPool (P : Type) := Pool P IndexCall IndexAnswer IndexError IndexWorld

/-- Processes that do what `admits` allows, one request after another. -/
def indexMachine (rt : Runtime) (documents : Uuid → Option CanonicalDocument) (P : Type) (admits : IndexRequest → Prop) :
    Machine P IndexCall IndexAnswer IndexError IndexWorld IndexEnv { r // admits r } where
  exec c env := c.exec documents env
  start _ r := (r.1.program rt).run

/-! ## Rules -/

/-- The calls of one process, the latest first. -/
abbrev IndexHistory := List (Σ c, IndexAnswer c)

section Rules

variable {adm : (c : IndexCall) → IndexAnswer c → Prop} {ok : IndexHistory → IndexCall → Prop} {t : IndexHistory}

theorem IndexCall.ensures {c : IndexCall} {R : IndexResult c → IndexHistory → Prop} (hc : ok t c)
    (hR : ∀ a, adm c (.ok a) → R a (⟨c, .ok a⟩ :: t)) : Prog.Ensures adm ok c.perform R t :=
  ⟨hc, fun _ hr a ha => by cases ha; exact hR a hr⟩

theorem ensures_when {condition : Bool} {x : IndexProgram Unit} {R : IndexHistory → Prop}
    (hx : condition = true → Prog.Ensures adm ok x (fun _ => R) t) (hf : condition = false → R t) :
    Prog.Ensures adm ok (IndexProgram.when condition x) (fun _ => R) t := by
  cases condition with
  | false => exact Prog.ensures_pure (hf rfl)
  | true => exact hx rfl

theorem ensures_report {progress phase done total} (hok : ∀ t, ok t (.report phase done total)) :
    Prog.Ensures adm ok (BuildSourceIndex.report progress phase done total) (fun _ _ => True) t := by
  refine ensures_when (R := fun _ => True) (fun _ => ?_) fun _ => trivial
  exact IndexCall.ensures (c := .report phase done total) (hok t) fun _ _ => trivial

theorem buildFail_along {identity errorCode} {Q : Except IndexError Unit → IndexHistory → Prop}
    (hok : ∀ t, ok t (.markFailed identity.generationId errorCode)) (hQ : ∀ t, Q (.ok ()) t) :
    Prog.Along adm ok (SourceIndexHandler.buildFail identity errorCode).run Q t := by
  refine Prog.Along.guarded (x := (IndexCall.markFailed identity.generationId errorCode).perform) ⟨hok t, fun r _ => ?_⟩
  cases r with
  | ok => exact hQ _
  | error e => exact hQ _

end Rules

/-! ## Schedules -/

/-- Nothing indexed, nobody at work. -/
def idleIndex (P : Type) : IndexPool P := ⟨⟨{}, []⟩, fun _ => .ret (.ok ())⟩

def indexSchedule {P : Type} [DecidableEq P] (rt : Runtime) (documents : Uuid → Option CanonicalDocument)
    (admits : IndexRequest → Prop) (ms : List (Move P IndexEnv { r // admits r })) : IndexPool P :=
  ms.foldl (indexMachine rt documents P admits).move (idleIndex P)

theorem reach_indexSchedule {P : Type} [DecidableEq P] {rt : Runtime} {documents : Uuid → Option CanonicalDocument}
    {admits : IndexRequest → Prop} {cond : P → IndexCall → IndexEnv → IndexRun P → Prop}
    {ms : List (Move P IndexEnv { r // admits r })} (init : IndexWorld → Prop) (h0 : init {})
    (hm : (indexMachine rt documents P admits).Meets cond (idleIndex P) ms) :
    (indexMachine rt documents P admits).Reach init cond (indexSchedule rt documents admits ms) := by
  have hidle : (indexMachine rt documents P admits).Reach init cond (idleIndex P) := .start ⟨⟨h0, rfl⟩, fun _ => rfl⟩
  exact Machine.reach_moves hidle hm

/-- `n` calls of `p`. -/
def indexCalls {P S : Type} (p : P) (n : Nat) : List (Move P IndexEnv S) :=
  List.replicate n (.call p { vectors := ["[0.5]"] })

end MilpbookLM
