/-
The use cases on one artifact (`artifact_lifecycle`), programs over the calls of its
store: a generation pass (`GenerateArtifact`, `EditArtifact`, `RegenerateArtifact`, which
share the pipeline), `CancelArtifact` and `MarkOutOfDate`. A recipe and a blob store are
called between two transactions; what they return or raise is given with the services.
-/
import MilpbookLM.Studio.Artifacts

namespace MilpbookLM.Studio

open Interleave

abbrev ArtifactProgram (α : Type) := ExceptT ArtifactError (Prog ArtifactCall ArtifactAnswer) α

/-- The program that makes one call. -/
def ArtifactCall.perform (c : ArtifactCall) : ArtifactProgram (ArtifactResult c) := ExceptT.mk (Prog.perform c)

/-- What a recipe or a blob store returns or raises. -/
def ofExcept {α : Type} (x : Except ArtifactError α) : ArtifactProgram α := ExceptT.mk (pure x)

/-- The recipes, and the blob store if one is wired: what its k-th put of a pass answers. -/
structure ArtifactServices where
  recipes : ArtifactType → Option ArtifactRecipe
  blobs : Option (Nat → Rendition → Except ArtifactError Uuid)

structure GenerationResult where
  artifact : ArtifactView
  version : Option ArtifactVersionView
  conflict : Bool
  validationProblems : List String := []

/-! ## The pipeline -/

def configSnapshot (recipe : ArtifactRecipe) (request : ArtifactRequest) : Dict :=
  [("title", .str request.title),
    ("instructions", request.instructions.elim .null .str),
    ("recipe", .str recipe.recipeId),
    ("recipe_version", .str recipe.recipeVersion),
    ("base_version_number", request.baseVersionNumber.elim .null fun n => .int n)]

def modelMetadata (recipe : ArtifactRecipe) : Dict :=
  [("provider_calls", .arr []),
    ("safety_status", .str "safe"),
    ("effective_restrictions", .obj []),
    ("generation_parameters",
      .obj [("recipe", .str recipe.recipeId), ("recipe_version", .str recipe.recipeVersion)])]

/-- `_resolve_parent`. -/
def resolveParent (artifactId : Uuid) (request : ArtifactRequest) : ArtifactProgram (Option Uuid) :=
  match request.baseVersionNumber with
  | none => return none
  | some number => do
    let base : Option ArtifactVersionView ← (ArtifactCall.getVersion artifactId number).perform
    match base with
    | none => throw (.notFound ("base version " ++ toString number ++ " not found"))
    | some base => return some base.manifestId

/-- `_store_renditions`. -/
def storeRenditions (services : ArtifactServices) (renditions : List Rendition) : Except ArtifactError (List Uuid) :=
  match services.blobs with
  | none => .ok []
  | some put => renditions.zipIdx.mapM fun (rendition, k) => put k rendition

/-- `_next_version_number`. -/
def nextVersionNumber (existing : List ArtifactVersionView) : Nat := (existing.map (·.versionNumber)).foldl max 0 + 1

theorem lt_nextVersionNumber {existing : List ArtifactVersionView} {v : ArtifactVersionView} (h : v ∈ existing) :
    v.versionNumber < nextVersionNumber existing := by
  have hmem : v.versionNumber ∈ existing.map (·.versionNumber) := List.mem_map_of_mem h
  rw [nextVersionNumber, List.foldl_max_eq_max (List.ne_nil_of_mem hmem)]
  exact Nat.lt_succ_of_le ((List.le_max_of_mem hmem).trans (Nat.le_max_right _ _))

/-- `_publish`; `versionId` is its `uuid4()`. -/
def publish (artifact : ArtifactView) (recipe : ArtifactRecipe) (manifestId : Uuid) (items : List ManifestItem)
    (content : Dict) (renderedBlobIds : List Uuid) (versionId : Uuid) : ArtifactProgram ArtifactVersionView := do
  let existing : List ArtifactVersionView ← (ArtifactCall.listVersions artifact.artifactId).perform
  let version : ArtifactVersionView :=
    { versionId
      artifactId := artifact.artifactId
      versionNumber := nextVersionNumber existing
      recipeId := recipe.recipeId
      recipeVersion := recipe.recipeVersion
      manifestId
      structuredRepresentation := content
      renderedBlobIds
      evidenceDependencies := items.map fun item => ⟨item.kind, item.itemId⟩
      modelMetadata := modelMetadata recipe
      createdByUserId := artifact.createdByUserId }
  (ArtifactCall.createVersion version).perform
  return version

/-- What the recipe makes of the frozen inputs: the content that passed its validation, and its renditions. -/
def produce (recipe : ArtifactRecipe) (request : ArtifactRequest) (inputs : FrozenInputs) :
    Except ArtifactError (Dict × List Rendition) := do
  let plan ← recipe.plan request inputs
  let content ← recipe.generate request inputs plan
  let problems ← recipe.validateContent content inputs
  if !problems.isEmpty then .error (.validation problems)
  else return (content, ← recipe.render content)

/-- `_GenerationPipeline.run`. -/
def run (services : ArtifactServices) (recipe : ArtifactRecipe) (artifact : ArtifactView) (request : ArtifactRequest)
    (actorId versionId : Uuid) : ArtifactProgram (ArtifactView × ArtifactVersionView) := do
  let items := request.manifestItems
  let parentManifestId ← resolveParent artifact.artifactId request
  let config := configSnapshot recipe request
  let manifestId : Uuid ←
    (ArtifactCall.freezeManifest artifact.notebookId actorId config items parentManifestId).perform
  let _ ← (ArtifactCall.casStatus artifact.artifactId .generating .validating none).perform
  let (content, renditions) ← ofExcept (produce recipe request ⟨manifestId, items, config⟩)
  let renderedBlobIds ← ofExcept (storeRenditions services renditions)
  let version ← publish artifact recipe manifestId items content renderedBlobIds versionId
  let updated : Option ArtifactView ←
    (ArtifactCall.casStatus artifact.artifactId .validating .ready (some version.versionId)).perform
  match updated with
  | none => throw (.casConflict "ready publication lost the CAS")
  | some updated => return (updated, version)

/-! ## A pass -/

/-- `_mark_failed`. -/
def markFailed (artifactId : Uuid) : ArtifactProgram Unit := do
  let current : Option ArtifactView ← (ArtifactCall.getArtifact artifactId).perform
  match current with
  | none => return
  | some current =>
    if artifactTransitionAllowed current.status .failed then
      let _ ← (ArtifactCall.casStatus artifactId current.status .failed none).perform
      return

/-- The artifact as it is now, or as it was seen last. -/
def reread (artifactId : Uuid) (artifact : ArtifactView) : ArtifactProgram ArtifactView := do
  let current : Option ArtifactView ← (ArtifactCall.getArtifact artifactId).perform
  return current.getD artifact

/-- What a pass does with an exception of the pipeline: two types are handled. -/
def rescue (artifactId : Uuid) (updated : ArtifactView) : ArtifactError → ArtifactProgram GenerationResult
  | .validation problems => do
    markFailed artifactId
    return ⟨← reread artifactId updated, none, false, problems⟩
  | .casConflict _ => do
    markFailed artifactId
    return ⟨← reread artifactId updated, none, false, []⟩
  | e => throw e

/-- The part that the three passes share, from the CAS to generating on. -/
def attempt (services : ArtifactServices) (recipe : ArtifactRecipe) (artifactId : Uuid) (artifact : ArtifactView)
    (request : ArtifactRequest) (actorId versionId : Uuid) : ArtifactProgram GenerationResult := do
  let updated : Option ArtifactView ← (ArtifactCall.casStatus artifactId artifact.status .generating none).perform
  match updated with
  | none => return ⟨← reread artifactId artifact, none, true, []⟩
  | some updated =>
    tryCatch
      (do
        let (final, version) ← run services recipe updated request actorId versionId
        return ⟨final, some version, false, []⟩)
      (rescue artifactId updated)

/-- The recipe of the artifact's type, and its check of the request. -/
def validatedRecipe (services : ArtifactServices) (artifact : ArtifactView) (request : ArtifactRequest) :
    Except ArtifactError ArtifactRecipe :=
  match services.recipes artifact.artifactType with
  | none => .error (.invalidRequest ("no recipe registered for " ++ artifact.artifactType.value))
  | some recipe => do
    recipe.validateRequest request
    return recipe

/-- `GenerateArtifact`. -/
def generateArtifact (services : ArtifactServices) (actorId artifactId : Uuid) (request : ArtifactRequest)
    (versionId : Uuid) : ArtifactProgram (Option GenerationResult) := do
  let artifact : Option ArtifactView ← (ArtifactCall.getArtifact artifactId).perform
  match artifact with
  | none => return none
  | some artifact =>
    let recipe ← ofExcept (validatedRecipe services artifact request)
    if artifact.status ≠ .draft then return some ⟨artifact, none, true, []⟩
    return some (← attempt services recipe artifactId artifact request actorId versionId)

/-- `_current_version_number`. -/
def currentVersionNumber (artifact : ArtifactView) : ArtifactProgram (Option Nat) :=
  match artifact.currentVersionId with
  | none => throw (.notReady "artifact has no current version to edit")
  | some versionId => do
    let versions : List ArtifactVersionView ← (ArtifactCall.listVersions artifact.artifactId).perform
    return (versions.find? (·.versionId = versionId)).map (·.versionNumber)

/-- `EditArtifact`. -/
def editArtifact (services : ArtifactServices) (actorId artifactId : Uuid) (expectedEtag : String)
    (request : ArtifactRequest) (versionId : Uuid) : ArtifactProgram (Option GenerationResult) := do
  let artifact : Option ArtifactView ← (ArtifactCall.getArtifact artifactId).perform
  match artifact with
  | none => return none
  | some artifact =>
    if artifact.etag ≠ expectedEtag then return some ⟨artifact, none, true, []⟩
    if artifact.status ≠ .ready ∧ artifact.status ≠ .outOfDate then
      throw (.notReady ("artifact is " ++ artifact.status.value ++ "; edits require a ready artifact"))
    let recipe ← ofExcept (validatedRecipe services artifact request)
    let baseNumber ← currentVersionNumber artifact
    let request := { request with baseVersionNumber := baseNumber }
    return some (← attempt services recipe artifactId artifact request actorId versionId)

/-- `RegenerateArtifact`. -/
def regenerateArtifact (services : ArtifactServices) (actorId artifactId : Uuid) (baseVersionNumber : Nat)
    (request : ArtifactRequest) (versionId : Uuid) : ArtifactProgram (Option GenerationResult) := do
  let artifact : Option ArtifactView ← (ArtifactCall.getArtifact artifactId).perform
  match artifact with
  | none => return none
  | some artifact =>
    if artifact.status ≠ .ready ∧ artifact.status ≠ .outOfDate then
      throw (.notReady ("artifact is " ++ artifact.status.value ++ "; regeneration requires a ready artifact"))
    let recipe ← ofExcept (validatedRecipe services artifact request)
    let request := { request with baseVersionNumber := some baseVersionNumber }
    return some (← attempt services recipe artifactId artifact request actorId versionId)

/-! ## Commands -/

/-- A command that moves the artifact from the status it read. -/
def moveArtifact (artifactId : Uuid) (target : ArtifactStatus) (refusal : ArtifactStatus → String) (lost : String) :
    ArtifactProgram (Option ArtifactView) := do
  let artifact : Option ArtifactView ← (ArtifactCall.getArtifact artifactId).perform
  match artifact with
  | none => return none
  | some artifact =>
    if !artifactTransitionAllowed artifact.status target then throw (.notReady (refusal artifact.status))
    let updated : Option ArtifactView ← (ArtifactCall.casStatus artifactId artifact.status target none).perform
    match updated with
    | none => throw (.casConflict lost)
    | some updated => return some updated

/-- `CancelArtifact`. -/
def cancelArtifact (artifactId : Uuid) : ArtifactProgram (Option ArtifactView) :=
  moveArtifact artifactId .cancelled (fun status => "artifact is " ++ status.value ++ "; cancel is not permitted")
    "cancel lost the CAS"

/-- `MarkOutOfDate`. -/
def markOutOfDate (artifactId : Uuid) : ArtifactProgram (Option ArtifactView) :=
  moveArtifact artifactId .outOfDate
    (fun status => "artifact is " ++ status.value ++ "; only ready artifacts go out of date")
    "mark-out-of-date lost the CAS"

/-! ## Requests -/

/-- A use case with its arguments. -/
inductive ArtifactUse
  | generate (services : ArtifactServices) (actorId artifactId : Uuid) (request : ArtifactRequest) (versionId : Uuid)
  | edit (services : ArtifactServices) (actorId artifactId : Uuid) (expectedEtag : String) (request : ArtifactRequest)
      (versionId : Uuid)
  | regenerate (services : ArtifactServices) (actorId artifactId : Uuid) (baseVersionNumber : Nat)
      (request : ArtifactRequest) (versionId : Uuid)
  | cancel (artifactId : Uuid)
  | markOutOfDate (artifactId : Uuid)

def ArtifactUse.artifactId : ArtifactUse → Uuid
  | generate _ _ artifactId _ _ | edit _ _ artifactId _ _ _ | regenerate _ _ artifactId _ _ _ | cancel artifactId
  | markOutOfDate artifactId => artifactId

def ArtifactUse.program : ArtifactUse → ArtifactProgram Unit
  | generate services actorId artifactId request versionId =>
    discard (generateArtifact services actorId artifactId request versionId)
  | edit services actorId artifactId expectedEtag request versionId =>
    discard (editArtifact services actorId artifactId expectedEtag request versionId)
  | regenerate services actorId artifactId baseVersionNumber request versionId =>
    discard (regenerateArtifact services actorId artifactId baseVersionNumber request versionId)
  | cancel artifactId => discard (cancelArtifact artifactId)
  | markOutOfDate artifactId => discard (Studio.markOutOfDate artifactId)

/-! ## A table -/

/-- A recipe that makes an empty table. -/
def emptyTable : ArtifactRecipe :=
  { recipeId := "table"
    recipeVersion := "1"
    validateRequest := fun _ => .ok ()
    plan := fun _ _ => .ok []
    generate := fun _ _ _ => .ok []
    validateContent := fun _ _ => .ok []
    render := fun _ => .ok [] }

def tableServices : ArtifactServices := { recipes := fun _ => some emptyTable, blobs := none }

def tableRequest : ArtifactRequest := { notebookId := 1, artifactType := .table, title := "Prices" }

/-- A table without versions. -/
def draftTable : ArtifactView := { artifactId := 2, notebookId := 1, artifactType := .table, createdByUserId := 3 }

end MilpbookLM.Studio
