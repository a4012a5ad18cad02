/-
The identity of an index build. The id of a generation, and the key under which its job is enqueued, are made of the
source version, the embedding model, the dimension and the revision of the profile: two builds that differ in anything
else, and two whose model, dimension and revision read alike, are one generation (`build_identity_iff`). The payload
of the job carries the whole configuration (`configFromPayload_toPayload`).
-/
import Mathlib.Data.Set.Function
import MilpbookLM.Documents.Coordinates
import MilpbookLM.Indexing.Generations

namespace MilpbookLM

namespace IndexBuildConfig

variable (config : IndexBuildConfig)

/-- `config_to_payload`. -/
def toPayload : Dict :=
  [ ("profile_name", .str config.profile.name), ("profile_revision", .str config.profile.revision)
  , ("max_tokens", .int config.profile.maxTokens), ("token_estimator", .str config.profile.tokenEstimator)
  , ("model", .str config.embedding.model), ("model_ref", .ofStr? config.embedding.modelRef)
  , ("dimension", .int config.embedding.dimension), ("normalization", .str config.embedding.normalization)
  , ("batch_size", .int config.embedding.batchSize), ("fusion_config_version", .str config.fusionConfigVersion)
  , ("reranker_config_version", .ofStr? config.rerankerConfigVersion) ]

end IndexBuildConfig

/-! ## config_from_payload -/

inductive PayloadRaise
  | keyError (key : String)
  | notInt (key : String)
  deriving DecidableEq

/-- `payload[key]`. -/
def payloadItem (payload : Dict) (key : String) : Except PayloadRaise Json :=
  match payload.find? (·.1 == key) with
  | some (_, value) => pure value
  | none => throw (.keyError key)

/-- `str(payload[key])`. -/
def payloadText (payload : Dict) (key : String) : Except PayloadRaise String := return (← payloadItem payload key).text

/-- `None if payload[key] is None else str(payload[key])`. -/
def payloadText? (payload : Dict) (key : String) : Except PayloadRaise (Option String) := do
  match ← payloadItem payload key with
  | .null => pure none
  | value => pure (some value.text)

/-- `_payload_int`; a bool is none. -/
def payloadInt (payload : Dict) (key : String) : Except PayloadRaise Int := do
  match ← payloadItem payload key with
  | .int n => pure n
  | _ => throw (.notInt key)

/-- `config_from_payload`; fewer tokens than none are none, which no chunking accepts either. -/
def configFromPayload (payload : Dict) : Except PayloadRaise IndexBuildConfig := do
  let name ← payloadText payload "profile_name"
  let revision ← payloadText payload "profile_revision"
  let maxTokens ← payloadInt payload "max_tokens"
  let tokenEstimator ← payloadText payload "token_estimator"
  let model ← payloadText payload "model"
  let modelRef ← payloadText? payload "model_ref"
  let dimension ← payloadInt payload "dimension"
  let normalization ← payloadText payload "normalization"
  let batchSize ← payloadInt payload "batch_size"
  let rerankerConfigVersion ← payloadText? payload "reranker_config_version"
  let fusionConfigVersion ← payloadText payload "fusion_config_version"
  return {
    profile := { name, revision, maxTokens := maxTokens.toNat, tokenEstimator }
    embedding := { model, modelRef, dimension, normalization, batchSize }
    fusionConfigVersion
    rerankerConfigVersion }

/-- **The configuration survives the payload.** -/
theorem configFromPayload_toPayload (config : IndexBuildConfig) : configFromPayload config.toPayload = .ok config := by
  obtain ⟨⟨name, revision, maxTokens, tokenEstimator⟩, ⟨model, modelRef, dimension, normalization, batchSize⟩,
    fusion, reranker⟩ := config
  cases modelRef <;> cases reranker <;> rfl

/-! ## generation_id_for, idempotency_key_for -/

/-- What a build is told by, besides its source version. -/
def IndexBuildConfig.spaceText (config : IndexBuildConfig) : String :=
  config.embedding.model ++ ":" ++ toString config.embedding.dimension ++ ":" ++ config.profile.revision

/-- `idempotency_key_for`. -/
def idempotencyKeyFor (sourceVersionId : Uuid) (model : String) (dimension : Int) (profileRevision : String) : String :=
  "index:" ++ sourceVersionId.str ++ ":" ++ model ++ ":" ++ toString dimension ++ ":" ++ profileRevision

/-- A request: a version, and the configuration of its index. -/
structure IndexBuildRequest where
  sourceVersionId : Uuid
  config : IndexBuildConfig

namespace IndexBuildRequest

variable (request : IndexBuildRequest)

/-- The key that the request is enqueued under. -/
def key : String :=
  idempotencyKeyFor request.sourceVersionId request.config.embedding.model request.config.embedding.dimension
    request.config.profile.revision

/-- The generation that the request builds. -/
def generationId (rt : Runtime) (generationNamespace : Uuid) : Uuid :=
  rt.generationIdFor generationNamespace request.sourceVersionId request.config.embedding.model
    request.config.embedding.dimension request.config.profile.revision

end IndexBuildRequest

/-- The chunks and the vectors of a build hang on these: the profile, and the embedding but for its batches. -/
structure SameSpace (config other : IndexBuildConfig) : Prop where
  profile : config.profile = other.profile
  model : config.embedding.model = other.embedding.model
  modelRef : config.embedding.modelRef = other.embedding.modelRef
  dimension : config.embedding.dimension = other.embedding.dimension
  normalization : config.embedding.normalization = other.embedding.normalization

section

variable {config other : IndexBuildConfig} {request request' : IndexBuildRequest}

theorem key_eq : request.key = "index:" ++ request.sourceVersionId.str ++ ":" ++ request.config.spaceText := by
  simp only [IndexBuildRequest.key, idempotencyKeyFor, IndexBuildConfig.spaceText, String.append_assoc]

/-- **The key tells the version, and the text of the space.** -/
theorem key_inj : request.key = request'.key ↔
    request.sourceVersionId = request'.sourceVersionId ∧ request.config.spaceText = request'.config.spaceText := by
  constructor
  · intro h
    have hc : (":" : String).toList = [':'] := rfl
    have h := congrArg String.toList h
    simp only [key_eq, String.toList_append, hc, List.append_assoc, List.cons_append, List.nil_append] at h
    obtain ⟨hid, hspace⟩ := colon_append_inj (Uuid.colon_notMem_str _) (Uuid.colon_notMem_str _)
      (List.append_cancel_left h)
    exact ⟨Uuid.str_inj (String.toList_injective hid), String.toList_injective hspace⟩
  · intro h
    rw [key_eq, key_eq, h.1, h.2]

/-- The generation, and the key, tell the version and the space. -/
def Determined (rt : Runtime) (generationNamespace : Uuid) (request request' : IndexBuildRequest) : Prop :=
  (request.generationId rt generationNamespace = request'.generationId rt generationNamespace ∨
      request.key = request'.key) →
    request.sourceVersionId = request'.sourceVersionId ∧ SameSpace request.config request'.config

/-- **A build is told by its id exactly where the versions or the texts of the spaces differ, or the spaces are
one.** -/
theorem build_identity_iff {rt : Runtime} {generationNamespace : Uuid}
    (hinj : Set.InjOn (rt.uuid5 generationNamespace) {request.key, request'.key}) :
    (Determined rt generationNamespace request request' ↔ request.sourceVersionId ≠ request'.sourceVersionId ∨
      request.config.spaceText ≠ request'.config.spaceText ∨ SameSpace request.config request'.config) ∧
      configFromPayload request.config.toPayload = .ok request.config := by
  have hkey : request.generationId rt generationNamespace = request'.generationId rt generationNamespace →
      request.key = request'.key := fun h => hinj (.inl rfl) (.inr rfl) h
  refine ⟨⟨fun h => ?_, fun h hsame => ?_⟩, configFromPayload_toPayload _⟩
  · by_cases hversion : request.sourceVersionId = request'.sourceVersionId
    · by_cases hspace : request.config.spaceText = request'.config.spaceText
      · exact .inr (.inr (h (.inr (key_inj.2 ⟨hversion, hspace⟩))).2)
      · exact .inr (.inl hspace)
    · exact .inl hversion
  · obtain ⟨hversion, hspace⟩ := key_inj.1 (hsame.elim hkey id)
    exact ⟨hversion, (h.resolve_left (not_not.2 hversion)).resolve_left (not_not.2 hspace)⟩

/-- A build under a profile, into a space of 384 dimensions. -/
def requestOf (profile : ChunkerProfile) (normalization : String) : IndexBuildRequest where
  sourceVersionId := 1#128
  config := { profile, embedding := { model := "e5", modelRef := none, dimension := 384, normalization } }

theorem build_identity_of_one : (Determined sampleRuntime 0#128 (requestOf structuralChunkerV1 "l2")
      (requestOf structuralChunkerV1 "l2") ↔ (1#128 : Uuid) ≠ 1#128 ∨
        (requestOf structuralChunkerV1 "l2").config.spaceText ≠ (requestOf structuralChunkerV1 "l2").config.spaceText ∨
        SameSpace (requestOf structuralChunkerV1 "l2").config (requestOf structuralChunkerV1 "l2").config) ∧
      configFromPayload (requestOf structuralChunkerV1 "l2").config.toPayload =
        .ok (requestOf structuralChunkerV1 "l2").config :=
  build_identity_iff fun a ha b hb _ => by
    rw [Set.pair_eq_singleton, Set.mem_singleton_iff] at ha hb
    rw [ha, hb]

/-- Half the budget, or no normalization: the generation is the one of before. -/
theorem same_generation : ¬ Determined sampleRuntime 0#128 (requestOf structuralChunkerV1 "l2")
      (requestOf { structuralChunkerV1 with maxTokens := 200 } "l2") ∧
    ¬ Determined sampleRuntime 0#128 (requestOf structuralChunkerV1 "l2") (requestOf structuralChunkerV1 "none") := by
  refine ⟨fun h => ?_, fun h => ?_⟩
  · have hprofile := congrArg ChunkerProfile.maxTokens (h (.inr rfl)).2.profile
    exact absurd hprofile (by decide)
  · exact absurd (h (.inr rfl)).2.normalization (by decide)

end

end MilpbookLM
