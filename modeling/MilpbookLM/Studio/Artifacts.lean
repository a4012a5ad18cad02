/-
The rows of Studio artifacts and their versions, the lifecycle table of an artifact, the
contract of a recipe, and the calls of `PgArtifactStore`, each one transaction. A recipe
may return or raise anything; a value the `jsonb` columns do not take is refused.
-/
import MilpbookLM.Lib.Interleave
import MilpbookLM.Lib.Table
import MilpbookLM.Sources.Library
import Mathlib.Data.List.Sort

namespace MilpbookLM.Studio

open Table Interleave

/-! ## Lifecycle -/

inductive ArtifactType
  | report | table | mindMap | flashcards | quiz | slideDeck | infographic | audioOverview | videoOverview | composite
  deriving DecidableEq

def ArtifactType.value : ArtifactType → String
  | report => "report"
  | table => "table"
  | mindMap => "mind_map"
  | flashcards => "flashcards"
  | quiz => "quiz"
  | slideDeck => "slide_deck"
  | infographic => "infographic"
  | audioOverview => "audio_overview"
  | videoOverview => "video_overview"
  | composite => "composite"

inductive ArtifactStatus
  | draft | generating | validating | ready | failed | cancelled | outOfDate
  deriving DecidableEq

def ArtifactStatus.value : ArtifactStatus → String
  | draft => "draft"
  | generating => "generating"
  | validating => "validating"
  | ready => "ready"
  | failed => "failed"
  | cancelled => "cancelled"
  | outOfDate => "out_of_date"

/-- `ARTIFACT_TRANSITIONS`. -/
def artifactTransitions : ArtifactStatus → List ArtifactStatus
  | .draft => [.generating, .cancelled]
  | .generating => [.validating, .failed, .cancelled]
  | .validating => [.ready, .failed, .cancelled]
  | .ready => [.generating, .outOfDate]
  | .outOfDate => [.generating]
  | .failed | .cancelled => []

def artifactTransitionAllowed (current target : ArtifactStatus) : Bool := target ∈ artifactTransitions current

/-! ## Rows -/

structure ArtifactView where
  artifactId : Uuid
  notebookId : Uuid
  artifactType : ArtifactType
  status : ArtifactStatus := .draft
  currentVersionId : Option Uuid := none
  createdByUserId : Uuid
  revision : Nat := 0
  etag : String := "0"
  deriving DecidableEq

structure ManifestItem where
  kind : ContentKind
  itemId : Uuid
  itemSha256 : Option String := none
  deriving DecidableEq

structure ArtifactVersionView where
  versionId : Uuid
  artifactId : Uuid
  versionNumber : Nat
  recipeId : String
  recipeVersion : String
  manifestId : Uuid
  structuredRepresentation : Dict
  renderedBlobIds : List Uuid
  evidenceDependencies : List ContentRef
  modelMetadata : Dict
  createdByUserId : Uuid

structure Manifest where
  id : Uuid
  notebookId : Uuid
  createdByUserId : Uuid
  opKind : String := "studio_generation"
  configSnapshot : Dict
  items : List ManifestItem
  parentManifestId : Option Uuid

/-! ## Recipes -/

structure ArtifactRequest where
  notebookId : Uuid
  artifactType : ArtifactType
  title : String
  instructions : Option String := none
  sourceVersionIds : List Uuid := []
  noteRevisionIds : List Uuid := []
  baseVersionNumber : Option Nat := none

/-- `manifest_items`. -/
def ArtifactRequest.manifestItems (request : ArtifactRequest) : List ManifestItem :=
  request.sourceVersionIds.map (⟨.sourceVersion, ·, none⟩) ++ request.noteRevisionIds.map (⟨.noteRevision, ·, none⟩)

structure FrozenInputs where
  manifestId : Uuid
  items : List ManifestItem
  configSnapshot : Dict

structure Rendition where
  format : String
  content : Bytes

/-- What the use cases raise, or what a recipe, a blob store or the database does. -/
inductive ArtifactError
  | notFound (message : String)
  | casConflict (message : String)
  | invalidRequest (message : String)
  | notReady (message : String)
  | validation (problems : List String)
  | raised (name text : String)
  deriving DecidableEq

structure ArtifactRecipe where
  recipeId : String
  recipeVersion : String
  validateRequest : ArtifactRequest → Except ArtifactError Unit
  plan : ArtifactRequest → FrozenInputs → Except ArtifactError Dict
  generate : ArtifactRequest → FrozenInputs → Dict → Except ArtifactError Dict
  validateContent : Dict → FrozenInputs → Except ArtifactError (List String)
  render : Dict → Except ArtifactError (List Rendition)

/-! ## What a `jsonb` column takes -/

/-- No NUL character. -/
def storableText (s : String) : Bool := '\x00' ∉ s.toList

mutual

def storableJson : Json → Bool
  | .str s => storableText s
  | .arr xs => storableItems xs
  | .obj kvs => storableDict kvs
  | _ => true

def storableItems : List Json → Bool
  | [] => true
  | x :: xs => storableJson x && storableItems xs

def storableDict : List (String × Json) → Bool
  | [] => true
  | (k, v) :: kvs => storableText k && storableJson v && storableDict kvs

end

def ArtifactVersionView.storable (v : ArtifactVersionView) : Bool :=
  storableText v.recipeVersion && storableText v.recipeId && storableDict v.structuredRepresentation &&
    storableDict v.modelMetadata

/-- `unsupported Unicode escape sequence`. -/
def ArtifactError.unstorable : ArtifactError := .raised "DataError" "unsupported Unicode escape sequence"

def ArtifactError.duplicate (name : String) : ArtifactError := .raised "IntegrityError" name

/-! ## The store -/

structure ArtifactWorld where
  artifacts : List ArtifactView := []
  versions : List ArtifactVersionView := []
  manifests : List Manifest := []

namespace ArtifactWorld

variable (w : ArtifactWorld)

/-- `get_artifact`. -/
def artifact? (artifactId : Uuid) : Option ArtifactView := lookup (fun a : ArtifactView => a.artifactId) w.artifacts artifactId

/-- The row after `cas_status`; a pointer that is not given stays. -/
def castArtifact (target : ArtifactStatus) (currentVersionId : Option Uuid) (a : ArtifactView) : ArtifactView :=
  { a with
    status := target
    revision := a.revision + 1
    etag := toString (a.revision + 1)
    currentVersionId := currentVersionId <|> a.currentVersionId }

/-- `cas_status`. -/
def casStatus (artifactId : Uuid) (expected target : ArtifactStatus) (currentVersionId : Option Uuid) :
    Option ArtifactView × ArtifactWorld :=
  match w.artifact? artifactId with
  | none => (none, w)
  | some a =>
    if a.status ≠ expected then (none, w)
    else
      (some (castArtifact target currentVersionId a),
        { w with artifacts := update (·.artifactId = artifactId) (castArtifact target currentVersionId) w.artifacts })

/-- `freeze_manifest`; an item may be there once. -/
def freezeManifest (manifest : Manifest) : Except ArtifactError Uuid × ArtifactWorld :=
  if !storableDict manifest.configSnapshot then (.error .unstorable, w)
  else if w.manifests.any (·.id = manifest.id) then (.error (.duplicate "generation_input_manifests_pkey"), w)
  else if ¬ (manifest.items.map fun i => (i.kind, i.itemId)).Nodup then
    (.error (.duplicate "uq_generation_manifest_items_manifest_kind_item"), w)
  else (.ok manifest.id, { w with manifests := w.manifests ++ [manifest] })

/-- `create_version`. -/
def createVersion (version : ArtifactVersionView) : Except ArtifactError Unit × ArtifactWorld :=
  if !version.storable then (.error .unstorable, w)
  else if w.versions.any (·.versionId = version.versionId) then (.error (.duplicate "artifact_versions_pkey"), w)
  else if w.versions.any fun v => v.artifactId = version.artifactId && v.versionNumber = version.versionNumber then
    (.error (.duplicate "uq_artifact_versions_artifact_number"), w)
  else (.ok (), { w with versions := w.versions ++ [version] })

/-- `get_version`. -/
def version? (artifactId : Uuid) (versionNumber : Nat) : Option ArtifactVersionView :=
  w.versions.find? fun v => v.artifactId = artifactId && v.versionNumber = versionNumber

/-- `list_versions`. -/
def versionsOf (artifactId : Uuid) : List ArtifactVersionView :=
  (w.versions.filter (·.artifactId = artifactId)).insertionSort fun v v' => v.versionNumber ≤ v'.versionNumber

end ArtifactWorld

/-! ### What the store's methods do -/

section Store

variable {w : ArtifactWorld} {artifactId : Uuid} {expected target : ArtifactStatus} {current : Option Uuid} {a : ArtifactView}

theorem artifactId_of_artifact? (h : w.artifact? artifactId = some a) : a.artifactId = artifactId := (lookup_some h).2

/-- The store after a CAS that went through. -/
def ArtifactWorld.cast (w : ArtifactWorld) (artifactId : Uuid) (target : ArtifactStatus) (current : Option Uuid) :
    ArtifactWorld :=
  { w with artifacts := update (·.artifactId = artifactId) (ArtifactWorld.castArtifact target current) w.artifacts }

/-- A CAS goes through where the artifact has the expected status, and changes nothing elsewhere. -/
theorem casStatus_cases :
    (∃ a, w.artifact? artifactId = some a ∧ a.status = expected ∧ w.casStatus artifactId expected target current =
      (some (ArtifactWorld.castArtifact target current a), w.cast artifactId target current)) ∨
    (∀ a, w.artifact? artifactId = some a → a.status ≠ expected) ∧
      w.casStatus artifactId expected target current = (none, w) := by
  unfold ArtifactWorld.casStatus
  cases ha : w.artifact? artifactId with
  | none => exact .inr ⟨by simp, rfl⟩
  | some a =>
    by_cases hs : a.status = expected
    · exact .inl ⟨a, rfl, hs, by simp only [hs, ne_eq, not_true_eq_false, if_false, ArtifactWorld.cast]⟩
    · refine .inr ⟨fun b hb => ?_, by simp only [ne_eq, hs, not_false_eq_true, if_true]⟩
      cases hb
      exact hs

theorem casStatus_of_status (ha : w.artifact? artifactId = some a) (hs : a.status = expected) :
    w.casStatus artifactId expected target current =
      (some (ArtifactWorld.castArtifact target current a), w.cast artifactId target current) := by
  rcases casStatus_cases with ⟨b, hb, -, h⟩ | ⟨h, -⟩
  · cases ha.symm.trans hb
    exact h
  · exact absurd hs (h a ha)

theorem artifact?_cast (artifactId' : Uuid) :
    (w.cast artifactId target current).artifact? artifactId' = (w.artifact? artifactId').map fun a =>
      if a.artifactId = artifactId then ArtifactWorld.castArtifact target current a else a := by
  have h := @lookup_update _ _ _ (fun a : ArtifactView => a.artifactId) (fun a => decide (a.artifactId = artifactId))
    (ArtifactWorld.castArtifact target current) (fun _ _ => rfl) w.artifacts artifactId'
  simpa [ArtifactWorld.artifact?, ArtifactWorld.cast] using h

theorem artifact?_cast_self (ha : w.artifact? artifactId = some a) :
    (w.cast artifactId target current).artifact? artifactId = some (ArtifactWorld.castArtifact target current a) := by
  rw [artifact?_cast, ha, Option.map_some, if_pos (artifactId_of_artifact? ha)]

theorem artifact?_cast_other {artifactId' : Uuid} (hne : artifactId' ≠ artifactId) :
    (w.cast artifactId target current).artifact? artifactId' = w.artifact? artifactId' := by
  rw [artifact?_cast]
  cases ha : w.artifact? artifactId' with
  | none => rfl
  | some a => rw [Option.map_some, if_neg (by rw [artifactId_of_artifact? ha]; exact hne)]

/-- What a manifest must meet to be stored. -/
def ArtifactWorld.AdmitsManifest (w : ArtifactWorld) (manifest : Manifest) : Prop :=
  storableDict manifest.configSnapshot ∧ (∀ m ∈ w.manifests, m.id ≠ manifest.id) ∧
    (manifest.items.map fun i => (i.kind, i.itemId)).Nodup

theorem freezeManifest_cases (manifest : Manifest) :
    (w.AdmitsManifest manifest ∧ w.freezeManifest manifest =
      (.ok manifest.id, { w with manifests := w.manifests ++ [manifest] })) ∨
    ¬ w.AdmitsManifest manifest ∧ ∃ name text, w.freezeManifest manifest = (.error (.raised name text), w) := by
  unfold ArtifactWorld.freezeManifest
  split
  · next h => exact .inr ⟨fun hadm => by simp [hadm.1] at h, _, _, rfl⟩
  · next hs =>
    split
    · next h =>
      obtain ⟨m, hm, he⟩ := List.any_eq_true.1 h
      exact .inr ⟨fun hadm => hadm.2.1 m hm (by simpa using he), _, _, rfl⟩
    · next hk =>
      split
      · next h => exact .inr ⟨fun hadm => h hadm.2.2, _, _, rfl⟩
      · next hn =>
        refine .inl ⟨⟨by simpa using hs, fun m hm he => hk ?_, not_not.1 hn⟩, rfl⟩
        exact List.any_eq_true.2 ⟨m, hm, by simpa using he⟩

/-- What a version must meet to be stored. -/
def ArtifactWorld.AdmitsVersion (w : ArtifactWorld) (version : ArtifactVersionView) : Prop :=
  version.storable ∧ (∀ v ∈ w.versions, v.versionId ≠ version.versionId) ∧
    ∀ v ∈ w.versions, v.artifactId = version.artifactId → v.versionNumber ≠ version.versionNumber

theorem createVersion_cases (version : ArtifactVersionView) :
    (w.AdmitsVersion version ∧ w.createVersion version = (.ok (), { w with versions := w.versions ++ [version] })) ∨
    ¬ w.AdmitsVersion version ∧ ∃ name text, w.createVersion version = (.error (.raised name text), w) := by
  unfold ArtifactWorld.createVersion
  split
  · next h => exact .inr ⟨fun hadm => by simp [hadm.1] at h, _, _, rfl⟩
  · next hs =>
    split
    · next h =>
      obtain ⟨v, hv, he⟩ := List.any_eq_true.1 h
      exact .inr ⟨fun hadm => hadm.2.1 v hv (by simpa using he), _, _, rfl⟩
    · next hk =>
      split
      · next h =>
        obtain ⟨v, hv, he⟩ := List.any_eq_true.1 h
        simp only [Bool.and_eq_true, decide_eq_true_eq] at he
        exact .inr ⟨fun hadm => hadm.2.2 v hv he.1 he.2, _, _, rfl⟩
      · next hn =>
        refine .inl ⟨⟨by simpa using hs, fun v hv he => hk ?_, fun v hv ha he => hn ?_⟩, rfl⟩
        · exact List.any_eq_true.2 ⟨v, hv, by simpa using he⟩
        · exact List.any_eq_true.2 ⟨v, hv, by simp [ha, he]⟩

theorem mem_versionsOf {v : ArtifactVersionView} :
    v ∈ w.versionsOf artifactId ↔ v ∈ w.versions ∧ v.artifactId = artifactId := by
  simp [ArtifactWorld.versionsOf, List.mem_insertionSort]

end Store

/-! ## Calls -/

inductive ArtifactCall
  | getArtifact (artifactId : Uuid)
  | casStatus (artifactId : Uuid) (expected target : ArtifactStatus) (currentVersionId : Option Uuid)
  /-- The id of the manifest is its `uuid4()`. -/
  | freezeManifest (notebookId actorId : Uuid) (configSnapshot : Dict) (items : List ManifestItem)
      (parentManifestId : Option Uuid)
  | getVersion (artifactId : Uuid) (versionNumber : Nat)
  | listVersions (artifactId : Uuid)
  | createVersion (version : ArtifactVersionView)

def ArtifactResult : ArtifactCall → Type
  | .getArtifact _ => Option ArtifactView
  | .casStatus .. => Option ArtifactView
  | .freezeManifest .. => Uuid
  | .getVersion .. => Option ArtifactVersionView
  | .listVersions _ => List ArtifactVersionView
  | .createVersion _ => Unit

abbrev ArtifactAnswer (c : ArtifactCall) : Type := Except ArtifactError (ArtifactResult c)

/-- What each call does, and answers. -/
def ArtifactCall.exec : Exec ArtifactCall ArtifactAnswer ArtifactWorld Uuid
  | .getArtifact artifactId, _, w => (.ok (w.artifact? artifactId), w)
  | .casStatus artifactId expected target currentVersionId, _, w =>
    (.ok (w.casStatus artifactId expected target currentVersionId).1,
      (w.casStatus artifactId expected target currentVersionId).2)
  | .freezeManifest notebookId actorId configSnapshot items parentManifestId, newId, w =>
    w.freezeManifest
      { id := newId, notebookId, createdByUserId := actorId, configSnapshot, items, parentManifestId }
  | .getVersion artifactId versionNumber, _, w => (.ok (w.version? artifactId versionNumber), w)
  | .listVersions artifactId, _, w => (.ok (w.versionsOf artifactId), w)
  | .createVersion version, _, w => w.createVersion version

/-- Only an insert adds a version. -/
theorem versions_exec (c : ArtifactCall) (e : Uuid) (w : ArtifactWorld) :
    (c.exec e w).2.versions = w.versions ∨ ∃ version, c = .createVersion version ∧ w.createVersion version =
      (.ok (), { w with versions := w.versions ++ [version] }) := by
  cases c with
  | getArtifact | getVersion | listVersions => exact .inl rfl
  | freezeManifest notebookId actorId config items parent =>
    rcases freezeManifest_cases (w := w) ⟨e, notebookId, actorId, "studio_generation", config, items, parent⟩ with
      ⟨-, h⟩ | ⟨-, _, _, h⟩ <;> exact .inl (congrArg (fun x => ArtifactWorld.versions x.2) h)
  | createVersion version =>
    rcases createVersion_cases (w := w) version with ⟨-, h⟩ | ⟨-, _, _, h⟩
    · exact .inr ⟨version, rfl, h⟩
    · exact .inl (congrArg (fun x => ArtifactWorld.versions x.2) h)
  | casStatus artifactId expected target current =>
    rcases @casStatus_cases w artifactId expected target current with ⟨_, -, -, h⟩ | ⟨-, h⟩ <;>
      exact .inl (congrArg (fun x => ArtifactWorld.versions x.2) h)

end MilpbookLM.Studio
