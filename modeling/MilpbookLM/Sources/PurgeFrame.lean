/-
What an erase leaves alone. `PurgeFrame` says it table by table: outside the
closure of the source no row is deleted, added or changed. A purge of a source is
such a frame exactly when it is refused, or when every artifact has a version and
nothing outside the closure points at what is erased (`erase_frame_iff`): the
delete of orphaned artifacts takes every artifact without a version, whoever is
about to write its first one (`erases_draft`).
-/
import MilpbookLM.Sources.Purge

namespace MilpbookLM

open Table

namespace SourceDb

section Closure

variable (db : SourceDb) (sourceId : Uuid)

/-! ## The closure of a source -/

def purgedVersions : List Uuid := db.versionIds sourceId

def purgedDocuments : List Uuid := db.documentIds (db.purgedVersions sourceId)

def purgedNodes : List Uuid := db.erasedNodes (db.purgedDocuments sourceId)

def purgedGenerations : List Uuid := (db.indexGenerations.filter (·.sourceId = sourceId)).map (·.id)

/-- The manifests that pin a version or a document. -/
def purgedManifests : List Uuid := db.manifestIds (db.purgedVersions sourceId) (db.purgedDocuments sourceId)

/-- The artifact versions built on them. -/
def purgedArtifactVersions : List Uuid := db.artifactVersionIds (db.purgedManifests sourceId)

/-- The artifact had versions, and all of them are erased. -/
def orphaned (a : Artifact) : Bool :=
  db.artifactVersions.any (·.artifactId = a.id) &&
    db.artifactVersions.all fun v => v.artifactId = a.id → v.id ∈ db.purgedArtifactVersions sourceId

def purgedJobs : List Uuid := (db.jobs.filter (·.names sourceId (db.purgedVersions sourceId))).map (·.id)

/-- A reference of one of the versions. -/
def purgedReference (ref : BlobReference) : Bool :=
  ref.ofVersions (db.purgedVersions sourceId) || ref.ofArtifactVersions (db.purgedArtifactVersions sourceId)

/-- The blobs that lose their last reference. -/
def purgedObjects : List BlobObject :=
  db.blobObjects.filter fun o =>
    (db.blobReferences.filter (db.purgedReference sourceId)).any (·.blobId = o.id) &&
      !(deleteWhere (db.purgedReference sourceId) db.blobReferences).any (·.blobId = o.id)

/-- Outside the closure of the source, and of the task, every row is as it was. -/
structure PurgeFrame (taskId : Uuid) (db' : SourceDb) : Prop where
  sourceVersions : SameOutside (·.id ∈ db.purgedVersions sourceId) db.sourceVersions db'.sourceVersions
  canonicalDocuments : SameOutside (·.id ∈ db.purgedDocuments sourceId) db.canonicalDocuments db'.canonicalDocuments
  canonicalNodes : SameOutside (·.id ∈ db.purgedNodes sourceId) db.canonicalNodes db'.canonicalNodes
  canonicalLocators :
    SameOutside (·.canonicalNodeId ∈ db.purgedNodes sourceId) db.canonicalLocators db'.canonicalLocators
  indexGenerations : SameOutside (·.sourceId = sourceId) db.indexGenerations db'.indexGenerations
  indexChunks : SameOutside (fun c => c.indexGenerationId ∈ db.purgedGenerations sourceId ||
    c.canonicalDocumentId ∈ db.purgedDocuments sourceId || c.canonicalNodeId ∈ db.purgedNodes sourceId)
      db.indexChunks db'.indexChunks
  manifests : SameOutside (·.id ∈ db.purgedManifests sourceId) db.manifests db'.manifests
  manifestItems : SameOutside (·.manifestId ∈ db.purgedManifests sourceId) db.manifestItems db'.manifestItems
  messages : SameOutside (·.manifestId ∈ db.purgedManifests sourceId) db.messages db'.messages
  artifacts : SameOutside (db.orphaned sourceId) db.artifacts db'.artifacts
  artifactVersions : SameOutside (·.id ∈ db.purgedArtifactVersions sourceId) db.artifactVersions db'.artifactVersions
  userArtifactState : SameOutside (·.artifactVersionId ∈ db.purgedArtifactVersions sourceId)
    db.userArtifactState db'.userArtifactState
  studySessionSnapshots : SameOutside (·.artifactVersionId ∈ db.purgedArtifactVersions sourceId)
    db.studySessionSnapshots db'.studySessionSnapshots
  shareLinks : SameOutside (fun l => pointsInto (db.purgedArtifactVersions sourceId) l.artifactVersionId)
    db.shareLinks db'.shareLinks
  researchRuns : db'.researchRuns = db.researchRuns
  evidenceSnapshots : db'.evidenceSnapshots = db.evidenceSnapshots
  jobs : SameOutside (·.names sourceId (db.purgedVersions sourceId)) db.jobs db'.jobs
  jobAttempts : SameOutside (·.jobId ∈ db.purgedJobs sourceId) db.jobAttempts db'.jobAttempts
  provenanceEdges :
    SameOutside (·.touches sourceId (db.purgedVersions sourceId) (db.purgedDocuments sourceId))
      db.provenanceEdges db'.provenanceEdges
  blobObjects : SameOutside (·.id ∈ (db.purgedObjects sourceId).map (·.id)) db.blobObjects db'.blobObjects
  blobReferences : SameOutside (db.purgedReference sourceId) db.blobReferences db'.blobReferences
  purgeTasks : SameOutside (·.id = taskId) db.purgeTasks db'.purgeTasks
  finals : SameOutside (· ∈ (db.purgedObjects sourceId).map (·.contentSha256)) db.finals db'.finals

/-! ## When it is kept -/

/-- A snapshot of another artifact version was taken of a state to be erased: the purge is refused. -/
def HoldsState : Prop :=
  ∃ s ∈ db.studySessionSnapshots, s.artifactVersionId ∉ db.purgedArtifactVersions sourceId ∧
    ∃ state ∈ db.userArtifactState, state.artifactVersionId ∈ db.purgedArtifactVersions sourceId ∧
      state.id = s.sourceStateId

/-- No artifact is without a version. -/
def EachHasVersion : Prop := ∀ a ∈ db.artifacts, ∃ v ∈ db.artifactVersions, v.artifactId = a.id

/-- Nothing outside the closure points at an erased artifact version or manifest. -/
structure NoPointerIn : Prop where
  artifacts : ∀ a ∈ db.artifacts, db.orphaned sourceId a = false →
    pointsInto (db.purgedArtifactVersions sourceId) a.currentVersionId = false
  researchRuns : ∀ run ∈ db.researchRuns,
    pointsInto (db.purgedArtifactVersions sourceId) run.reportArtifactVersionId = false
  manifests : ∀ m ∈ db.manifests, m.id ∉ db.purgedManifests sourceId →
    pointsInto (db.purgedManifests sourceId) m.parentManifestId = false

/-- The second transaction is refused: an evidence snapshot holds a blob, or the clock has gone back. -/
def HoldsObjects (taskId : Uuid) (now now' : Time) : Prop :=
  (∃ s ∈ db.evidenceSnapshots, pointsInto ((db.purgedObjects sourceId).map (·.id)) s.blobId) ∨
    ∃ t ∈ db.purgeTasks, t.id = taskId ∧ now' < t.startedAt.getD now

/-- No version of another source points at an erased blob. -/
def NoVersionIn : Prop :=
  ∀ v ∈ db.sourceVersions, v.id ∉ db.purgedVersions sourceId →
    pointsInto ((db.purgedObjects sourceId).map (·.id)) v.originalBlobId = false

instance : Decidable db.EachHasVersion :=
  inferInstanceAs (Decidable (∀ a ∈ db.artifacts, ∃ v ∈ db.artifactVersions, v.artifactId = a.id))

instance : Decidable (db.NoVersionIn sourceId) := by unfold NoVersionIn; infer_instance

end Closure

variable {db db' : SourceDb} {sourceId taskId : Uuid} {now now' : Time}

/-! ## What the transactions write -/

variable {erased : Erased} {manifestIds artifactVersionIds versionIds documentIds : List Uuid}

theorem eraseOutputs_ok (h : db.eraseOutputs manifestIds artifactVersionIds = .ok (erased, db')) :
    (db.deleteSnapshots (·.artifactVersionId ∈ artifactVersionIds)).2.holdsState
      (·.artifactVersionId ∈ artifactVersionIds) = false ∧
    db' = { db with
      messages := deleteWhere (·.manifestId ∈ manifestIds) db.messages
      studySessionSnapshots := deleteWhere (·.artifactVersionId ∈ artifactVersionIds) db.studySessionSnapshots
      userArtifactState := deleteWhere (·.artifactVersionId ∈ artifactVersionIds) db.userArtifactState
      artifactVersions := deleteWhere (·.id ∈ artifactVersionIds) db.artifactVersions
      shareLinks := deleteWhere (fun l => pointsInto artifactVersionIds l.artifactVersionId) db.shareLinks
      researchRuns := update (fun run => pointsInto artifactVersionIds run.reportArtifactVersionId)
        (fun run => { run with reportArtifactVersionId := none }) db.researchRuns
      artifacts := deleteWhere
        (fun a => !(deleteWhere (·.id ∈ artifactVersionIds) db.artifactVersions).any (·.artifactId = a.id))
        (update (fun a => pointsInto artifactVersionIds a.currentVersionId)
          (fun a => { a with currentVersionId := none }) db.artifacts)
      manifests := deleteWhere (·.id ∈ manifestIds) (update (fun m => pointsInto manifestIds m.parentManifestId)
        (fun m => { m with parentManifestId := none }) db.manifests)
      manifestItems := deleteWhere (·.manifestId ∈ manifestIds)
        (deleteWhere (·.manifestId ∈ manifestIds) db.manifestItems) } := by
  simp only [eraseOutputs, deleteUserState, bind, Except.bind] at h
  split at h
  · cases h
  next v hv =>
  split at hv
  · cases hv
  next hfree =>
  cases hv
  injection h with h
  injection h with _ h
  subst h
  refine ⟨Bool.eq_false_iff.2 hfree, ?_⟩
  simp only [deleteMessages, deleteSnapshots, deleteArtifactVersions, deleteOrphanArtifacts, deleteManifestItems,
    deleteManifests]

theorem eraseOutputs_error {e : PurgeError} (h : db.eraseOutputs manifestIds artifactVersionIds = .error e) :
    (db.deleteSnapshots (·.artifactVersionId ∈ artifactVersionIds)).2.holdsState
      (·.artifactVersionId ∈ artifactVersionIds) = true := by
  simp only [eraseOutputs, deleteUserState, bind, Except.bind] at h
  split at h
  · next hv =>
    split at hv
    · next hheld => exact hheld
    · cases hv
  · cases h

theorem eraseInputs_eq : (db.eraseInputs sourceId versionIds documentIds).2 = { db with
    indexGenerations := deleteWhere (·.sourceId = sourceId) db.indexGenerations
    jobs := deleteWhere (·.names sourceId versionIds) db.jobs
    jobAttempts := deleteWhere (·.jobId ∈ (db.jobs.filter (·.names sourceId versionIds)).map (·.id)) db.jobAttempts
    provenanceEdges := deleteWhere (·.touches sourceId versionIds documentIds) db.provenanceEdges
    canonicalDocuments := deleteWhere (·.id ∈ documentIds) db.canonicalDocuments
    canonicalNodes := deleteWhere (·.id ∈ db.erasedNodes documentIds) db.canonicalNodes
    canonicalLocators := deleteWhere (·.canonicalNodeId ∈ db.erasedNodes documentIds) db.canonicalLocators
    indexChunks :=
      deleteWhere (fun c => c.canonicalDocumentId ∈ documentIds || c.canonicalNodeId ∈ db.erasedNodes documentIds)
        (deleteWhere (·.indexGenerationId ∈ (db.indexGenerations.filter (·.sourceId = sourceId)).map (·.id))
          db.indexChunks) } := rfl

/-- The references that go, and those that stay. -/
theorem deleteWhere_or {α : Type} {p q : α → Bool} {t : List α} :
    deleteWhere q (deleteWhere p t) = deleteWhere (fun r => p r || q r) t := by
  simp only [deleteWhere, List.filter_filter, Bool.not_or, Bool.and_comm]

theorem eraseReferences_unreferenced :
    (db.eraseReferences versionIds artifactVersionIds).2.1 = db.blobObjects.filter fun o =>
      (db.blobReferences.filter fun ref => ref.ofVersions versionIds || ref.ofArtifactVersions artifactVersionIds).any
          (·.blobId = o.id) &&
        !(deleteWhere (fun ref => ref.ofVersions versionIds || ref.ofArtifactVersions artifactVersionIds)
          db.blobReferences).any (·.blobId = o.id) := by
  simp only [eraseReferences, deleteReferences, unreferenced, blankVersions, deleteWhere_or]
  refine List.filter_congr fun o _ => congrArg (· && _) ?_
  rw [Bool.eq_iff_iff]
  simp only [decide_eq_true_eq, List.mem_append, List.mem_map, List.mem_filter, List.any_eq_true, Bool.or_eq_true]
  constructor
  · rintro (⟨ref, ⟨href, hp⟩, hid⟩ | ⟨ref, ⟨href, hp⟩, hid⟩)
    · exact ⟨ref, ⟨href, .inl hp⟩, hid⟩
    · exact ⟨ref, ⟨href, .inr hp⟩, hid⟩
  · rintro ⟨ref, ⟨href, hp | hp⟩, hid⟩
    · exact .inl ⟨ref, ⟨href, hp⟩, hid⟩
    · exact .inr ⟨ref, ⟨href, hp⟩, hid⟩

theorem eraseReferences_eq {objects : List BlobObject}
    (h : (db.eraseReferences versionIds artifactVersionIds).2.1 = objects) :
    (db.eraseReferences versionIds artifactVersionIds).2.2 = { db with
      blobReferences :=
        deleteWhere (fun ref => ref.ofVersions versionIds || ref.ofArtifactVersions artifactVersionIds) db.blobReferences
      sourceVersions := update (·.id ∈ versionIds) (fun v => { v with
        originalBlobId := none, contentSha256 := "purged:" ++ v.id.str, contentSizeBytes := none }) db.sourceVersions
      blobObjects := update (·.id ∈ objects.map (·.id)) (fun o => { o with state := .purged, finalizedAt := none })
        db.blobObjects } := by
  subst h
  simp only [eraseReferences, deleteReferences, unreferenced, blankVersions, markPurged, deleteWhere_or]

/-! ## The first transaction -/

/-- The tables as it leaves them, but for the task. -/
def erasedTables (db : SourceDb) (sourceId : Uuid) : SourceDb :=
  let versionIds := db.purgedVersions sourceId
  let documentIds := db.purgedDocuments sourceId
  let manifestIds := db.purgedManifests sourceId
  let artifactVersionIds := db.purgedArtifactVersions sourceId
  { db with
    messages := deleteWhere (·.manifestId ∈ manifestIds) db.messages
    studySessionSnapshots := deleteWhere (·.artifactVersionId ∈ artifactVersionIds) db.studySessionSnapshots
    userArtifactState := deleteWhere (·.artifactVersionId ∈ artifactVersionIds) db.userArtifactState
    artifactVersions := deleteWhere (·.id ∈ artifactVersionIds) db.artifactVersions
    shareLinks := deleteWhere (fun l => pointsInto artifactVersionIds l.artifactVersionId) db.shareLinks
    researchRuns := update (fun run => pointsInto artifactVersionIds run.reportArtifactVersionId)
      (fun run => { run with reportArtifactVersionId := none }) db.researchRuns
    artifacts := deleteWhere
      (fun a => !(deleteWhere (·.id ∈ artifactVersionIds) db.artifactVersions).any (·.artifactId = a.id))
      (update (fun a => pointsInto artifactVersionIds a.currentVersionId)
        (fun a => { a with currentVersionId := none }) db.artifacts)
    manifests := deleteWhere (·.id ∈ manifestIds) (update (fun m => pointsInto manifestIds m.parentManifestId)
      (fun m => { m with parentManifestId := none }) db.manifests)
    manifestItems := deleteWhere (·.manifestId ∈ manifestIds)
      (deleteWhere (·.manifestId ∈ manifestIds) db.manifestItems)
    indexGenerations := deleteWhere (·.sourceId = sourceId) db.indexGenerations
    jobs := deleteWhere (·.names sourceId versionIds) db.jobs
    jobAttempts := deleteWhere (·.jobId ∈ db.purgedJobs sourceId) db.jobAttempts
    provenanceEdges := deleteWhere (·.touches sourceId versionIds documentIds) db.provenanceEdges
    canonicalDocuments := deleteWhere (·.id ∈ documentIds) db.canonicalDocuments
    canonicalNodes := deleteWhere (·.id ∈ db.purgedNodes sourceId) db.canonicalNodes
    canonicalLocators := deleteWhere (·.canonicalNodeId ∈ db.purgedNodes sourceId) db.canonicalLocators
    indexChunks :=
      deleteWhere (fun c => c.canonicalDocumentId ∈ documentIds || c.canonicalNodeId ∈ db.purgedNodes sourceId)
        (deleteWhere (·.indexGenerationId ∈ db.purgedGenerations sourceId) db.indexChunks)
    blobReferences := deleteWhere (db.purgedReference sourceId) db.blobReferences
    sourceVersions := update (·.id ∈ versionIds) (fun v => { v with
      originalBlobId := none, contentSha256 := "purged:" ++ v.id.str, contentSizeBytes := none }) db.sourceVersions
    blobObjects := update (·.id ∈ (db.purgedObjects sourceId).map (·.id))
      (fun o => { o with state := .purged, finalizedAt := none }) db.blobObjects }

variable {objects : List BlobObject} {task : PurgeTask} {erasing : Erasing}

/-- The check of `deleteUserState`, on the database before. -/
theorem holdsState_iff : (db.deleteSnapshots (·.artifactVersionId ∈ db.purgedArtifactVersions sourceId)).2.holdsState
    (·.artifactVersionId ∈ db.purgedArtifactVersions sourceId) = true ↔ db.HoldsState sourceId := by
  simp only [deleteSnapshots, holdsState, deleteWhere, List.any_filter, List.any_eq_true, Bool.and_eq_true,
    Bool.not_eq_true', decide_eq_false_iff_not, decide_eq_true_eq, List.mem_map, List.mem_filter, HoldsState, and_assoc]

theorem eraseClosure_ok (h : db.eraseClosure sourceId = .ok (erased, objects, db')) :
    ¬ db.HoldsState sourceId ∧ objects = db.purgedObjects sourceId ∧ db' = db.erasedTables sourceId := by
  simp only [eraseClosure, bind, Except.bind, pure, Except.pure] at h
  split at h
  · cases h
  next v hv =>
  obtain ⟨outputs, db₁⟩ := v
  obtain ⟨hfree, h₁⟩ := eraseOutputs_ok hv
  injection h with h
  injection h with _ h
  injection h with hobjects h
  have hun : ((db₁.eraseInputs sourceId (db.purgedVersions sourceId) (db.purgedDocuments sourceId)).2.eraseReferences
      (db.purgedVersions sourceId) (db.purgedArtifactVersions sourceId)).2.1 = db.purgedObjects sourceId := by
    rw [eraseReferences_unreferenced, h₁]
    rfl
  refine ⟨fun hheld => ?_, hobjects.symm.trans hun, h.symm.trans ((eraseReferences_eq hun).trans ?_)⟩
  · exact absurd (holdsState_iff.2 hheld) (Bool.eq_false_iff.1 hfree)
  · rw [eraseInputs_eq, h₁]
    rfl

theorem eraseClosure_error {e : PurgeError} (h : db.eraseClosure sourceId = .error e) : db.HoldsState sourceId := by
  simp only [eraseClosure, bind, Except.bind, pure, Except.pure] at h
  split at h
  · next hv => exact holdsState_iff.1 (eraseOutputs_error hv)
  · cases h

theorem eraseDerivatives_ok (htask : db.purgeTasks.find? (·.id = taskId) = some task)
    (h : db.eraseDerivatives taskId now = .ok (erasing, db')) :
    ¬ db.HoldsState task.subjectId ∧ erasing.unreferenced = db.purgedObjects task.subjectId ∧ ∃ progress,
      db' = ((db.startTask taskId now).erasedTables task.subjectId).setProgress taskId progress := by
  simp only [eraseDerivatives, htask, bind, Except.bind, pure, Except.pure] at h
  split at h
  · cases h
  next v hv =>
  obtain ⟨outputs, unreferenced, db₁⟩ := v
  obtain ⟨hfree, hun, rfl⟩ := eraseClosure_ok hv
  cases h
  exact ⟨hfree, hun, _, rfl⟩

theorem eraseDerivatives_error {e : PurgeError} (htask : db.purgeTasks.find? (·.id = taskId) = some task)
    (h : db.eraseDerivatives taskId now = .error e) : db.HoldsState task.subjectId := by
  simp only [eraseDerivatives, htask, bind, Except.bind, pure, Except.pure] at h
  split at h
  · next hv => exact (eraseClosure_error hv :)
  · cases h

/-! ## The second transaction -/

theorem eraseObjects_ok {report : PurgeReport} (h : db.eraseObjects taskId erasing now = .ok (report, db')) :
    (∀ s ∈ db.evidenceSnapshots, pointsInto (erasing.unreferenced.map (·.id)) s.blobId = false) ∧
    (∀ t ∈ db.purgeTasks, t.id = taskId → t.startedAt.any (now < ·) = false) ∧
    ∃ progress, db' = { db with
      blobObjects := deleteWhere (·.id ∈ erasing.unreferenced.map (·.id)) db.blobObjects
      blobReferences := deleteWhere (·.blobId ∈ erasing.unreferenced.map (·.id)) db.blobReferences
      sourceVersions := update (fun v => pointsInto (erasing.unreferenced.map (·.id)) v.originalBlobId)
        (fun v => { v with originalBlobId := none }) db.sourceVersions
      purgeTasks := update (·.id = taskId) (fun t => { t with
        status := .completed, progress := some progress, finishedAt := some now }) db.purgeTasks } := by
  simp only [eraseObjects, deleteBlobObjects, finishTask, bind, Except.bind, pure, Except.pure] at h
  split at h
  · cases h
  next v hv =>
  split at hv
  · cases hv
  next hfree =>
  cases hv
  split at h
  · cases h
  next db₂ hv =>
  split at hv
  · cases hv
  next horder =>
  cases hv
  cases h
  refine ⟨by simpa using hfree, ?_, _, rfl⟩
  simpa using horder

theorem eraseObjects_error {e : PurgeError} (h : db.eraseObjects taskId erasing now = .error e) :
    (∃ s ∈ db.evidenceSnapshots, pointsInto (erasing.unreferenced.map (·.id)) s.blobId) ∨
      ∃ t ∈ db.purgeTasks, t.id = taskId ∧ t.startedAt.any (now < ·) = true := by
  simp only [eraseObjects, deleteBlobObjects, finishTask, bind, Except.bind, pure, Except.pure] at h
  split at h
  · next hv =>
    split at hv
    · next hheld => exact .inl (by simpa using hheld)
    · cases hv
  next v hv =>
  split at hv
  · cases hv
  cases hv
  split at h
  · next hv =>
    split at hv
    · next horder => exact .inr (by simpa using horder)
    · cases hv
  · cases h

/-! ## Frames -/

/-- An artifact keeps its row: it has a version that stays. -/
theorem kept_version {a : Artifact} (hv : ∃ v ∈ db.artifactVersions, v.artifactId = a.id)
    (ho : db.orphaned sourceId a = false) :
    (deleteWhere (·.id ∈ db.purgedArtifactVersions sourceId) db.artifactVersions).any (·.artifactId = a.id) = true := by
  obtain ⟨v, hmem, hid⟩ := hv
  have hany : db.artifactVersions.any (·.artifactId = a.id) = true := List.any_eq_true.2 ⟨v, hmem, by simpa using hid⟩
  rw [orphaned, hany, Bool.true_and, List.all_eq_false] at ho
  obtain ⟨v', hmem', hstays⟩ := ho
  simp only [decide_eq_true_eq, Classical.not_imp] at hstays
  refine List.any_eq_true.2 ⟨v', List.mem_filter.2 ⟨hmem', ?_⟩, by simpa using hstays.1⟩
  simpa using hstays.2

/-- An artifact without a version is not of the closure, and loses its row. -/
theorem no_version {a : Artifact} (hv : ¬ ∃ v ∈ db.artifactVersions, v.artifactId = a.id) :
    db.orphaned sourceId a = false ∧
      (deleteWhere (·.id ∈ db.purgedArtifactVersions sourceId) db.artifactVersions).any (·.artifactId = a.id) = false := by
  have hnone (t : List ArtifactVersion) (ht : t ⊆ db.artifactVersions) : t.any (·.artifactId = a.id) = false :=
    List.any_eq_false.2 fun v hmem hid => hv ⟨v, ht hmem, by simpa using hid⟩
  exact ⟨by rw [orphaned, hnone _ (List.Subset.refl _), Bool.false_and], hnone _ List.filter_sublist.subset⟩

/-- A pointer that is nulled was there. -/
theorem nulled_iff {κ α : Type} [DecidableEq κ] {ids : List κ} (get : α → Option κ) (set : α → α)
    (hget : ∀ r, get (set r) = none) {r : α} :
    (pointsInto ids (get r) = true → set r = r) ↔ pointsInto ids (get r) = false := by
  constructor
  · intro h
    by_contra hp
    have hr := h (by simpa using hp)
    rw [← hr, hget] at hp
    exact hp rfl
  · intro hp hp'
    rw [hp] at hp'
    cases hp'

theorem artifacts_frame : SameOutside (db.orphaned sourceId) db.artifacts (db.erasedTables sourceId).artifacts ↔
    ∀ a ∈ db.artifacts, db.orphaned sourceId a = false →
      pointsInto (db.purgedArtifactVersions sourceId) a.currentVersionId = false ∧
        (deleteWhere (·.id ∈ db.purgedArtifactVersions sourceId) db.artifactVersions).any (·.artifactId = a.id) := by
  rw [erasedTables, same_update_delete]
  · refine forall₃_congr fun a _ _ => and_congr ?_ (by rw [Bool.not_eq_false'])
    exact nulled_iff Artifact.currentVersionId (fun a => { a with currentVersionId := none }) fun _ => rfl
  · exact fun _ => rfl
  · exact fun _ => rfl

theorem manifests_frame :
    SameOutside (·.id ∈ db.purgedManifests sourceId) db.manifests (db.erasedTables sourceId).manifests ↔
      ∀ m ∈ db.manifests, m.id ∉ db.purgedManifests sourceId →
        pointsInto (db.purgedManifests sourceId) m.parentManifestId = false := by
  rw [erasedTables, same_update_delete]
  · refine forall₂_congr fun m _ => ?_
    rw [decide_eq_false_iff_not]
    refine forall_congr' fun hout => ?_
    rw [and_iff_left hout]
    exact nulled_iff Manifest.parentManifestId (fun m => { m with parentManifestId := none }) fun _ => rfl
  · exact fun _ => rfl
  · exact fun _ => rfl

theorem researchRuns_frame : (db.erasedTables sourceId).researchRuns = db.researchRuns ↔
    ∀ run ∈ db.researchRuns, pointsInto (db.purgedArtifactVersions sourceId) run.reportArtifactVersionId = false := by
  rw [← same_nothing, erasedTables, same_update]
  · refine forall₂_congr fun run _ => (forall_prop_of_true rfl).trans ?_
    exact nulled_iff ResearchRunRow.reportArtifactVersionId (fun run => { run with reportArtifactVersionId := none })
      fun _ => rfl
  · exact fun _ => rfl

theorem erasedTables_frame {versions : List SourceVersion} {objects : List BlobObject}
    {references : List BlobReference} {tasks : List PurgeTask} {files : List String}
    (hobjects : SameOutside (·.id ∈ (db.purgedObjects sourceId).map (·.id)) db.blobObjects objects)
    (hreferences : SameOutside (db.purgedReference sourceId) db.blobReferences references)
    (htasks : SameOutside (·.id = taskId) db.purgeTasks tasks)
    (hfiles : SameOutside (· ∈ (db.purgedObjects sourceId).map (·.contentSha256)) db.finals files) :
    db.PurgeFrame sourceId taskId { db.erasedTables sourceId with
        sourceVersions := versions, blobObjects := objects, blobReferences := references, purgeTasks := tasks
        finals := files } ↔
      db.EachHasVersion ∧ db.NoPointerIn sourceId ∧
        SameOutside (·.id ∈ db.purgedVersions sourceId) db.sourceVersions versions := by
  constructor
  · intro h
    have hartifacts := artifacts_frame.1 h.artifacts
    refine ⟨fun a ha => ?_, ⟨fun a ha ho => (hartifacts a ha ho).1, researchRuns_frame.1 h.researchRuns,
      manifests_frame.1 h.manifests⟩, h.sourceVersions⟩
    by_contra hv
    obtain ⟨ho, hnone⟩ := no_version hv
    have hkept := (hartifacts a ha ho).2
    rw [hnone] at hkept
    cases hkept
  · rintro ⟨hv, hp, hversions⟩
    exact {
      sourceVersions := hversions
      canonicalDocuments := .delete fun _ _ h => h
      canonicalNodes := .delete fun _ _ h => h
      canonicalLocators := .delete fun _ _ h => h
      indexGenerations := .delete fun _ _ h => h
      indexChunks := .trans (.delete fun _ _ h => by simp_all) (.delete fun _ _ h => by
        rw [Bool.or_assoc, h, Bool.or_true])
      manifests := manifests_frame.2 hp.manifests
      manifestItems := .trans (.delete fun _ _ h => h) (.delete fun _ _ h => h)
      messages := .delete fun _ _ h => h
      artifacts := artifacts_frame.2 fun a ha ho => ⟨hp.artifacts a ha ho, kept_version (hv a ha) ho⟩
      artifactVersions := .delete fun _ _ h => h
      userArtifactState := .delete fun _ _ h => h
      studySessionSnapshots := .delete fun _ _ h => h
      shareLinks := .delete fun _ _ h => h
      researchRuns := researchRuns_frame.2 hp.researchRuns
      evidenceSnapshots := rfl
      jobs := .delete fun _ _ h => h
      jobAttempts := .delete fun _ _ h => h
      provenanceEdges := .delete fun _ _ h => h
      blobObjects := hobjects
      blobReferences := hreferences
      purgeTasks := htasks
      finals := hfiles }

/-- The tables before the second transaction, and before its objects' files are deleted. -/
theorem startedAt_iff {progress : PurgeProgress} :
    (∃ t ∈ (((db.startTask taskId now).erasedTables sourceId).setProgress taskId progress).purgeTasks,
      t.id = taskId ∧ t.startedAt.any (now' < ·) = true) ↔
    ∃ t ∈ db.purgeTasks, t.id = taskId ∧ now' < t.startedAt.getD now := by
  simp only [setProgress, erasedTables, startTask, update, List.map_map, List.mem_map]
  constructor
  · rintro ⟨-, ⟨t, ht, rfl⟩, hid, hlate⟩
    by_cases h : t.id = taskId <;> simp [h] at hid hlate
    exact ⟨t, ht, h, hlate⟩
  · rintro ⟨t, ht, h, hlate⟩
    exact ⟨_, ⟨t, ht, rfl⟩, by simp [h], by simpa [h] using hlate⟩

/-- Only the task of the erase is written. -/
theorem tasks_frame {f : PurgeTask → PurgeTask} (hf : ∀ t, (f t).id = t.id) (tasks : List PurgeTask) :
    SameOutside (·.id = taskId) tasks (update (·.id = taskId) f tasks) :=
  .update (fun t => by rw [hf]) fun _ _ h => h

/-- No reference of an object that lost its last one is left. -/
theorem references_left : ∀ ref ∈ deleteWhere (db.purgedReference sourceId) db.blobReferences,
    ref.blobId ∉ (db.purgedObjects sourceId).map (·.id) := by
  intro ref href hid
  obtain ⟨o, ho, he⟩ := List.mem_map.1 hid
  simp only [purgedObjects, List.mem_filter, Bool.and_eq_true, Bool.not_eq_true', List.any_eq_false] at ho
  exact ho.2.2 ref href (by simpa using he.symm)

theorem PurgeFrame.refl (db : SourceDb) : db.PurgeFrame sourceId taskId db := by
  constructor <;> rfl

/-- The versions after both transactions. -/
theorem versions_frame :
    SameOutside (·.id ∈ db.purgedVersions sourceId) db.sourceVersions
      (update (fun v => pointsInto ((db.purgedObjects sourceId).map (·.id)) v.originalBlobId)
        (fun v => { v with originalBlobId := none }) (db.erasedTables sourceId).sourceVersions) ↔
    db.NoVersionIn sourceId := by
  have hblank : SameOutside (·.id ∈ db.purgedVersions sourceId) db.sourceVersions
      (db.erasedTables sourceId).sourceVersions := .update (fun _ => rfl) fun _ _ h => h
  have hlater {t'' : List SourceVersion} :
      SameOutside (·.id ∈ db.purgedVersions sourceId) db.sourceVersions t'' ↔
        SameOutside (·.id ∈ db.purgedVersions sourceId) (db.erasedTables sourceId).sourceVersions t'' :=
    ⟨hblank.symm.trans, hblank.trans⟩
  rw [hlater, same_update]
  · constructor
    · intro h v hv hout
      have hout : decide (v.id ∈ db.purgedVersions sourceId) = false := decide_eq_false hout
      exact (nulled_iff SourceVersion.originalBlobId (fun v => { v with originalBlobId := none }) fun _ => rfl).1
        (h v ((hblank.mem hout).2 hv) hout)
    · intro h v hv hout hp
      rw [h v ((hblank.mem hout).1 hv) (decide_eq_false_iff_not.1 hout)] at hp
      cases hp
  · exact fun _ => rfl

/-- **A purge erases its closure and nothing else** exactly when it is refused, or every
artifact has a version and nothing outside the closure points at what is erased. -/
theorem erase_frame_iff (htask : db.purgeTasks.find? (·.id = taskId) = some task) :
    db.PurgeFrame task.subjectId taskId (db.erase taskId now now').2 ↔
      db.HoldsState task.subjectId ∨ (db.EachHasVersion ∧ db.NoPointerIn task.subjectId ∧
        (db.HoldsObjects task.subjectId taskId now now' ∨ db.NoVersionIn task.subjectId)) := by
  cases hd : db.eraseDerivatives taskId now with
  | error e =>
    simp only [erase, hd]
    exact ⟨fun _ => .inl (eraseDerivatives_error htask hd), fun _ => .refl db⟩
  | ok v =>
    obtain ⟨erasing, db₁⟩ := v
    obtain ⟨hfree, hun, progress, rfl⟩ := eraseDerivatives_ok htask hd
    rw [or_iff_right hfree]
    have hobjects : SameOutside (·.id ∈ (db.purgedObjects task.subjectId).map (·.id)) db.blobObjects
        (db.erasedTables task.subjectId).blobObjects := .update (fun _ => rfl) fun _ _ h => h
    have hreferences : SameOutside (db.purgedReference task.subjectId) db.blobReferences
        (db.erasedTables task.subjectId).blobReferences := .delete fun _ _ h => h
    have htasks : SameOutside (·.id = taskId) db.purgeTasks
        (((db.startTask taskId now).erasedTables task.subjectId).setProgress taskId progress).purgeTasks :=
      .trans (tasks_frame (fun _ => by rfl) _) (tasks_frame (fun _ => by rfl) _)
    have hfiles : SameOutside (· ∈ (db.purgedObjects task.subjectId).map (·.contentSha256)) db.finals
        (deleteWhere (· ∈ erasing.unreferenced.map (·.contentSha256)) db.finals) := hun ▸ .delete fun _ _ h => h
    cases ho : ((((db.startTask taskId now).erasedTables task.subjectId).setProgress taskId progress).deleteFinals
        erasing.unreferenced).eraseObjects taskId erasing now' with
    | error e =>
      simp only [erase, hd, ho]
      have hheld : db.HoldsObjects task.subjectId taskId now now' :=
        (hun ▸ eraseObjects_error ho).imp id startedAt_iff.1
      refine (erasedTables_frame hobjects hreferences htasks hfiles).trans ?_
      have hversions : SameOutside (·.id ∈ db.purgedVersions task.subjectId) db.sourceVersions
        (db.erasedTables task.subjectId).sourceVersions := .update (fun _ => rfl) fun _ _ h => h
      exact and_congr_right fun _ => and_congr_right fun _ => iff_of_true hversions (.inl hheld)
    | ok v =>
      obtain ⟨report, db₂⟩ := v
      simp only [erase, hd, ho]
      obtain ⟨hevidence, horder, progress', rfl⟩ := eraseObjects_ok ho
      rw [hun] at hevidence hfiles ⊢
      have hheld : ¬ db.HoldsObjects task.subjectId taskId now now' := by
        rintro (⟨s, hs, hp⟩ | hlate)
        · rw [hevidence s hs] at hp; cases hp
        · obtain ⟨t, ht, hid, hlate⟩ := startedAt_iff.2 hlate
          rw [horder t ht hid] at hlate; cases hlate
      rw [or_iff_right hheld]
      refine (erasedTables_frame ?_ ?_ ?_ hfiles).trans ?_
      · exact hobjects.trans (.delete fun _ _ h => h)
      · exact hreferences.trans (.delete fun ref href h => absurd (by simpa using h) (references_left ref href))
      · exact htasks.trans (tasks_frame (fun _ => by rfl) _)
      · exact and_congr_right fun _ => and_congr_right fun _ => versions_frame

end SourceDb

/-- A purge of source 5: its version 1 has a blob and is pinned by manifest 3, of which
artifact 4 has a version. -/
def purgeOfOne : SourceDb where
  sourceVersions := [⟨1, 5, some 0, "ca97", some 1⟩]
  manifests := [⟨3, none⟩]
  manifestItems := [⟨3, "source_version", 1⟩]
  artifacts := [⟨4, some 6⟩]
  artifactVersions := [⟨6, 4, 3⟩]
  blobObjects := [{ id := 0, contentSha256 := "ca97", sizeBytes := 1, storagePath := .object "ca97", state := .finalized }]
  blobReferences := [⟨0, "source_version", 1⟩]
  purgeTasks := [⟨7, "source", 5, .pending, none, none, none⟩]
  finals := ["ca97"]

theorem erase_frame_of_one : purgeOfOne.PurgeFrame 5 7 (purgeOfOne.erase 7 0 1).2 := by
  have htask : purgeOfOne.purgeTasks.find? (·.id = 7) = some ⟨7, "source", 5, .pending, none, none, none⟩ := rfl
  refine (SourceDb.erase_frame_iff htask).2 (.inr ⟨by decide +kernel, ⟨?_, ?_, ?_⟩, .inr (by decide +kernel)⟩)
  all_goals decide +kernel

/-- Somebody has created artifact 8 and not yet written its first version. -/
theorem erases_draft : ¬ ∀ (db : SourceDb) (taskId : Uuid) (task : PurgeTask) (now now' : Time),
    db.purgeTasks.find? (·.id = taskId) = some task →
      db.PurgeFrame task.subjectId taskId (db.erase taskId now now').2 := by
  intro h
  have hframe := h { purgeOfOne with artifacts := [⟨4, some 6⟩, ⟨8, none⟩] } 7 _ 0 1 rfl
  have hartifacts := hframe.artifacts
  revert hartifacts
  decide +kernel

end MilpbookLM
