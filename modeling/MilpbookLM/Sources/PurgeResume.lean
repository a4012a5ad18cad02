/-
An erase that died and ran again. The worker may die before the first commit,
after any number of files, or after the second commit; the lease of its job
expires and the erase runs from the start. The blobs to delete are only known
to the first run: the references that name them go with its first commit, so
the second run finds no blob at all and reports that it has finished
(`NothingLeft`, `erase_again`). `erase_resumes_iff` says when that is harmless.
-/
import MilpbookLM.Sources.PurgeFrame

namespace MilpbookLM

open Table

/-- Where an erase dies: before its first commit, after it with so many files
deleted, or after the second transaction. -/
inductive CrashPoint
  | starting
  | deleting (files : Nat)
  | finished
  deriving DecidableEq

namespace SourceDb

section Crash

variable (db : SourceDb) (sourceId taskId : Uuid) (now now' : Time)

/-- The rows and files a dead erase leaves. A transaction that did not commit left nothing. -/
def crashed : CrashPoint → SourceDb
  | .starting => db
  | .deleting files =>
    match db.eraseDerivatives taskId now with
    | .error _ => db
    | .ok (erasing, db) => db.deleteFinals (erasing.unreferenced.take files)
  | .finished => (db.erase taskId now now').2

/-- All rows and files; of a purge task not its report of a run: progress and times. -/
def unreported : SourceDb :=
  { db with
    purgeTasks := db.purgeTasks.map fun t => { t with progress := none, startedAt := none, finishedAt := none } }

/-- Run again after the crash, an erase leaves what it leaves in one run, and of the
blobs it erases neither a row nor a file when the one run does not fail. -/
structure Resumes (later later' : Time) (point : CrashPoint) : Prop where
  rows : ((db.crashed taskId now now' point).erase taskId later later').2.unreported =
    (db.erase taskId now now').2.unreported
  objects : ∀ report, (db.erase taskId now now').1 = .ok report →
    (∀ o ∈ ((db.crashed taskId now now' point).erase taskId later later').2.blobObjects,
      o.id ∉ (db.purgedObjects sourceId).map (·.id)) ∧
    ∀ file ∈ ((db.crashed taskId now now' point).erase taskId later later').2.finals,
      file ∉ (db.purgedObjects sourceId).map (·.contentSha256)

/-- The run before the crash had no blob to delete, or had not begun or had ended. -/
def Resumable (point : CrashPoint) : Prop :=
  db.HoldsState sourceId ∨ db.purgedObjects sourceId = [] ∨ point = .starting ∨
    (point = .finished ∧ ¬ db.HoldsObjects sourceId taskId now now')

/-! ## What one run leaves -/

/-- The rows under the task, with nothing but its status. -/
def atStatus (status : PurgeStatus) : SourceDb :=
  { db with
    purgeTasks := db.purgeTasks.map fun t => { t with
      status := if t.id = taskId then status else t.status
      progress := none, startedAt := none, finishedAt := none } }

/-- The same rows under other tasks. -/
def withTasks (tasks : List PurgeTask) : SourceDb := { db with purgeTasks := tasks }

/-- The first transaction, and the files of these blobs. -/
def filesErased (objects : List BlobObject) : SourceDb :=
  { db.erasedTables sourceId with finals := deleteWhere (· ∈ objects.map (·.contentSha256)) db.finals }

/-- Both transactions. -/
def objectsErased : SourceDb :=
  { db.filesErased sourceId (db.purgedObjects sourceId) with
    blobObjects := deleteWhere (·.id ∈ (db.purgedObjects sourceId).map (·.id)) (db.erasedTables sourceId).blobObjects
    blobReferences :=
      deleteWhere (·.blobId ∈ (db.purgedObjects sourceId).map (·.id)) (db.erasedTables sourceId).blobReferences
    sourceVersions := update (fun v => pointsInto ((db.purgedObjects sourceId).map (·.id)) v.originalBlobId)
      (fun v => { v with originalBlobId := none }) (db.erasedTables sourceId).sourceVersions }

/-- The task was started by an earlier run, if at all. -/
def StartedBy : Prop := ∀ t ∈ db.purgeTasks, t.id = taskId → ∀ started ∈ t.startedAt, started ≤ now

end Crash

variable {db : SourceDb} {sourceId taskId : Uuid} {now now' later later' : Time} {task : PurgeTask}
  {point : CrashPoint}

/-- The tasks after some steps of an erase: its own is still there, started by `later`. -/
structure TaskLeft (db : SourceDb) (taskId : Uuid) (task : PurgeTask) (later : Time) (tasks : List PurgeTask) : Prop where
  task : ∃ task', tasks.find? (·.id = taskId) = some task' ∧ task'.subjectId = task.subjectId
  started : ∀ t ∈ tasks, t.id = taskId → ∀ started ∈ t.startedAt, started ≤ later
  others : ∀ status, (db.withTasks tasks).atStatus taskId status = db.atStatus taskId status

theorem TaskLeft.update {tasks : List PurgeTask} (h : TaskLeft db taskId task later tasks) {f : PurgeTask → PurgeTask}
    (hf : ∀ t, f t = { t with status := (f t).status, progress := (f t).progress, startedAt := (f t).startedAt
                              finishedAt := (f t).finishedAt })
    (hstarted : ∀ t, (∀ started ∈ t.startedAt, started ≤ later) → ∀ started ∈ (f t).startedAt, started ≤ later) :
    TaskLeft db taskId task later (Table.update (·.id = taskId) f tasks) where
  task := by
    obtain ⟨task', hfind, hsubject⟩ := h.task
    have hid (t : PurgeTask) : (f t).id = t.id := by rw [hf]
    refine ⟨f task', ?_, by rw [hf, ← hsubject]⟩
    have hsame : ((fun t : PurgeTask => decide (t.id = taskId)) ∘ fun t => if decide (t.id = taskId) then f t else t) =
        fun t => decide (t.id = taskId) := by
      funext t
      by_cases ht : t.id = taskId <;> simp [ht, hid]
    have hfound : task'.id = taskId := by simpa using List.find?_some hfind
    rw [Table.update, List.find?_map, hsame, hfind]
    simp [hfound]
  started := by
    intro t ht hid
    obtain ⟨t, hmem, rfl⟩ := List.mem_map.1 ht
    by_cases htask : t.id = taskId
    · simp only [htask, decide_true, if_true]
      exact hstarted t (h.started t hmem htask)
    · simp [htask] at hid
  others := by
    intro status
    refine Eq.trans ?_ (h.others status)
    simp only [atStatus, withTasks, Table.update, List.map_map]
    congr 1
    refine List.map_congr_left fun t _ => ?_
    by_cases ht : t.id = taskId
    · simp only [Function.comp_apply, ht, decide_true, if_true]
      rw [hf]
      simp [ht]
    · simp [ht]

theorem erase_refused (now now' : Time) (htask : db.purgeTasks.find? (·.id = taskId) = some task)
    (hheld : db.HoldsState task.subjectId) :
    ∃ e, db.eraseDerivatives taskId now = .error e ∧ db.erase taskId now now' = (.error e, db) := by
  cases hd : db.eraseDerivatives taskId now with
  | ok v =>
    obtain ⟨erasing, db₁⟩ := v
    exact absurd hheld (eraseDerivatives_ok htask hd).1
  | error e => exact ⟨e, rfl, by simp only [erase, hd]⟩

/-- A run that is not refused at once, up to its second transaction. -/
theorem erase_begins (now : Time) (htask : db.purgeTasks.find? (·.id = taskId) = some task)
    (hfree : ¬ db.HoldsState task.subjectId) :
    ∃ erasing progress, erasing.unreferenced = db.purgedObjects task.subjectId ∧
      db.eraseDerivatives taskId now =
        .ok (erasing, ((db.startTask taskId now).erasedTables task.subjectId).setProgress taskId progress) := by
  cases hd : db.eraseDerivatives taskId now with
  | ok v =>
    obtain ⟨erasing, db₁⟩ := v
    obtain ⟨-, hun, progress, rfl⟩ := eraseDerivatives_ok htask hd
    exact ⟨erasing, progress, hun, rfl⟩
  | error e => exact absurd (eraseDerivatives_error htask hd) hfree

theorem clock_late (hstarted : db.StartedBy taskId now) (hnow : now ≤ now') :
    ¬ ∃ t ∈ db.purgeTasks, t.id = taskId ∧ now' < t.startedAt.getD now := by
  rintro ⟨t, ht, hid, hlate⟩
  cases hs : t.startedAt with
  | none =>
    rw [hs, Option.getD_none] at hlate
    exact absurd hlate (not_lt.2 hnow)
  | some started =>
    rw [hs, Option.getD_some] at hlate
    exact absurd hlate (not_lt.2 (le_trans (hstarted t ht hid started hs) hnow))

theorem unreported_tasks (db : SourceDb) {status : PurgeStatus} {tasks : List PurgeTask}
    (htasks : (tasks.map fun t => { t with progress := none, startedAt := none, finishedAt := none }) =
      db.purgeTasks.map fun t => { t with
        status := if t.id = taskId then status else t.status
        progress := none, startedAt := none, finishedAt := none }) :
    (db.withTasks tasks).unreported = db.atStatus taskId status := by
  rw [unreported, atStatus, withTasks, htasks]

theorem tasks_begun (htask : db.purgeTasks.find? (·.id = taskId) = some task) (hstarted : db.StartedBy taskId now)
    (hlater : now ≤ later) (progress : PurgeProgress) :
    TaskLeft db taskId task later
      (((db.startTask taskId now).erasedTables task.subjectId).setProgress taskId progress).purgeTasks := by
  have hbefore : TaskLeft db taskId task later db.purgeTasks :=
    ⟨⟨task, htask, rfl⟩, fun t ht hid started hs => le_trans (hstarted t ht hid started hs) hlater, fun _ => rfl⟩
  refine (hbefore.update (fun _ => rfl) ?_).update (fun _ => rfl) fun _ h => h
  intro t ht started hs
  obtain rfl := Option.some.inj hs
  cases h : t.startedAt with
  | none => exact hlater
  | some s => exact ht s h

/-- With an evidence snapshot in the way the second transaction fails. -/
theorem erase_held (htask : db.purgeTasks.find? (·.id = taskId) = some task) (hstarted : db.StartedBy taskId now)
    (hlater : now ≤ later) (hfree : ¬ db.HoldsState task.subjectId)
    (hheld : db.HoldsObjects task.subjectId taskId now now') :
    (∃ e, (db.erase taskId now now').1 = .error e) ∧
      (∃ tasks, TaskLeft db taskId task later tasks ∧
        (db.erase taskId now now').2 = (db.filesErased task.subjectId (db.purgedObjects task.subjectId)).withTasks tasks) ∧
      (db.erase taskId now now').2.unreported =
        (db.filesErased task.subjectId (db.purgedObjects task.subjectId)).atStatus taskId .running := by
  obtain ⟨erasing, progress, hun, hd⟩ := erase_begins now htask hfree
  cases ho : ((((db.startTask taskId now).erasedTables task.subjectId).setProgress taskId progress).deleteFinals
      erasing.unreferenced).eraseObjects taskId erasing now' with
  | error e =>
    simp only [erase, hd, ho]
    refine ⟨⟨e, rfl⟩, ?_⟩
    rw [hun]
    refine ⟨⟨_, tasks_begun htask hstarted hlater progress, rfl⟩, ?_⟩
    exact unreported_tasks (db.filesErased task.subjectId (db.purgedObjects task.subjectId)) (by
      simp only [setProgress, erasedTables, startTask, update, List.map_map]
      refine List.map_congr_left fun t _ => ?_
      by_cases hid : t.id = taskId <;> simp [hid])
  | ok v =>
    obtain ⟨report, db₂⟩ := v
    obtain ⟨hevidence, horder, -⟩ := eraseObjects_ok ho
    rcases hheld with ⟨s, hs, hp⟩ | hlate
    · rw [hun] at hevidence
      rw [hevidence s hs] at hp
      cases hp
    · obtain ⟨t, ht, hid, hlate⟩ := startedAt_iff.2 hlate
      rw [horder t ht hid] at hlate
      cases hlate

/-- What a run that ended leaves. -/
theorem erase_ok {db' : SourceDb} {report : PurgeReport} (htask : db.purgeTasks.find? (·.id = taskId) = some task)
    (h : db.erase taskId now now' = (.ok report, db')) :
    ∃ tasks, db' = (db.objectsErased task.subjectId).withTasks tasks := by
  unfold erase at h
  split at h
  · cases h
  next erasing db₁ hd =>
  obtain ⟨-, hun, progress, rfl⟩ := eraseDerivatives_ok htask hd
  dsimp only at h
  split at h
  · cases h
  next report' db₂ ho =>
  cases h
  obtain ⟨-, -, progress', rfl⟩ := eraseObjects_ok ho
  rw [hun]
  exact ⟨_, rfl⟩

/-- With none it ends. -/
theorem erase_done (htask : db.purgeTasks.find? (·.id = taskId) = some task) (hstarted : db.StartedBy taskId now)
    (hlater : now ≤ later) (hfree : ¬ db.HoldsState task.subjectId)
    (hheld : ¬ db.HoldsObjects task.subjectId taskId now now') :
    (∃ report, (db.erase taskId now now').1 = .ok report) ∧
      (∃ tasks, TaskLeft db taskId task later tasks ∧
        (db.erase taskId now now').2 = (db.objectsErased task.subjectId).withTasks tasks) ∧
      (db.erase taskId now now').2.unreported = (db.objectsErased task.subjectId).atStatus taskId .completed := by
  obtain ⟨erasing, progress, hun, hd⟩ := erase_begins now htask hfree
  cases ho : ((((db.startTask taskId now).erasedTables task.subjectId).setProgress taskId progress).deleteFinals
      erasing.unreferenced).eraseObjects taskId erasing now' with
  | error e => exact absurd ((hun ▸ eraseObjects_error ho).imp id startedAt_iff.1) hheld
  | ok v =>
    obtain ⟨report, db₂⟩ := v
    simp only [erase, hd, ho]
    refine ⟨⟨report, rfl⟩, ?_⟩
    obtain ⟨-, -, progress', rfl⟩ := eraseObjects_ok ho
    rw [hun]
    refine ⟨⟨_, ?_, rfl⟩, ?_⟩
    · exact (tasks_begun htask hstarted hlater progress).update (fun _ => rfl) fun _ h => h
    exact unreported_tasks (db.objectsErased task.subjectId) (by
      simp only [deleteFinals, setProgress, erasedTables, startTask, update, List.map_map]
      refine List.map_congr_left fun t _ => ?_
      by_cases hid : t.id = taskId <;> simp [hid])

/-! ## What a second run finds -/

/-- Nothing of the closure is left, and the versions are blank. -/
structure NothingLeft (db : SourceDb) (sourceId : Uuid) : Prop where
  versions : ∀ v ∈ db.sourceVersions, v.id ∈ db.purgedVersions sourceId →
    { v with originalBlobId := none, contentSha256 := "purged:" ++ v.id.str, contentSizeBytes := none } = v
  documents : db.purgedDocuments sourceId = []
  manifests : db.purgedManifests sourceId = []
  artifacts : ∀ a ∈ db.artifacts, db.artifactVersions.any (·.artifactId = a.id) = true
  generations : ∀ g ∈ db.indexGenerations, decide (g.sourceId = sourceId) = false
  jobs : ∀ job ∈ db.jobs, job.names sourceId (db.purgedVersions sourceId) = false
  edges : ∀ e ∈ db.provenanceEdges, e.touches sourceId (db.purgedVersions sourceId) [] = false
  references : ∀ ref ∈ db.blobReferences, ref.ofVersions (db.purgedVersions sourceId) = false

theorem nodeErased_nil {nodes : List CanonicalNodeRow} (depth : Nat) (node : CanonicalNodeRow) :
    nodeErased nodes [] depth node = false := by
  induction depth generalizing node with
  | zero => rfl
  | succ depth ih =>
    simp only [nodeErased, ih, Bool.and_false, Bool.or_eq_false_iff]
    exact ⟨rfl, by simp⟩

namespace NothingLeft

theorem artifactVersions (h : NothingLeft db sourceId) : db.purgedArtifactVersions sourceId = [] := by
  simp [purgedArtifactVersions, artifactVersionIds, h.manifests]

theorem nodes (h : NothingLeft db sourceId) : db.purgedNodes sourceId = [] := by
  simp [purgedNodes, erasedNodes, h.documents, nodeErased_nil]

theorem reference (h : NothingLeft db sourceId) {ref : BlobReference} (href : ref ∈ db.blobReferences) :
    db.purgedReference sourceId ref = false := by
  rw [purgedReference, h.references ref href, h.artifactVersions]
  simp [BlobReference.ofArtifactVersions]

theorem objects (h : NothingLeft db sourceId) : db.purgedObjects sourceId = [] := by
  have href : db.blobReferences.filter (db.purgedReference sourceId) = [] :=
    List.filter_eq_nil_iff.2 fun ref href => by simp [h.reference href]
  simp [purgedObjects, href]

/-- The first transaction changes no row but the task's. -/
theorem erasedTables (h : NothingLeft db sourceId) : db.erasedTables sourceId = db := by
  have hjobs : db.purgedJobs sourceId = [] := by
    simpa [purgedJobs] using fun job hjob => by simp [h.jobs job hjob]
  have hgenerations : db.purgedGenerations sourceId = [] := by
    simpa [purgedGenerations] using fun g hg => by simpa using h.generations g hg
  have hversions : update (·.id ∈ db.purgedVersions sourceId) (fun v => { v with
      originalBlobId := none, contentSha256 := "purged:" ++ v.id.str, contentSizeBytes := none }) db.sourceVersions =
        db.sourceVersions := by
    conv_rhs => rw [← List.map_id db.sourceVersions]
    refine List.map_congr_left fun v hv => ?_
    by_cases hid : v.id ∈ db.purgedVersions sourceId
    · rw [if_pos (decide_eq_true hid)]
      exact h.versions v hv hid
    · rw [if_neg (by simpa using hid)]
      rfl
  have hartifacts := deleteWhere_none (p := fun a : Artifact => !db.artifactVersions.any (·.artifactId = a.id))
    fun a ha => by rw [h.artifacts a ha]; rfl
  simp only [SourceDb.erasedTables, h.documents, h.manifests, h.artifactVersions, h.nodes, h.objects, hjobs,
    hgenerations, hversions, pointsInto_nil, List.map_nil, List.not_mem_nil, decide_false, Bool.or_self, deleteWhere_false,
    update_false, hartifacts, deleteWhere_none h.generations, deleteWhere_none h.jobs, deleteWhere_none h.edges,
    deleteWhere_none fun _ href => h.reference href]

theorem objectsErased (h : NothingLeft db sourceId) : db.objectsErased sourceId = db := by
  simp only [SourceDb.objectsErased, filesErased, h.objects, h.erasedTables, List.map_nil, List.not_mem_nil,
    decide_false, deleteWhere_false, pointsInto_nil, update_false]

/-- **A second run completes the task and does nothing else.** -/
theorem erase_again (h : NothingLeft db task.subjectId) (htask : db.purgeTasks.find? (·.id = taskId) = some task)
    (hstarted : db.StartedBy taskId now) (hnow : now ≤ now') :
    (db.erase taskId now now').2.unreported = db.atStatus taskId .completed := by
  have hfree : ¬ db.HoldsState task.subjectId := by
    rintro ⟨s, -, -, state, -, hid, -⟩
    rw [h.artifactVersions] at hid
    exact List.not_mem_nil hid
  have hheld : ¬ db.HoldsObjects task.subjectId taskId now now' := by
    rintro (⟨s, -, hp⟩ | hlate)
    · rw [h.objects, List.map_nil, pointsInto_nil] at hp
      cases hp
    · exact clock_late hstarted hnow hlate
  have hdone := (erase_done htask hstarted hnow hfree hheld).2.2
  rwa [h.objectsErased] at hdone

/-- What one run leaves, up to the rows of the blobs and what names them. -/
theorem of_erased {versions : List SourceVersion} {objects : List BlobObject} {references : List BlobReference}
    {tasks : List PurgeTask} {files : List String}
    (hids : ∀ ids, ({ db with sourceVersions := versions } : SourceDb).versionIds ids = db.versionIds ids)
    (hversions : ∀ v ∈ versions, v.id ∈ db.purgedVersions sourceId →
      { v with originalBlobId := none, contentSha256 := "purged:" ++ v.id.str, contentSizeBytes := none } = v)
    (hreferences : ∀ ref ∈ references, ref ∈ (db.erasedTables sourceId).blobReferences) :
    NothingLeft { db.erasedTables sourceId with
      sourceVersions := versions, blobObjects := objects, blobReferences := references, purgeTasks := tasks
      finals := files } sourceId := by
  generalize hdb' : ({ db.erasedTables sourceId with
    sourceVersions := versions, blobObjects := objects, blobReferences := references, purgeTasks := tasks
    finals := files } : SourceDb) = db'
  have hpurged : db'.purgedVersions sourceId = db.purgedVersions sourceId := hdb' ▸ hids sourceId
  have hdocuments : db'.purgedDocuments sourceId = [] := by
    rw [purgedDocuments, hpurged, documentIds, List.map_eq_nil_iff, List.filter_eq_nil_iff]
    intro d hd
    subst hdb'
    obtain ⟨hd, hstays⟩ := List.mem_filter.1 hd
    intro hversion
    have hid : d.id ∈ db.purgedDocuments sourceId := List.mem_map_of_mem (List.mem_filter.2 ⟨hd, hversion⟩)
    simp [hid] at hstays
  refine ⟨?_, hdocuments, ?_, ?_, ?_, ?_, ?_, ?_⟩
  · rw [hpurged]
    subst hdb'
    exact hversions
  · rw [purgedManifests, hpurged, hdocuments, manifestIds, List.dedup_eq_nil, List.map_eq_nil_iff,
      List.filter_eq_nil_iff]
    intro item hitem
    subst hdb'
    obtain ⟨hitem, hstays⟩ := List.mem_filter.1 (List.mem_filter.1 hitem).1
    intro hpins
    have hid : item.manifestId ∈ db.purgedManifests sourceId := by
      refine List.mem_dedup.2 (List.mem_map_of_mem (List.mem_filter.2 ⟨hitem, ?_⟩))
      simp only [pins, List.not_mem_nil, decide_false, Bool.and_false, Bool.or_false] at hpins
      rw [pins, hpins, Bool.true_or]
    simp [hid] at hstays
  · subst hdb'
    intro a ha
    have hversion := (List.mem_filter.1 ha).2
    rwa [Bool.not_not] at hversion
  · subst hdb'
    intro g hg
    simpa using (List.mem_filter.1 hg).2
  · rw [hpurged]
    subst hdb'
    intro job hjob
    simpa using (List.mem_filter.1 hjob).2
  · rw [hpurged]
    subst hdb'
    intro e he
    have hstays := (List.mem_filter.1 he).2
    simp only [ProvenanceEdge.touches, Bool.not_eq_true', Bool.or_eq_false_iff] at hstays ⊢
    exact ⟨⟨hstays.1.1, by simp⟩, by simp⟩
  · rw [hpurged]
    subst hdb'
    intro ref href
    have hstays := (List.mem_filter.1 (hreferences ref href)).2
    simp only [purgedReference, Bool.not_eq_true', Bool.or_eq_false_iff] at hstays
    exact hstays.1

end NothingLeft

/-! ## Run again -/

/-- What a death after the first commit leaves: the first transaction, and some files. -/
theorem crashed_deleting (files : Nat) (htask : db.purgeTasks.find? (·.id = taskId) = some task)
    (hstarted : db.StartedBy taskId now) (hlater : now ≤ later) (hfree : ¬ db.HoldsState task.subjectId) :
    ∃ tasks, TaskLeft db taskId task later tasks ∧
      db.crashed taskId now now' (.deleting files) =
        (db.filesErased task.subjectId ((db.purgedObjects task.subjectId).take files)).withTasks tasks := by
  obtain ⟨erasing, progress, hun, hd⟩ := erase_begins now htask hfree
  refine ⟨_, tasks_begun htask hstarted hlater progress, ?_⟩
  simp only [crashed, hd, hun]
  rfl

/-- Versions that lost their content or their blob are the same versions. -/
theorem versionIds_update {p : SourceVersion → Bool} {f : SourceVersion → SourceVersion}
    (hid : ∀ v, (f v).id = v.id) (hsource : ∀ v, (f v).sourceId = v.sourceId) (versions : List SourceVersion)
    (sourceId : Uuid) :
    ((update p f versions).filter (·.sourceId = sourceId)).map (·.id) =
      (versions.filter (·.sourceId = sourceId)).map (·.id) := by
  rw [filter_update fun v => by rw [hsource], update, List.map_map]
  refine List.map_congr_left fun v _ => ?_
  by_cases hp : p v <;> simp [hp, hid]

theorem blank_erased {v : SourceVersion} (hv : v ∈ (db.erasedTables sourceId).sourceVersions)
    (hid : v.id ∈ db.purgedVersions sourceId) :
    { v with originalBlobId := none, contentSha256 := "purged:" ++ v.id.str, contentSizeBytes := none } = v := by
  rcases mem_update hv with ⟨-, hother⟩ | ⟨old, -, -, rfl⟩
  · simp only [purgedVersions] at hid
    simp [purgedVersions, hid] at hother
  · rfl

theorem versionIds_erased (db : SourceDb) (sourceId ids : Uuid) :
    ({ db with sourceVersions := (db.erasedTables sourceId).sourceVersions } : SourceDb).versionIds ids =
      db.versionIds ids := by
  refine versionIds_update ?_ ?_ _ ids <;> exact fun _ => rfl

/-- In the tables of a run a second run finds nothing. -/
theorem left_filesErased {objects : List BlobObject} {tasks : List PurgeTask} :
    NothingLeft ((db.filesErased sourceId objects).withTasks tasks) sourceId :=
  .of_erased (versionIds_erased db sourceId) (fun _ hv hid => blank_erased hv hid) fun _ h => h

theorem versionIds_left (db : SourceDb) (sourceId ids : Uuid) (tasks : List PurgeTask) :
    ((db.objectsErased sourceId).withTasks tasks).versionIds ids = db.versionIds ids := by
  refine Eq.trans ?_ (versionIds_erased db sourceId ids)
  refine versionIds_update ?_ ?_ _ ids <;> exact fun _ => rfl

theorem left_objectsErased {tasks : List PurgeTask} :
    NothingLeft ((db.objectsErased sourceId).withTasks tasks) sourceId := by
  refine .of_erased (fun ids => versionIds_left db sourceId ids tasks) (fun v hv hid => ?_) fun ref href => (List.mem_filter.1 href).1
  rcases mem_update hv with ⟨hv, -⟩ | ⟨old, hold, -, rfl⟩
  · exact blank_erased hv hid
  · exact congrArg (fun v : SourceVersion => { v with originalBlobId := none }) (blank_erased hold hid)

/-- Run again over tables in which nothing is left. -/
theorem erase_again_left {db' : SourceDb} {tasks : List PurgeTask} (htasks : TaskLeft db taskId task later tasks)
    (hleft : NothingLeft (db'.withTasks tasks) task.subjectId) (hlater : later ≤ later') :
    ((db'.withTasks tasks).erase taskId later later').2.unreported =
      (db'.withTasks db.purgeTasks).atStatus taskId .completed := by
  obtain ⟨task', hfind, hsubject⟩ := htasks.task
  rw [← hsubject] at hleft
  rw [hleft.erase_again hfind htasks.started hlater]
  have hothers := congrArg purgeTasks (htasks.others .completed)
  simp only [atStatus, withTasks] at hothers ⊢
  rw [hothers]

/-- Two runs that end in another status do not end alike. -/
theorem status_ne (htask : db.purgeTasks.find? (·.id = taskId) = some task) {db₁ db₂ : SourceDb}
    (h₁ : db₁.purgeTasks = db.purgeTasks) (h₂ : db₂.purgeTasks = db.purgeTasks) :
    db₁.atStatus taskId .completed ≠ db₂.atStatus taskId .running := by
  intro h
  have htasks := congrArg purgeTasks h
  simp only [atStatus, h₁, h₂] at htasks
  have hrow := List.map_eq_map_iff.1 htasks task (List.mem_of_find?_eq_some htask)
  have hid : task.id = taskId := by simpa using List.find?_some htask
  simp [hid] at hrow

theorem objectsErased_blobs :
    (∀ o ∈ (db.objectsErased sourceId).blobObjects, o.id ∉ (db.purgedObjects sourceId).map (·.id)) ∧
      ∀ file ∈ (db.objectsErased sourceId).finals, file ∉ (db.purgedObjects sourceId).map (·.contentSha256) :=
  ⟨fun _ ho => by simpa using (List.mem_filter.1 ho).2, fun _ hfile => by simpa using (List.mem_filter.1 hfile).2⟩

/-- With no blob to delete the first transaction is all there is. -/
theorem objectsErased_nil (h : db.purgedObjects sourceId = []) : db.objectsErased sourceId = db.erasedTables sourceId := by
  simp only [objectsErased, filesErased, h, List.map_nil, List.not_mem_nil, decide_false, deleteWhere_false, pointsInto_nil,
    update_false]
  rfl

/-- After both transactions no row is left of a blob that lost its last reference; after one, it is. -/
theorem objects_ne {status : PurgeStatus} {tasks : List PurgeTask} {objects : List BlobObject}
    (hblobs : db.purgedObjects sourceId ≠ []) :
    ((db.filesErased sourceId objects).withTasks tasks).atStatus taskId status ≠
      (db.objectsErased sourceId).atStatus taskId status := by
  intro h
  obtain ⟨o, ho⟩ := List.exists_mem_of_ne_nil _ hblobs
  have hid : o.id ∈ (db.purgedObjects sourceId).map (·.id) := List.mem_map_of_mem ho
  have hrow : { o with state := .purged, finalizedAt := none } ∈ (db.erasedTables sourceId).blobObjects :=
    List.mem_map.2 ⟨o, (List.mem_filter.1 ho).1, by rw [if_pos (decide_eq_true hid)]⟩
  have hobjects : (db.erasedTables sourceId).blobObjects = (db.objectsErased sourceId).blobObjects :=
    (congrArg blobObjects h :)
  rw [hobjects] at hrow
  exact objectsErased_blobs.1 _ hrow hid

/-- Only an evidence snapshot stops the second transaction, whenever it runs. -/
theorem holdsObjects_iff (hstarted : db.StartedBy taskId now) (hnow : now ≤ now') :
    db.HoldsObjects sourceId taskId now now' ↔
      ∃ s ∈ db.evidenceSnapshots, pointsInto ((db.purgedObjects sourceId).map (·.id)) s.blobId :=
  or_iff_left (clock_late hstarted hnow)

theorem resumed_starting (htask : db.purgeTasks.find? (·.id = taskId) = some task) (hstarted : db.StartedBy taskId now)
    (hnow : now ≤ now') (hlater : now' ≤ later) (hlater' : later ≤ later') (hfree : ¬ db.HoldsState task.subjectId) :
    (db.erase taskId later later').2.unreported = (db.erase taskId now now').2.unreported := by
  have hstarted' : db.StartedBy taskId later := fun t ht hid started hs =>
    le_trans (hstarted t ht hid started hs) (le_trans hnow hlater)
  by_cases hheld : db.HoldsObjects task.subjectId taskId now now'
  · have hheld' := (holdsObjects_iff hstarted' hlater').2 ((holdsObjects_iff hstarted hnow).1 hheld)
    rw [(erase_held htask hstarted hnow hfree hheld).2.2, (erase_held htask hstarted' hlater' hfree hheld').2.2]
  · have hheld' := fun h => hheld ((holdsObjects_iff hstarted hnow).2 ((holdsObjects_iff hstarted' hlater').1 h))
    rw [(erase_done htask hstarted hnow hfree hheld).2.2, (erase_done htask hstarted' hlater' hfree hheld').2.2]

theorem resumed_rows (htask : db.purgeTasks.find? (·.id = taskId) = some task) (hstarted : db.StartedBy taskId now)
    (hnow : now ≤ now') (hlater : now' ≤ later) (hlater' : later ≤ later') (hfree : ¬ db.HoldsState task.subjectId) :
    ((db.crashed taskId now now' point).erase taskId later later').2.unreported = (db.erase taskId now now').2.unreported ↔
      db.Resumable task.subjectId taskId now now' point := by
  have hbegun : now ≤ later := le_trans hnow hlater
  simp only [Resumable, hfree, false_or]
  by_cases hheld : db.HoldsObjects task.subjectId taskId now now'
  · -- the one run stays in `running`, a second run over its tables ends
    obtain ⟨-, ⟨tasks, htasks, hfiles⟩, hrows⟩ := erase_held htask hstarted hbegun hfree hheld
    have hblobs : db.purgedObjects task.subjectId ≠ [] := by
      intro h
      obtain ⟨s, -, hp⟩ := (holdsObjects_iff hstarted hnow).1 hheld
      rw [h, List.map_nil, pointsInto_nil] at hp
      cases hp
    simp only [hblobs, hheld, not_true, and_false, or_false, false_or]
    cases point with
    | starting => exact iff_of_true (resumed_starting htask hstarted hnow hlater hlater' hfree) rfl
    | deleting files =>
      obtain ⟨tasks, htasks, hcrashed⟩ := crashed_deleting files htask hstarted hbegun hfree
      rw [hcrashed, erase_again_left htasks left_filesErased hlater', hrows]
      exact iff_of_false (status_ne htask rfl rfl) nofun
    | finished =>
      rw [crashed, hrows, hfiles, erase_again_left htasks left_filesErased hlater']
      exact iff_of_false (status_ne htask rfl rfl) nofun
  · obtain ⟨-, ⟨tasks, htasks, hobjects⟩, hrows⟩ := erase_done htask hstarted hbegun hfree hheld
    simp only [hheld, not_false_eq_true, and_true]
    cases point with
    | starting =>
      exact iff_of_true (resumed_starting htask hstarted hnow hlater hlater' hfree) (.inr (.inl rfl))
    | deleting files =>
      obtain ⟨tasks, htasks, hcrashed⟩ := crashed_deleting files htask hstarted hbegun hfree
      rw [hcrashed, erase_again_left htasks left_filesErased hlater', hrows]
      simp only [reduceCtorEq, or_false]
      constructor
      · intro h
        by_contra hblobs
        exact objects_ne hblobs h
      · intro hblobs
        rw [objectsErased_nil hblobs, hblobs, List.take_nil]
        simp only [filesErased, List.map_nil, List.not_mem_nil, decide_false, deleteWhere_false]
        rfl
    | finished =>
      rw [crashed, hrows, hobjects, erase_again_left htasks left_objectsErased hlater']
      exact iff_of_true rfl (.inr (.inr rfl))

/-- **An erase that died resumes** exactly when it had not yet committed, had ended, or
had no blob to delete, or is refused at once. -/
theorem erase_resumes_iff (htask : db.purgeTasks.find? (·.id = taskId) = some task) (hstarted : db.StartedBy taskId now)
    (hnow : now ≤ now') (hlater : now' ≤ later) (hlater' : later ≤ later') :
    db.Resumes task.subjectId taskId now now' later later' point ↔ db.Resumable task.subjectId taskId now now' point := by
  by_cases hfree : db.HoldsState task.subjectId
  · obtain ⟨e, hd, hrefused⟩ := erase_refused now now' htask hfree
    have hcrashed : db.crashed taskId now now' point = db := by
      cases point <;> simp only [crashed, hd, hrefused]
    obtain ⟨e', -, hrefused'⟩ := erase_refused later later' htask hfree
    refine iff_of_true ⟨by rw [hcrashed, hrefused, hrefused'], fun report hreport => ?_⟩ (.inl hfree)
    rw [hrefused] at hreport
    cases hreport
  · rw [← resumed_rows htask hstarted hnow hlater hlater' hfree]
    refine ⟨Resumes.rows, fun hrows => ⟨hrows, fun report hreport => ?_⟩⟩
    by_cases hheld : db.HoldsObjects task.subjectId taskId now now'
    · obtain ⟨e, he⟩ := (erase_held htask hstarted hnow hfree hheld).1
      rw [he] at hreport
      cases hreport
    · rw [(erase_done htask hstarted hnow hfree hheld).2.2] at hrows
      have hobjects := congrArg blobObjects hrows
      have hfinals := congrArg finals hrows
      simp only [unreported, atStatus] at hobjects hfinals
      rw [hobjects, hfinals]
      exact objectsErased_blobs

end SourceDb

theorem erase_resumes_of_one : purgeOfOne.Resumes 5 7 0 1 2 3 .finished := by
  have htask : purgeOfOne.purgeTasks.find? (·.id = 7) = some ⟨7, "source", 5, .pending, none, none, none⟩ := rfl
  refine (SourceDb.erase_resumes_iff htask ?_ ?_ ?_ ?_).2 (.inr (.inr (.inr ⟨rfl, ?_⟩)))
  · intro t ht _ started hs
    obtain rfl := List.mem_singleton.1 ht
    cases hs
  iterate 3 decide
  unfold SourceDb.HoldsObjects
  decide +kernel

/-- The worker dies right after the first commit: the row stays, purged, and so does its file. -/
theorem deserts_blob : ¬ ∀ (db : SourceDb) (taskId : Uuid) (task : PurgeTask) (now now' later later' : Time)
    (point : CrashPoint), db.purgeTasks.find? (·.id = taskId) = some task → db.StartedBy taskId now → now ≤ now' →
      now' ≤ later → later ≤ later' → db.Resumes task.subjectId taskId now now' later later' point := by
  intro h
  have hstarted : purgeOfOne.StartedBy 7 0 := by
    intro t ht _ started hs
    obtain rfl := List.mem_singleton.1 ht
    cases hs
  have hrows := (h purgeOfOne 7 _ 0 1 2 3 (.deleting 0) rfl hstarted (by decide) (by decide) (by decide)).rows
  have hfinals := congrArg SourceDb.finals hrows
  revert hfinals
  decide +kernel

end MilpbookLM
