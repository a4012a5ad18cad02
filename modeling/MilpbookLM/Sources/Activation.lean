/-
That the current version of a source is its one active version, and has a document.
An activation moves the pointer and the statuses together; a parse outcome moves the
status of whatever version its job names (`step_current_iff`). In runs in which no parse
writes over a current version the two stay together (`current_is_active`); a parse job
that is executed again after the activation parts them (`reparse_deactivates`).
-/
import MilpbookLM.Sources.Tombstones

namespace MilpbookLM

open Table Relation

namespace Catalog

variable (w : Catalog)

/-- The version the source points to, if any, is active, its own, and has a document. -/
def HasCurrent (s : Source) : Prop :=
  ∀ versionId, s.currentVersionId = some versionId →
    ∃ v ∈ w.versions, v.id = versionId ∧ v.sourceId = s.id ∧ v.status = .active ∧
      ∃ d ∈ w.documents, d.sourceVersionId = versionId

/-- The current version is active, and unique. -/
structure CurrentActive : Prop where
  current : ∀ s ∈ w.sources, w.HasCurrent s
  unique : ∀ v ∈ w.versions, ∀ v' ∈ w.versions, v.status = .active → v'.status = .active →
    v.sourceId = v'.sourceId → v.id = v'.id

/-- No source points to the version. -/
def Unpointed (versionId : Uuid) : Prop := ∀ s ∈ w.sources, s.currentVersionId ≠ some versionId

abbrev KeyedVersions : Prop := Keyed (fun v : CatalogVersion => v.id) w.versions

end Catalog

/-- The call writes no parse outcome over a current version. -/
def SourceCall.SparesCurrent (w : Catalog) : SourceCall → Prop
  | markParsing versionId => w.Unpointed versionId
  | persist document => w.Unpointed document.sourceVersionId
  | persistFailure versionId _ => w.Unpointed versionId
  | _ => True

namespace Catalog

variable {w w' : Catalog} {sourceId versionId : Uuid}

/-! ## What a call writes -/

/-- The sources that were added point to nothing, and the versions that were added are not active. -/
structure Enrolled (w w' : Catalog) : Prop where
  sources : ∀ s ∈ w'.sources, s ∈ w.sources ∨ s.currentVersionId = none
  versions : ∃ added, w'.versions = w.versions ++ added ∧ ∀ v ∈ added, v.status ≠ .active
  documents : w'.documents = w.documents
  keyed : w.KeyedVersions → w'.KeyedVersions

theorem Enrolled.refl (w : Catalog) : Enrolled w w := ⟨fun _ => .inl, ⟨[], by simp⟩, rfl, id⟩

theorem Enrolled.reference {w₁ : Catalog} (h : Enrolled w w₁) (ref : BlobReference) :
    Enrolled w (w₁.insertReference ref) := by
  unfold insertReference
  split <;> exact ⟨h.sources, h.versions, h.documents, h.keyed⟩

theorem Enrolled.insertSource {w₁ w₂ : Catalog} (h : Enrolled w w₁) {s : Source} (hs : s.currentVersionId = none)
    (hinsert : w₁.insertSource s = .ok w₂) : Enrolled w w₂ := by
  obtain ⟨-, rfl⟩ := insertSource_ok hinsert
  refine ⟨fun s' hs' => ?_, h.versions, h.documents, h.keyed⟩
  rcases List.mem_append.1 hs' with hold | hnew
  · exact h.sources s' hold
  · obtain rfl := List.mem_singleton.1 hnew
    exact .inr hs

theorem Enrolled.insertVersion {w₁ w₂ : Catalog} (h : Enrolled w w₁) {v : CatalogVersion} (hv : v.status ≠ .active)
    (hinsert : w₁.insertVersion v = .ok w₂) : Enrolled w w₂ := by
  have hnew : lookup (fun v : CatalogVersion => v.id) w₁.versions v.id = none := by
    unfold Catalog.insertVersion at hinsert
    split at hinsert
    · cases hinsert
    next hid =>
    rw [lookup_none]
    simpa using hid
  obtain rfl := insertVersion_ok hinsert
  obtain ⟨added, hversions, hidle⟩ := h.versions
  refine ⟨h.sources, ⟨added ++ [v], ?_, fun v' hv' => ?_⟩, h.documents, fun hkey => keyed_insert (h.keyed hkey) hnew⟩
  · simp [hversions]
  · rcases List.mem_append.1 hv' with hv' | hv'
    · exact hidle v' hv'
    · obtain rfl := List.mem_singleton.1 hv'
      exact hv

theorem enrolled_acquireRefresh {command : AcquireSourceCommand} {blob : BlobObject}
    (h : w.acquireRefresh command sourceId blob versionId = .ok w') : Enrolled w w' := by
  simp only [acquireRefresh] at h
  split at h
  · cases h
  split at h
  · cases h
  obtain ⟨w₁, hv, h⟩ := Except.bind_ok_iff.1 h
  cases h
  exact ((Enrolled.refl w).insertVersion (by simp [activating]) hv).reference _

theorem enrolled_acquire {command : AcquireSourceCommand} {blob : BlobObject}
    (h : w.acquire command blob sourceId versionId = .ok w') : Enrolled w w' := by
  unfold acquire at h
  split at h
  · exact enrolled_acquireRefresh h
  · cases h
  split at h
  · cases h
    exact .refl w
  obtain ⟨w₁, hs, h⟩ := Except.bind_ok_iff.1 h
  obtain ⟨w₂, hv, h⟩ := Except.bind_ok_iff.1 h
  cases h
  exact (((Enrolled.refl w).insertSource rfl hs).insertVersion (by simp [activating]) hv).reference _

theorem enrolled_acquireUnavailable {command : AcquireSourceCommand} {origin : String} {type : SourceType}
    {reason digest : String}
    (h : w.acquireUnavailable command origin type reason digest sourceId versionId = .ok w') : Enrolled w w' := by
  unfold acquireUnavailable at h
  split at h
  · cases h
    exact .refl w
  obtain ⟨w₁, hs, hv⟩ := Except.bind_ok_iff.1 h
  exact ((Enrolled.refl w).insertSource rfl hs).insertVersion (by simp) hv

theorem Enrolled.currentActive (h : Enrolled w w') (hactive : w.CurrentActive) : w'.CurrentActive := by
  obtain ⟨added, hversions, hidle⟩ := h.versions
  have hold : ∀ v ∈ w'.versions, v.status = .active → v ∈ w.versions := by
    intro v hv hstatus
    rw [hversions] at hv
    rcases List.mem_append.1 hv with hv | hv
    · exact hv
    · exact absurd hstatus (hidle v hv)
  refine ⟨fun s hs id hid => ?_, fun v hv v' hv' hstatus hstatus' => ?_⟩
  · rcases h.sources s hs with hs | hnone
    · obtain ⟨v, hv, hvid, hsource, hstatus, d, hd, hof⟩ := hactive.current s hs id hid
      refine ⟨v, ?_, hvid, hsource, hstatus, d, h.documents ▸ hd, hof⟩
      rw [hversions]
      exact List.mem_append_left _ hv
    · rw [hnone] at hid
      cases hid
  · exact hactive.unique v (hold v hv hstatus) v' (hold v' hv' hstatus') hstatus hstatus'

/-! ## A status is written -/

/-- The tables that have the sources with these pointers, these versions, and at least these documents. -/
theorem CurrentActive.congr {w₁ : Catalog} (h : w₁.CurrentActive) (hversions : w'.versions = w₁.versions)
    (hsources : ∀ s ∈ w'.sources, ∃ old ∈ w₁.sources, s.id = old.id ∧ s.currentVersionId = old.currentVersionId)
    (hdocuments : ∀ d ∈ w₁.documents, d ∈ w'.documents) : w'.CurrentActive := by
  refine ⟨fun s hs id hid => ?_, hversions ▸ h.unique⟩
  obtain ⟨old, hold, hsame, hpointer⟩ := hsources s hs
  obtain ⟨v, hv, hvid, hsource, hstatus, d, hd, hof⟩ := h.current old hold id (hpointer ▸ hid)
  exact ⟨v, hversions ▸ hv, hvid, hsource.trans hsame.symm, hstatus, d, hdocuments d hd, hof⟩

/-- An availability is no matter. -/
theorem currentActive_setAvailability {p : Source → Bool} {availability : Availability} :
    (w.setAvailability p availability).CurrentActive ↔ w.CurrentActive := by
  constructor
  · intro h
    refine h.congr rfl (fun s hs => ⟨_, List.mem_map_of_mem hs, ?_, ?_⟩) fun d hd => hd
    · split <;> rfl
    · split <;> rfl
  · intro h
    refine h.congr rfl (fun s hs => ?_) fun d hd => hd
    rcases mem_update hs with ⟨hold, -⟩ | ⟨old, hold, -, rfl⟩
    · exact ⟨s, hold, rfl, rfl⟩
    · exact ⟨old, hold, rfl, rfl⟩

/-- A status other than active may be written over a version that no source points to, and over no other. -/
theorem currentActive_setStatus (h : w.CurrentActive) {status : VersionStatus} (hstatus : status ≠ .active)
    (code : Option String) : (w.setStatus (·.id = versionId) status code).CurrentActive ↔ w.Unpointed versionId := by
  constructor
  · intro h' s hs hpointer
    obtain ⟨v, hv, hvid, -, hactive, -⟩ := h'.current s hs versionId hpointer
    rcases mem_update hv with ⟨-, hp⟩ | ⟨old, -, -, rfl⟩
    · exact absurd hvid (of_decide_eq_false hp)
    · exact hstatus hactive
  · intro hfree
    refine ⟨fun s hs id hid => ?_, fun v hv v' hv' hactive hactive' => ?_⟩
    · obtain ⟨v, hv, hvid, hsource, hactive, d, hd, hof⟩ := h.current s hs id hid
      have hother : v.id ≠ versionId := fun he => hfree s hs (hid.trans (congrArg some (hvid.symm.trans he)))
      exact ⟨v, List.mem_map.2 ⟨v, hv, if_neg (by simpa using hother)⟩, hvid, hsource, hactive, d, hd, hof⟩
    · rcases mem_update hv with ⟨hold, -⟩ | ⟨old, -, -, rfl⟩
      · rcases mem_update hv' with ⟨hold', -⟩ | ⟨old', -, -, rfl⟩
        · exact h.unique v hold v' hold' hactive hactive'
        · exact absurd hactive' hstatus
      · exact absurd hactive hstatus

/-! ## An activation -/

theorem insertNodes_documents {rt : Runtime} {documentId : Uuid} {nodes : List CanonicalNode} {db db' : CanonicalDb}
    {inserted : List Uuid} {sequence : Nat} (h : rt.insertNodes documentId db inserted sequence nodes = .ok db') :
    db'.documents = db.documents := by
  induction nodes generalizing db inserted sequence with
  | nil =>
    cases h
    rfl
  | cons node nodes ih =>
    simp only [Runtime.insertNodes] at h
    split at h
    · cases h
    · obtain ⟨db₁, h₁, h⟩ := Except.bind_ok_iff.1 h
      have hdocuments : db₁.documents = db.documents := by
        simp only [Runtime.insertNode] at h₁
        repeat' split at h₁
        all_goals cases h₁
        rfl
      exact (ih h).trans hdocuments

/-- No document is lost when another is stored. -/
theorem persist_documents {rt : Runtime} {document : CanonicalDocument} (h : w.persist rt document = .ok w') :
    ∀ d ∈ w.documents, d ∈ w'.documents := by
  unfold persist at h
  split at h
  · cases h
  next db hdb =>
  cases h
  intro d hd
  simp only [Runtime.persist] at hdb
  split at hdb
  · cases hdb
    exact hd
  · obtain ⟨db₁, h₁, hdb⟩ := Except.bind_ok_iff.1 hdb
    cases hdb
    change d ∈ db₁.documents
    rw [insertNodes_documents h₁]
    exact List.mem_append_left _ hd

theorem promotable_document {version : CatalogVersion} {document : PersistedDocument}
    (h : w.promotable sourceId = some (version, document)) :
    document ∈ w.documents ∧ document.sourceVersionId = version.id := by
  unfold promotable at h
  split at h
  · cases h
  split at h
  · obtain ⟨d, hd, heq⟩ := Option.map_eq_some_iff.1 h
    cases heq
    exact ⟨List.mem_of_find?_eq_some hd, by simpa using List.find?_some hd⟩
  · cases h

/-- The documents are those that were there, the active one among them another. -/
theorem document_promote (sourceId versionId documentId : Uuid) {d : PersistedDocument} (hd : d ∈ w.documents) :
    ∃ d' ∈ (w.promote sourceId versionId documentId).documents, d'.sourceVersionId = d.sourceVersionId := by
  refine ⟨_, List.mem_map_of_mem (List.mem_map_of_mem hd), ?_⟩
  dsimp only
  split <;> split <;> rfl

/-- After a promotion an active version is of another source, or the promoted one. -/
theorem active_promote (hkey : w.KeyedVersions) {version : CatalogVersion} (hversion : version ∈ w.versions)
    (hsource : version.sourceId = sourceId) (hparsed : version.status = .parsed) {documentId : Uuid} {v : CatalogVersion}
    (hv : v ∈ (w.promote sourceId version.id documentId).versions) (hactive : v.status = .active) :
    (v ∈ w.versions ∧ v.sourceId ≠ sourceId) ∨ (v.id = version.id ∧ v.sourceId = sourceId) := by
  have hsame : ∀ old ∈ w.versions, old.id = version.id → old = version := fun old hold hid =>
    Option.some.inj ((lookup_of_mem hkey hold).symm.trans ((congrArg _ hid).trans (lookup_of_mem hkey hversion)))
  rcases mem_update hv with ⟨hkept, -⟩ | ⟨parsed, hdemoted, hp, rfl⟩
  · rcases mem_update hkept with ⟨hold, hp⟩ | ⟨old, -, -, rfl⟩
    · refine .inl ⟨hold, fun hof => ?_⟩
      simp only [hof, hactive, decide_true, Bool.true_and, decide_eq_false_iff_not, not_not] at hp
      rw [hsame v hold hp, hparsed] at hactive
      cases hactive
    · cases hactive
  · simp only [Bool.and_eq_true, decide_eq_true_eq] at hp
    rcases mem_update hdemoted with ⟨hold, -⟩ | ⟨old, -, -, rfl⟩
    · obtain rfl := hsame parsed hold hp.1
      exact .inr ⟨rfl, hsource⟩
    · cases hp.2

theorem CurrentActive.promote (h : w.CurrentActive) (hkey : w.KeyedVersions) {version : CatalogVersion}
    {document : PersistedDocument} (hsome : w.promotable sourceId = some (version, document)) :
    (w.promote sourceId version.id document.id).CurrentActive := by
  obtain ⟨hversion, hsource, hparsed⟩ := promotable_parsed hsome
  obtain ⟨hdocument, hof⟩ := promotable_document hsome
  refine ⟨fun s hs id hid => ?_, fun v hv v' hv' hactive hactive' hsame => ?_⟩
  · rcases mem_update hs with ⟨hold, hp⟩ | ⟨old, -, hp, rfl⟩
    · -- a source that was not promoted keeps its version
      have hother : s.id ≠ sourceId := of_decide_eq_false hp
      obtain ⟨v, hv, hvid, hvsource, hactive, d, hd, hdof⟩ := h.current s hold id hid
      obtain ⟨d', hd', hdof'⟩ := document_promote sourceId version.id document.id hd
      refine ⟨v, ?_, hvid, hvsource, hactive, d', hd', hdof'.trans hdof⟩
      refine List.mem_map.2 ⟨v, List.mem_map.2 ⟨v, hv, if_neg ?_⟩, if_neg ?_⟩
      · simp [hvsource, hother]
      · simp [hactive]
    · cases hid
      obtain ⟨d', hd', hdof'⟩ := document_promote sourceId version.id document.id hdocument
      refine ⟨{ version with status := .active }, ?_, rfl, hsource.trans (of_decide_eq_true hp).symm, rfl, d', hd',
        hdof'.trans hof⟩
      refine List.mem_map.2 ⟨version, List.mem_map.2 ⟨version, hversion, if_neg ?_⟩, if_pos ?_⟩
      · simp [hparsed]
      · simp [hparsed]
  · have hcases := active_promote hkey hversion hsource hparsed hv hactive
    have hcases' := active_promote hkey hversion hsource hparsed hv' hactive'
    rcases hcases with ⟨hold, hother⟩ | ⟨hid, hof⟩
    · rcases hcases' with ⟨hold', -⟩ | ⟨-, hof'⟩
      · exact h.unique v hold v' hold' hactive hactive' hsame
      · exact absurd (hsame.trans hof') hother
    · rcases hcases' with ⟨-, hother'⟩ | ⟨hid', -⟩
      · exact absurd (hsame.symm.trans hof) hother'
      · exact hid.trans hid'.symm

/-! ## A mark -/

theorem CurrentActive.marked (h : w.CurrentActive) (tasks : List Uuid) :
    CurrentActive { w with
      sources := update (·.id = sourceId)
        (fun s => { s with availability := .deletedTombstoned, currentVersionId := none }) w.sources
      versions := update (·.sourceId = sourceId) (fun v => { v with status := .tombstoned }) w.versions
      purgeTasks := tasks } := by
  refine ⟨fun s hs id hid => ?_, fun v hv v' hv' hactive hactive' => ?_⟩
  · rcases mem_update hs with ⟨hold, hp⟩ | ⟨old, -, -, rfl⟩
    · obtain ⟨v, hv, hvid, hvsource, hactive, d, hd, hof⟩ := h.current s hold id hid
      have hother : s.id ≠ sourceId := of_decide_eq_false hp
      exact ⟨v, List.mem_map.2 ⟨v, hv, if_neg (by simpa [hvsource] using hother)⟩, hvid, hvsource, hactive, d, hd, hof⟩
    · cases hid
  · rcases mem_update hv with ⟨hold, -⟩ | ⟨old, -, -, rfl⟩
    · rcases mem_update hv' with ⟨hold', -⟩ | ⟨old', -, -, rfl⟩
      · exact h.unique v hold v' hold' hactive hactive'
      · cases hactive'
    · cases hactive

end Catalog

/-! ## Steps and runs -/

section Steps

variable {rt : Runtime} {w w' : Catalog} {c : SourceCall}

/-- **A step keeps the current versions active** exactly when it writes no parse outcome over one. -/
theorem step_current_iff (hkey : w.KeyedVersions) (h : w.CurrentActive) (hexec : c.exec rt w = .ok w') :
    w'.CurrentActive ↔ c.SparesCurrent w := by
  cases c with
  | acquire command blob id versionId =>
    exact iff_of_true ((Catalog.enrolled_acquire hexec).currentActive h) trivial
  | acquireUnavailable command origin type reason digest id versionId =>
    exact iff_of_true ((Catalog.enrolled_acquireUnavailable hexec).currentActive h) trivial
  | markRefreshFailed id actorId =>
    cases hexec
    exact iff_of_true (Catalog.currentActive_setAvailability.2 h) trivial
  | setSelected id actorId selected =>
    obtain ⟨-, rfl⟩ := Catalog.setSelected_ok hexec
    exact iff_of_true (Catalog.currentActive_setAvailability.2 h) trivial
  | markParsing versionId =>
    cases hexec
    exact Catalog.currentActive_setStatus h (by decide) none
  | persist document =>
    obtain ⟨hsources, hversions⟩ := Catalog.persist_ok hexec
    have hdocuments := Catalog.persist_documents hexec
    have hstatus : VersionStatus.parsed ≠ .active := by decide
    refine Iff.trans ⟨fun h' => ?_, fun h' => ?_⟩ (Catalog.currentActive_setStatus h hstatus none)
    · refine ⟨fun s hs id hid => ?_, hversions ▸ h'.unique⟩
      obtain ⟨v, hv, hvid, hsource, hactive, -⟩ := h'.current s (hsources ▸ hs) id hid
      obtain ⟨-, -, -, -, -, hdocument⟩ := h.current s hs id hid
      exact ⟨v, hversions ▸ hv, hvid, hsource, hactive, hdocument⟩
    · exact h'.congr hversions (fun s hs => ⟨s, hsources ▸ hs, rfl, rfl⟩) hdocuments
  | persistFailure versionId errorCode =>
    cases hexec
    have hstatus : (if errorCode = "encrypted" then VersionStatus.encrypted else .parseFailed) ≠ .active := by
      split <;> decide
    exact Catalog.currentActive_setAvailability.trans (Catalog.currentActive_setStatus h hstatus _)
  | activate id actorId =>
    simp only [SourceCall.exec] at hexec
    cases ha : w.activate id actorId with
    | error e => rw [ha] at hexec; cases hexec
    | ok v =>
      obtain ⟨promoted, w₁⟩ := v
      rw [ha] at hexec
      cases hexec
      rcases Catalog.activate_ok ha with ⟨-, rfl⟩ | ⟨version, document, hsome, rfl⟩
      · exact iff_of_true h trivial
      · exact iff_of_true (h.promote hkey hsome) trivial
  | index env call =>
    cases hexec
    exact iff_of_true ⟨h.current, h.unique⟩ trivial
  | mark id actorId taskId =>
    simp only [SourceCall.exec] at hexec
    cases hm : w.mark id actorId taskId with
    | error e => rw [hm] at hexec; cases hexec
    | ok marked =>
      rw [hm] at hexec
      cases hexec
      rcases Catalog.mark_ok hm with rfl | ⟨-, rfl⟩
      · exact iff_of_true h trivial
      · exact iff_of_true (h.marked _) trivial
  | administer memberships restrictions =>
    cases hexec
    exact iff_of_true ⟨h.current, h.unique⟩ trivial

theorem Catalog.keyed_setStatus {p : CatalogVersion → Bool} {status : VersionStatus} {code : Option String}
    (hkey : w.KeyedVersions) : (w.setStatus p status code).KeyedVersions :=
  keyed_update (fun _ _ => by rfl) hkey

theorem step_keyed (hkey : w.KeyedVersions) (hexec : c.exec rt w = .ok w') : w'.KeyedVersions := by
  cases c with
  | acquire => exact (Catalog.enrolled_acquire hexec).keyed hkey
  | acquireUnavailable => exact (Catalog.enrolled_acquireUnavailable hexec).keyed hkey
  | setSelected =>
    obtain ⟨-, rfl⟩ := Catalog.setSelected_ok hexec
    exact hkey
  | persist document =>
    obtain ⟨-, hversions⟩ := Catalog.persist_ok hexec
    rw [Catalog.KeyedVersions, hversions]
    exact Catalog.keyed_setStatus hkey
  | markParsing versionId =>
    cases hexec
    exact Catalog.keyed_setStatus hkey
  | persistFailure versionId errorCode =>
    cases hexec
    exact Catalog.keyed_setStatus hkey
  | activate id actorId =>
    simp only [SourceCall.exec] at hexec
    cases ha : w.activate id actorId with
    | error e => rw [ha] at hexec; cases hexec
    | ok v =>
      obtain ⟨promoted, w₁⟩ := v
      rw [ha] at hexec
      cases hexec
      rcases Catalog.activate_ok ha with ⟨-, rfl⟩ | ⟨version, document, -, rfl⟩
      · exact hkey
      · exact keyed_update (fun _ _ => by rfl) (keyed_update (fun _ _ => by rfl) hkey)
  | mark id actorId taskId =>
    simp only [SourceCall.exec] at hexec
    cases hm : w.mark id actorId taskId with
    | error e => rw [hm] at hexec; cases hexec
    | ok marked =>
      rw [hm] at hexec
      cases hexec
      rcases Catalog.mark_ok hm with rfl | ⟨-, rfl⟩
      · exact hkey
      · exact keyed_update (fun _ _ => by rfl) hkey
  | _ =>
    cases hexec
    exact hkey

theorem runs_current {w₀ : Catalog} (hkey : w₀.KeyedVersions) (h₀ : w₀.CurrentActive)
    (h : SourceRuns rt (fun w c => c.SparesCurrent w) w₀ w) : w.KeyedVersions ∧ w.CurrentActive := by
  induction h with
  | refl => exact ⟨hkey, h₀⟩
  | tail _ hstep ih =>
    obtain ⟨c, hspares, hexec⟩ := hstep
    exact ⟨step_keyed ih.1 hexec, (step_current_iff ih.1 ih.2 hexec).2 hspares⟩

/-- **The current version is active and unique**, in every run in which no parse job writes
over a current version. -/
theorem current_is_active {w₀ : Catalog} (hsources : w₀.sources = []) (hversions : w₀.versions = [])
    (h : SourceRuns rt (fun w c => c.SparesCurrent w) w₀ w) : w.CurrentActive := by
  refine (runs_current ?_ ⟨fun s hs => ?_, fun v hv => ?_⟩ h).2
  · rw [Catalog.KeyedVersions, hversions]
    exact List.nodup_nil
  · rw [hsources] at hs
    cases hs
  · rw [hversions] at hv
    cases hv

end Steps

/-! ## A source that is acquired and activated -/

/-- User 9 is in notebook 2. -/
def emptyOfOne : Catalog where
  memberships := [⟨2, 9⟩]

/-- The text `hi`. -/
def blobOfOne : BlobObject where
  id := 0
  contentSha256 := "8f43"
  sizeBytes := 2
  storagePath := .object "8f43"
  state := .finalized
  contentType := some "text/plain"

def acquireOfOne : AcquireSourceCommand where
  notebookId := 2
  actorId := 9
  displayTitle := "Hi"
  originKind := "upload"

/-- The text, parsed as version 1. -/
def documentOfOne : CanonicalDocument := (sampleRuntime.parseText 1 [0x68, 0x69]).get rfl

theorem unpointed_of_none {w : Catalog} (h : w.sources.map (·.currentVersionId) = [none]) (versionId : Uuid) :
    w.Unpointed versionId := by
  intro s hs hpointer
  have hmem := List.mem_map_of_mem (f := (·.currentVersionId)) hs
  rw [h, List.mem_singleton, hpointer] at hmem
  cases hmem

/-- A source with one version is activated with it, when it is parsed and has a document. -/
theorem exec_activate_single {rt : Runtime} {w : Catalog} {sourceId actorId : Uuid} {v : CatalogVersion}
    {d : PersistedDocument} (hany : w.sources.any (w.visible sourceId actorId) = true) (hv : w.versionsOf sourceId = [v])
    (hparsed : v.status = .parsed) (hd : w.documents.find? (·.sourceVersionId = v.id) = some d) :
    SourceCall.exec rt w (.activate sourceId actorId) = .ok (w.promote sourceId v.id d.id) := by
  have hsome : w.promotable sourceId = some (v, d) := by
    simp [Catalog.promotable, Catalog.latestVersion, hv, hparsed, hd]
  simp [SourceCall.exec, Catalog.activate, hany, hsome, Except.map]

/-- Source 5 is acquired, its version 1 is parsed, and then activated. -/
theorem activated_of_one : ∃ w, SourceRuns sampleRuntime (fun w c => c.SparesCurrent w) emptyOfOne w ∧
    w.sources.map (·.currentVersionId) = [some 1] := by
  have hparsed : SourceRuns sampleRuntime (fun w c => c.SparesCurrent w) emptyOfOne _ :=
    .tail (.tail (.single ⟨.acquire acquireOfOne blobOfOne 5 1, trivial, rfl⟩)
      ⟨.markParsing 1, unpointed_of_none rfl 1, rfl⟩) ⟨.persist documentOfOne, unpointed_of_none rfl 1, rfl⟩
  have hactivated := hparsed.tail ⟨.activate 5 9, trivial, exec_activate_single rfl rfl rfl rfl⟩
  exact ⟨_, hactivated, rfl⟩

theorem current_is_active_of_one : ∃ w : Catalog, w.sources.map (·.currentVersionId) = [some 1] ∧ w.CurrentActive := by
  obtain ⟨w, hrun, hpointer⟩ := activated_of_one
  exact ⟨w, hpointer, current_is_active rfl rfl hrun⟩

/-- The parse job is executed again after the activation: the current version is parsing. -/
theorem reparse_deactivates : ¬ ∀ (rt : Runtime) (w₀ w : Catalog), w₀.sources = [] → w₀.versions = [] →
    SourceRuns rt (fun _ _ => True) w₀ w → w.CurrentActive := by
  intro h
  obtain ⟨w, hrun, hpointer⟩ := activated_of_one
  have hany : SourceRuns sampleRuntime (fun _ _ => True) emptyOfOne w :=
    ReflTransGen.mono (fun _ _ ⟨c, _, hexec⟩ => ⟨c, trivial, hexec⟩) _ _ hrun
  have hagain : SourceRuns sampleRuntime (fun _ _ => True) emptyOfOne (w.markParsing 1) :=
    hany.tail ⟨.markParsing 1, trivial, rfl⟩
  have hactive := h sampleRuntime emptyOfOne _ rfl rfl hagain
  obtain ⟨s, hs, hcurrent⟩ := List.mem_map.1 (hpointer ▸ List.mem_singleton_self (some (1 : Uuid)))
  obtain ⟨v, hv, hid, -, hstatus, -⟩ := hactive.current s hs 1 hcurrent
  rcases mem_update hv with ⟨-, hp⟩ | ⟨old, -, -, rfl⟩
  · exact absurd hid (of_decide_eq_false hp)
  · cases hstatus

end MilpbookLM
