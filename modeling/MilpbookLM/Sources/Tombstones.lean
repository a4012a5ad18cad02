/-
What keeps a source unreadable. `Catalog.mark` tombstones a source and its versions
to block access, and a removal tombstones the source; `stays_unreadable` says along
which runs the one and the other last, whatever else is acquired, parsed, activated
or indexed meanwhile, and that no search then returns a chunk of the source. They do
not last along every run: of the calls that write an availability or a status only
the refresh looks at what it overwrites (`step_tombstoned_iff`, `step_hidden_iff`).
-/
import MilpbookLM.Documents.Coordinates
import MilpbookLM.Indexing.Retrieval
import Mathlib.Logic.Relation

namespace MilpbookLM

open Table Relation

/-! ## Runs -/

/-- A transaction of the catalog, of an index build, or of those who administer the notebook. -/
inductive SourceCall
  | acquire (command : AcquireSourceCommand) (blob : BlobObject) (sourceId versionId : Uuid)
  | acquireUnavailable (command : AcquireSourceCommand) (origin : String) (type : SourceType) (reason digest : String)
      (sourceId versionId : Uuid)
  | markRefreshFailed (sourceId actorId : Uuid)
  | setSelected (sourceId actorId : Uuid) (selected : Bool)
  | markParsing (versionId : Uuid)
  | persist (document : CanonicalDocument)
  | persistFailure (versionId : Uuid) (errorCode : String)
  | activate (sourceId actorId : Uuid)
  | index (env : IndexEnv) (call : IndexCall)
  | mark (sourceId actorId taskId : Uuid)
  | administer (memberships : List NotebookMembership) (restrictions : List SourceRestriction)

namespace Catalog

variable (w : Catalog) (sourceId : Uuid)

/-- The stored document an index build loads. -/
def document? (documentId : Uuid) : Option CanonicalDocument :=
  (w.documents.find? (·.id = documentId)).map (·.contractJson)

/-- Tombstoned, with no current version, and so is every version. -/
structure Tombstoned : Prop where
  present : ∃ s ∈ w.sources, s.id = sourceId
  source : ∀ s ∈ w.sources, s.id = sourceId → s.availability = .deletedTombstoned ∧ s.currentVersionId = none
  versions : ∀ v ∈ w.versions, v.sourceId = sourceId → v.status = .tombstoned

/-- Tombstoned; its versions may still be whatever they were. -/
structure Hidden : Prop where
  present : ∃ s ∈ w.sources, s.id = sourceId
  source : ∀ s ∈ w.sources, s.id = sourceId → s.availability = .deletedTombstoned

/-- No search over these states returns a chunk of the source. -/
def NeverServed (reached : Catalog → Prop) (sourceId : Uuid) : Prop :=
  ∀ (Score : Type) (command : RetrievalCommand) (ranking : Ranking Score) (seen : Nat → Catalog × Catalog),
    (∀ k, reached (seen k).1 ∧ reached (seen k).2) →
      ∀ row ∈ search command ranking seen, row.chunk.sourceId ≠ sourceId

end Catalog

namespace SourceCall

/-- What a call makes of the tables, when it does not raise. -/
def exec (rt : Runtime) (w : Catalog) : SourceCall → Except CatalogError Catalog
  | acquire command blob sourceId versionId => w.acquire command blob sourceId versionId
  | acquireUnavailable command origin type reason digest sourceId versionId =>
    w.acquireUnavailable command origin type reason digest sourceId versionId
  | markRefreshFailed sourceId actorId => .ok (w.markRefreshFailed sourceId actorId)
  | setSelected sourceId actorId selected => w.setSelected sourceId actorId selected
  | markParsing versionId => .ok (w.markParsing versionId)
  | persist document => w.persist rt document
  | persistFailure versionId errorCode => .ok (w.persistFailure versionId errorCode)
  | activate sourceId actorId => (w.activate sourceId actorId).map (·.2)
  | index env call => .ok { w with index := (call.exec w.document? env w.index).2 }
  | mark sourceId actorId taskId => (w.mark sourceId actorId taskId).map (·.getD w)
  | administer memberships restrictions => .ok { w with memberships, restrictions }

/-- The call writes no version of the source, and does not make it available. -/
def KeepsTombstone (sourceId : Uuid) (w : Catalog) : SourceCall → Prop
  | markRefreshFailed id actorId => id = sourceId → ∀ s ∈ w.sources, w.visible id actorId s = false
  | setSelected id _ selected => id = sourceId → selected = false
  | markParsing versionId => ∀ v ∈ w.versions, v.id = versionId → v.sourceId ≠ sourceId
  | persist document => ∀ v ∈ w.versions, v.id = document.sourceVersionId → v.sourceId ≠ sourceId
  | persistFailure versionId _ => ∀ v ∈ w.versions, v.id = versionId → v.sourceId ≠ sourceId
  | _ => True

/-- The call does not make the source available. -/
def KeepsHidden (sourceId : Uuid) (w : Catalog) : SourceCall → Prop
  | markRefreshFailed id actorId => id = sourceId → ∀ s ∈ w.sources, w.visible id actorId s = false
  | setSelected id _ selected => id = sourceId → selected = false
  | persistFailure versionId _ => ∀ s ∈ w.sources, s.id = sourceId → w.isBehind versionId s = false
  | activate id _ => id = sourceId → w.promotable id = none
  | _ => True

end SourceCall

/-- Some calls, one after another, each of which meets `ok` where it is made. -/
def SourceRuns (rt : Runtime) (ok : Catalog → SourceCall → Prop) : Catalog → Catalog → Prop :=
  ReflTransGen fun w w' => ∃ c, ok w c ∧ SourceCall.exec rt w c = .ok w'

/-! ## What a call writes -/

namespace Catalog

variable {w w' : Catalog} {sourceId : Uuid}

/-- Sources and versions that were added: a source under a new id, and a version of
one of these or of one that is not tombstoned. -/
structure Acquired (w w' : Catalog) : Prop where
  sources : ∃ added, w'.sources = w.sources ++ added ∧ ∀ s ∈ added, ∀ old ∈ w.sources, old.id ≠ s.id
  versions : ∃ added, w'.versions = w.versions ++ added ∧ ∀ v ∈ added,
    (∀ old ∈ w.sources, old.id ≠ v.sourceId) ∨ ∃ s ∈ w.sources, s.id = v.sourceId ∧ s.availability ≠ .deletedTombstoned

theorem Acquired.refl (w : Catalog) : Acquired w w := ⟨⟨[], by simp⟩, ⟨[], by simp⟩⟩

theorem insertSource_ok {s : Source} (h : w.insertSource s = .ok w') :
    (∀ old ∈ w.sources, old.id ≠ s.id) ∧ w' = { w with sources := w.sources ++ [s] } := by
  unfold insertSource at h
  split at h
  · cases h
  · next hnew =>
    cases h
    exact ⟨by simpa using hnew, rfl⟩

theorem insertVersion_ok {v : CatalogVersion} (h : w.insertVersion v = .ok w') :
    w' = { w with versions := w.versions ++ [v] } := by
  unfold insertVersion at h
  split at h
  · cases h
  split at h
  · cases h
  · cases h
    rfl

theorem insertReference_rows (ref : BlobReference) :
    (w.insertReference ref).sources = w.sources ∧ (w.insertReference ref).versions = w.versions := by
  unfold insertReference
  split <;> exact ⟨rfl, rfl⟩

/-- A new source and its first version. -/
theorem acquired_new {s : Source} {v : CatalogVersion} {w₁ w₂ : Catalog} (hs : w.insertSource s = .ok w₁)
    (hv : w₁.insertVersion v = .ok w₂) (hid : v.sourceId = s.id) : Acquired w w₂ := by
  obtain ⟨hnew, rfl⟩ := insertSource_ok hs
  obtain rfl := insertVersion_ok hv
  refine ⟨⟨[s], rfl, ?_⟩, ⟨[v], rfl, ?_⟩⟩
  · intro s' hs'
    obtain rfl := List.mem_singleton.1 hs'
    exact hnew
  · intro v' hv'
    obtain rfl := List.mem_singleton.1 hv'
    exact .inl (hid ▸ hnew)

theorem Acquired.reference {w₁ : Catalog} (h : Acquired w w₁) (ref : BlobReference) :
    Acquired w (w₁.insertReference ref) := by
  obtain ⟨hsources, hversions⟩ := insertReference_rows (w := w₁) ref
  exact ⟨hsources ▸ h.sources, hversions ▸ h.versions⟩

theorem acquireRefresh_ok {command : AcquireSourceCommand} {blob : BlobObject} {versionId : Uuid}
    (h : w.acquireRefresh command sourceId blob versionId = .ok w') : Acquired w w' := by
  simp only [acquireRefresh] at h
  split at h
  · cases h
  next hsource =>
  simp only [Bool.not_eq_true', Bool.not_eq_false, List.any_eq_true, Bool.and_eq_true, decide_eq_true_eq] at hsource
  obtain ⟨s, hs, hguard⟩ := hsource
  simp only [visible, Bool.and_eq_true, decide_eq_true_eq] at hguard
  split at h
  · cases h
  obtain ⟨w₁, hv, h⟩ := Except.bind_ok_iff.1 h
  cases h
  refine .reference ?_ _
  obtain rfl := insertVersion_ok hv
  refine ⟨⟨[], (List.append_nil _).symm, nofun⟩, ⟨[_], rfl, fun v hv => ?_⟩⟩
  obtain rfl := List.mem_singleton.1 hv
  exact .inr ⟨s, hs, hguard.1.1.1.1, hguard.2⟩

theorem acquire_ok {command : AcquireSourceCommand} {blob : BlobObject} {versionId : Uuid}
    (h : w.acquire command blob sourceId versionId = .ok w') : Acquired w w' := by
  unfold acquire at h
  split at h
  · exact acquireRefresh_ok h
  · cases h
  split at h
  · cases h
    exact .refl w
  obtain ⟨w₁, hs, h⟩ := Except.bind_ok_iff.1 h
  obtain ⟨w₂, hv, h⟩ := Except.bind_ok_iff.1 h
  cases h
  exact .reference (acquired_new hs hv rfl) _

theorem acquireUnavailable_ok {command : AcquireSourceCommand} {origin : String} {type : SourceType}
    {reason digest : String} {versionId : Uuid}
    (h : w.acquireUnavailable command origin type reason digest sourceId versionId = .ok w') : Acquired w w' := by
  unfold acquireUnavailable at h
  split at h
  · cases h
    exact .refl w
  obtain ⟨w₁, hs, hv⟩ := Except.bind_ok_iff.1 h
  exact acquired_new hs hv rfl

theorem persist_ok {rt : Runtime} {document : CanonicalDocument} (h : w.persist rt document = .ok w') :
    w'.sources = w.sources ∧ w'.versions = (w.setStatus (·.id = document.sourceVersionId) .parsed none).versions := by
  unfold persist at h
  split at h
  · cases h
  · cases h
    exact ⟨rfl, rfl⟩

theorem activate_ok {actorId : Uuid} {promoted : Bool} (h : w.activate sourceId actorId = .ok (promoted, w')) :
    (w.promotable sourceId = none ∧ w' = w) ∨
      ∃ version document, w.promotable sourceId = some (version, document) ∧ w' = w.promote sourceId version.id document.id := by
  unfold activate at h
  split at h
  · cases h
  split at h
  · next hnone =>
    cases h
    exact .inl ⟨hnone, rfl⟩
  · next version document hsome =>
    cases h
    exact .inr ⟨version, document, hsome, rfl⟩

theorem mark_ok {actorId taskId : Uuid} {marked : Option Catalog} (h : w.mark sourceId actorId taskId = .ok marked) :
    marked = none ∨ w.sources.any (w.visible sourceId actorId) = true ∧ marked = some { w with
      sources := update (·.id = sourceId)
        (fun s => { s with availability := .deletedTombstoned, currentVersionId := none }) w.sources
      versions := update (·.sourceId = sourceId) (fun v => { v with status := .tombstoned }) w.versions
      purgeTasks := w.purgeTasks ++ [taskId] } := by
  unfold mark at h
  split at h
  · cases h
    exact .inl rfl
  next hvisible =>
  split at h
  · cases h
  · cases h
    exact .inr ⟨by simpa using hvisible, rfl⟩

/-- A mark of this source or another. -/
theorem tombstoned_marked {id : Uuid} (tombstoned : w.Tombstoned sourceId ∨ id = sourceId ∧ ∃ s ∈ w.sources, s.id = id)
    (tasks : List Uuid) :
    Tombstoned { w with
      sources := update (·.id = id)
        (fun s => { s with availability := .deletedTombstoned, currentVersionId := none }) w.sources
      versions := update (·.sourceId = id) (fun v => { v with status := .tombstoned }) w.versions
      purgeTasks := tasks } sourceId := by
  refine ⟨?_, fun s hs hsid => ?_, fun v hv hvid => ?_⟩
  · have hpresent : ∃ s ∈ w.sources, s.id = sourceId := by
      rcases tombstoned with tombstoned | ⟨rfl, hpresent⟩
      · exact tombstoned.present
      · exact hpresent
    obtain ⟨s, hs, hid⟩ := hpresent
    exact ⟨_, List.mem_map_of_mem hs, by split <;> exact hid⟩
  · rcases mem_update hs with ⟨hold, hp⟩ | ⟨old, -, -, rfl⟩
    · rcases tombstoned with tombstoned | ⟨rfl, -⟩
      · exact tombstoned.source s hold hsid
      · exact absurd hsid (of_decide_eq_false hp)
    · exact ⟨rfl, rfl⟩
  · rcases mem_update hv with ⟨hold, hp⟩ | ⟨old, -, -, rfl⟩
    · rcases tombstoned with tombstoned | ⟨rfl, -⟩
      · exact tombstoned.versions v hold hvid
      · exact absurd hvid (of_decide_eq_false hp)
    · rfl

theorem promotable_parsed {version : CatalogVersion} {document : PersistedDocument}
    (h : w.promotable sourceId = some (version, document)) :
    version ∈ w.versions ∧ version.sourceId = sourceId ∧ version.status = .parsed := by
  unfold promotable at h
  split at h
  · cases h
  next latest hlatest =>
  split at h
  · next hparsed =>
    obtain ⟨d, -, heq⟩ := Option.map_eq_some_iff.1 h
    cases heq
    have hmem : version ∈ w.versionsOf sourceId := List.mem_mergeSort.1 (List.mem_of_mem_head? hlatest)
    obtain ⟨hmem, hsource⟩ := List.mem_filter.1 hmem
    exact ⟨hmem, by simpa using hsource, hparsed⟩
  · cases h

end Catalog

/-! ## Steps -/

section Steps

variable {rt : Runtime} {w w' : Catalog} {sourceId : Uuid} {c : SourceCall}

namespace Catalog

theorem Acquired.hidden (h : Acquired w w') (hidden : w.Hidden sourceId) : w'.Hidden sourceId := by
  obtain ⟨added, hsources, hnew⟩ := h.sources
  obtain ⟨s, hs, hid⟩ := hidden.present
  refine ⟨⟨s, by simp [hsources, hs], hid⟩, fun s' hs' hid' => ?_⟩
  rw [hsources] at hs'
  rcases List.mem_append.1 hs' with hold | hadded
  · exact hidden.source s' hold hid'
  · exact absurd (hid.trans hid'.symm) (hnew s' hadded s hs)

theorem Acquired.tombstoned (h : Acquired w w') (tombstoned : w.Tombstoned sourceId) : w'.Tombstoned sourceId := by
  obtain ⟨added, hsources, hnew⟩ := h.sources
  obtain ⟨addedVersions, hversions, hof⟩ := h.versions
  obtain ⟨s, hs, hid⟩ := tombstoned.present
  refine ⟨⟨s, by simp [hsources, hs], hid⟩, fun s' hs' hid' => ?_, fun v hv hvid => ?_⟩
  · rw [hsources] at hs'
    rcases List.mem_append.1 hs' with hold | hadded
    · exact tombstoned.source s' hold hid'
    · exact absurd (hid.trans hid'.symm) (hnew s' hadded s hs)
  · rw [hversions] at hv
    rcases List.mem_append.1 hv with hold | hadded
    · exact tombstoned.versions v hold hvid
    · rcases hof v hadded with hnone | ⟨s', hs', hid', havailable⟩
      · exact absurd (hid.trans hvid.symm) (hnone s hs)
      · exact absurd (tombstoned.source s' hs' (hid'.trans hvid)).1 havailable

/-- An availability is written: nothing else of the source changes. -/
theorem hidden_setAvailability (hidden : w.Hidden sourceId) {p : Source → Bool} {availability : Availability} :
    (w.setAvailability p availability).Hidden sourceId ↔
      ∀ s ∈ w.sources, s.id = sourceId → p s = true → availability = .deletedTombstoned := by
  constructor
  · intro h s hs hid hp
    have hrow := h.source { s with availability } (List.mem_map.2 ⟨s, hs, by simp [hp]⟩) hid
    exact hrow
  · intro h
    obtain ⟨s, hs, hid⟩ := hidden.present
    refine ⟨⟨_, List.mem_map_of_mem hs, by split <;> exact hid⟩, fun s' hs' hid' => ?_⟩
    rcases mem_update hs' with ⟨hold, -⟩ | ⟨old, hold, hp, rfl⟩
    · exact hidden.source s' hold hid'
    · exact h old hold hid' hp

theorem tombstoned_setAvailability (tombstoned : w.Tombstoned sourceId) {p : Source → Bool} {availability : Availability} :
    (w.setAvailability p availability).Tombstoned sourceId ↔
      ∀ s ∈ w.sources, s.id = sourceId → p s = true → availability = .deletedTombstoned := by
  have hidden : w.Hidden sourceId := ⟨tombstoned.present, fun s hs hid => (tombstoned.source s hs hid).1⟩
  rw [← hidden_setAvailability hidden]
  constructor
  · exact fun h => ⟨h.present, fun s hs hid => (h.source s hs hid).1⟩
  · intro h
    refine ⟨h.present, fun s hs hid => ⟨h.source s hs hid, ?_⟩, tombstoned.versions⟩
    rcases mem_update hs with ⟨hold, -⟩ | ⟨old, hold, -, rfl⟩
    · exact (tombstoned.source s hold hid).2
    · exact (tombstoned.source old hold hid).2

theorem tombstoned_congr {w₁ : Catalog} (hsources : w'.sources = w.sources) (hversions : w'.versions = w₁.versions)
    (hsame : w₁.sources = w.sources := by rfl) : w'.Tombstoned sourceId ↔ w₁.Tombstoned sourceId := by
  have h : w'.sources = w₁.sources := hsources.trans hsame.symm
  constructor
  · exact fun ⟨present, source, versions⟩ => ⟨h ▸ present, h ▸ source, hversions ▸ versions⟩
  · exact fun ⟨present, source, versions⟩ => ⟨h ▸ present, h ▸ source, hversions ▸ versions⟩

/-- A status other than that of a tombstone is written. -/
theorem tombstoned_setStatus (tombstoned : w.Tombstoned sourceId) {p : CatalogVersion → Bool} {status : VersionStatus}
    (hstatus : status ≠ .tombstoned) (code : Option String) :
    (w.setStatus p status code).Tombstoned sourceId ↔ ∀ v ∈ w.versions, p v = true → v.sourceId ≠ sourceId := by
  constructor
  · intro h v hv hp hid
    have hrow := h.versions { v with status, parseErrorCode := code } (List.mem_map.2 ⟨v, hv, by simp [hp]⟩) hid
    exact hstatus hrow
  · intro h
    refine ⟨tombstoned.present, tombstoned.source, fun v hv hid => ?_⟩
    rcases mem_update hv with ⟨hold, -⟩ | ⟨old, hold, hp, rfl⟩
    · exact tombstoned.versions v hold hid
    · exact absurd hid (h old hold hp)

theorem visible_id {id actorId : Uuid} {s : Source} (h : w.visible id actorId s = true) : s.id = id := by
  simp only [visible, Bool.and_eq_true, decide_eq_true_eq] at h
  exact h.1

/-- Nobody whom the source is visible to marks a failed refresh of it. -/
theorem unseen_iff {id actorId : Uuid} :
    (∀ s ∈ w.sources, s.id = sourceId → w.visible id actorId s = true → Availability.stale = .deletedTombstoned) ↔
      (id = sourceId → ∀ s ∈ w.sources, w.visible id actorId s = false) := by
  constructor
  · intro h hid s hs
    by_contra hvisible
    rw [Bool.not_eq_false] at hvisible
    cases h s hs ((visible_id hvisible).trans hid) hvisible
  · intro h s hs hid hvisible
    rw [h ((visible_id hvisible).symm.trans hid) s hs] at hvisible
    cases hvisible

theorem deselected_iff {id actorId : Uuid} {selected : Bool} (hany : w.sources.any (w.visible id actorId) = true) :
    (∀ s ∈ w.sources, s.id = sourceId → w.visible id actorId s = true →
        (if selected then Availability.active else .deletedTombstoned) = .deletedTombstoned) ↔
      (id = sourceId → selected = false) := by
  obtain ⟨s, hs, hvisible⟩ := List.any_eq_true.1 hany
  cases selected with
  | false => simp
  | true =>
    simp only [if_true, reduceCtorEq, imp_false, Bool.true_eq_false]
    constructor
    · exact fun h hid => h s hs ((visible_id hvisible).trans hid) hvisible
    · exact fun h s' _ hid hvisible' => h ((visible_id hvisible').symm.trans hid)

theorem setSelected_ok {id actorId : Uuid} {selected : Bool} (h : w.setSelected id actorId selected = .ok w') :
    w.sources.any (w.visible id actorId) = true ∧
      w' = w.setAvailability (w.visible id actorId) (if selected then .active else .deletedTombstoned) := by
  unfold setSelected at h
  split at h
  · next hany =>
    cases h
    exact ⟨hany, rfl⟩
  · cases h

theorem hidden_promote (hidden : w.Hidden sourceId) {id versionId documentId : Uuid} :
    (w.promote id versionId documentId).Hidden sourceId ↔ id ≠ sourceId := by
  obtain ⟨s, hs, hsid⟩ := hidden.present
  constructor
  · intro h hid
    have hrow := h.source { s with currentVersionId := some versionId, availability := .active }
      (List.mem_map.2 ⟨s, hs, by simp [hsid, hid]⟩) hsid
    cases hrow
  · intro hid
    refine ⟨⟨_, List.mem_map_of_mem hs, by split <;> exact hsid⟩, fun s' hs' hid' => ?_⟩
    rcases mem_update hs' with ⟨hold, -⟩ | ⟨old, -, hp, rfl⟩
    · exact hidden.source s' hold hid'
    · exact absurd ((of_decide_eq_true hp).symm.trans hid') hid

theorem tombstoned_promote (tombstoned : w.Tombstoned sourceId) {id versionId documentId : Uuid} (hid : id ≠ sourceId) :
    (w.promote id versionId documentId).Tombstoned sourceId := by
  obtain ⟨s, hs, hsid⟩ := tombstoned.present
  refine ⟨⟨_, List.mem_map_of_mem hs, by split <;> exact hsid⟩, fun s' hs' hid' => ?_, fun v hv hvid => ?_⟩
  · rcases mem_update hs' with ⟨hold, -⟩ | ⟨old, -, hp, rfl⟩
    · exact tombstoned.source s' hold hid'
    · exact absurd ((of_decide_eq_true hp).symm.trans hid') hid
  · rcases mem_update hv with ⟨hkept, -⟩ | ⟨parsed, hparsed, hp, rfl⟩
    · rcases mem_update hkept with ⟨hold, -⟩ | ⟨old, -, hp, rfl⟩
      · exact tombstoned.versions v hold hvid
      · simp only [Bool.and_eq_true, decide_eq_true_eq] at hp
        exact absurd (hp.1.1.symm.trans hvid) hid
    · -- a parsed version is none of the source's
      simp only [Bool.and_eq_true, decide_eq_true_eq] at hp
      rcases mem_update hparsed with ⟨hold, -⟩ | ⟨old, -, -, rfl⟩
      · exact absurd ((tombstoned.versions parsed hold hvid).symm.trans hp.2) (by decide)
      · cases hp.2

/-- A removal by whom the source is visible to. -/
theorem hidden_removed (hkey : Keyed (fun s : Source => s.id) w.sources) {actorId : Uuid}
    (hany : w.sources.any (w.visible sourceId actorId) = true) :
    (w.setAvailability (w.visible sourceId actorId) .deletedTombstoned).Hidden sourceId := by
  obtain ⟨s, hs, hvisible⟩ := List.any_eq_true.1 hany
  have hid := visible_id hvisible
  refine ⟨⟨_, List.mem_map_of_mem hs, by split <;> exact hid⟩, fun s' hs' hid' => ?_⟩
  rcases mem_update hs' with ⟨hold, hp⟩ | ⟨old, -, -, rfl⟩
  · -- the source has one row, and it is visible
    have hsame := (lookup_of_mem hkey hold).symm.trans ((congrArg _ (hid'.trans hid.symm)).trans (lookup_of_mem hkey hs))
    cases hsame
    rw [hvisible] at hp
    cases hp
  · rfl

theorem hidden_marked (hidden : w.Hidden sourceId) {id : Uuid} {tasks : List Uuid} {versions : List CatalogVersion} :
    Hidden { w with
      sources := update (·.id = id)
        (fun s => { s with availability := .deletedTombstoned, currentVersionId := none }) w.sources
      versions, purgeTasks := tasks } sourceId := by
  obtain ⟨s, hs, hsid⟩ := hidden.present
  refine ⟨⟨_, List.mem_map_of_mem hs, by split <;> exact hsid⟩, fun s' hs' hid' => ?_⟩
  rcases mem_update hs' with ⟨hold, -⟩ | ⟨old, -, -, rfl⟩
  · exact hidden.source s' hold hid'
  · rfl

end Catalog

/-- **A hidden source stays hidden** through exactly the calls of `KeepsHidden`. -/
theorem step_hidden_iff (hidden : w.Hidden sourceId) (h : c.exec rt w = .ok w') :
    w'.Hidden sourceId ↔ c.KeepsHidden sourceId w := by
  cases c with
  | acquire command blob id versionId => exact iff_of_true ((Catalog.acquire_ok h).hidden hidden) trivial
  | acquireUnavailable command origin type reason digest id versionId =>
    exact iff_of_true ((Catalog.acquireUnavailable_ok h).hidden hidden) trivial
  | markRefreshFailed id actorId =>
    cases h
    exact (Catalog.hidden_setAvailability hidden).trans Catalog.unseen_iff
  | setSelected id actorId selected =>
    obtain ⟨hany, rfl⟩ := Catalog.setSelected_ok h
    exact (Catalog.hidden_setAvailability hidden).trans (Catalog.deselected_iff hany)
  | markParsing versionId =>
    cases h
    exact iff_of_true ⟨hidden.present, hidden.source⟩ trivial
  | persist document =>
    obtain ⟨hsources, -⟩ := Catalog.persist_ok h
    exact iff_of_true ⟨hsources ▸ hidden.present, hsources ▸ hidden.source⟩ trivial
  | persistFailure versionId errorCode =>
    cases h
    have hidden' : (w.setStatus (·.id = versionId) (if errorCode = "encrypted" then .encrypted else .parseFailed)
      (some errorCode)).Hidden sourceId := ⟨hidden.present, hidden.source⟩
    refine (Catalog.hidden_setAvailability hidden').trans (forall₃_congr fun s _ _ => ?_)
    simp only [reduceCtorEq, imp_false, Bool.not_eq_true]
  | activate id actorId =>
    simp only [SourceCall.exec] at h
    cases ha : w.activate id actorId with
    | error e => rw [ha] at h; cases h
    | ok v =>
      obtain ⟨promoted, w₁⟩ := v
      rw [ha] at h
      cases h
      rcases Catalog.activate_ok ha with ⟨hnone, rfl⟩ | ⟨version, document, hsome, rfl⟩
      · exact iff_of_true hidden fun _ => hnone
      · rw [Catalog.hidden_promote hidden]
        simp [SourceCall.KeepsHidden, hsome]
  | index env call =>
    cases h
    exact iff_of_true ⟨hidden.present, hidden.source⟩ trivial
  | mark id actorId taskId =>
    simp only [SourceCall.exec] at h
    cases hm : w.mark id actorId taskId with
    | error e => rw [hm] at h; cases h
    | ok marked =>
      rw [hm] at h
      cases h
      rcases Catalog.mark_ok hm with rfl | ⟨-, rfl⟩
      · exact iff_of_true hidden trivial
      · exact iff_of_true (Catalog.hidden_marked hidden) trivial
  | administer memberships restrictions =>
    cases h
    exact iff_of_true ⟨hidden.present, hidden.source⟩ trivial

/-- **A tombstoned source stays so** through exactly the calls of `KeepsTombstone`. -/
theorem step_tombstoned_iff (tombstoned : w.Tombstoned sourceId) (h : c.exec rt w = .ok w') :
    w'.Tombstoned sourceId ↔ c.KeepsTombstone sourceId w := by
  cases c with
  | acquire command blob id versionId => exact iff_of_true ((Catalog.acquire_ok h).tombstoned tombstoned) trivial
  | acquireUnavailable command origin type reason digest id versionId =>
    exact iff_of_true ((Catalog.acquireUnavailable_ok h).tombstoned tombstoned) trivial
  | markRefreshFailed id actorId =>
    cases h
    exact (Catalog.tombstoned_setAvailability tombstoned).trans Catalog.unseen_iff
  | setSelected id actorId selected =>
    obtain ⟨hany, rfl⟩ := Catalog.setSelected_ok h
    exact (Catalog.tombstoned_setAvailability tombstoned).trans (Catalog.deselected_iff hany)
  | markParsing versionId =>
    cases h
    refine (Catalog.tombstoned_setStatus tombstoned (by decide) none).trans (forall₂_congr fun v _ => ?_)
    rw [decide_eq_true_eq]
  | persist document =>
    obtain ⟨hsources, hversions⟩ := Catalog.persist_ok h
    refine (Catalog.tombstoned_congr hsources hversions).trans ?_
    refine (Catalog.tombstoned_setStatus tombstoned (by decide) none).trans (forall₂_congr fun v _ => ?_)
    rw [decide_eq_true_eq]
  | persistFailure versionId errorCode =>
    cases h
    have hstatus : (if errorCode = "encrypted" then VersionStatus.encrypted else .parseFailed) ≠ .tombstoned := by
      split <;> decide
    have hset := Catalog.tombstoned_setStatus (p := (·.id = versionId)) tombstoned hstatus (some errorCode)
    simp only [decide_eq_true_eq] at hset
    refine Iff.trans ⟨fun h => ?_, fun h => ?_⟩ hset
    · exact ⟨tombstoned.present, tombstoned.source, h.versions⟩
    · -- without a current version the source is not behind
      refine (Catalog.tombstoned_setAvailability h).2 fun s hs hid hbehind => ?_
      simp [Catalog.isBehind, (tombstoned.source s hs hid).2] at hbehind
  | activate id actorId =>
    simp only [SourceCall.exec] at h
    cases ha : w.activate id actorId with
    | error e => rw [ha] at h; cases h
    | ok v =>
      obtain ⟨promoted, w₁⟩ := v
      rw [ha] at h
      cases h
      rcases Catalog.activate_ok ha with ⟨-, rfl⟩ | ⟨version, document, hsome, rfl⟩
      · exact iff_of_true tombstoned trivial
      · obtain ⟨hmem, hsource, hparsed⟩ := Catalog.promotable_parsed hsome
        refine iff_of_true (Catalog.tombstoned_promote tombstoned fun hid => ?_) trivial
        have hdead := tombstoned.versions version hmem (hsource.trans hid)
        rw [hparsed] at hdead
        cases hdead
  | index env call =>
    cases h
    exact iff_of_true ⟨tombstoned.present, tombstoned.source, tombstoned.versions⟩ trivial
  | mark id actorId taskId =>
    simp only [SourceCall.exec] at h
    cases hm : w.mark id actorId taskId with
    | error e => rw [hm] at h; cases h
    | ok marked =>
      rw [hm] at h
      cases h
      rcases Catalog.mark_ok hm with rfl | ⟨-, rfl⟩
      · exact iff_of_true tombstoned trivial
      · exact iff_of_true (Catalog.tombstoned_marked (.inl tombstoned) _) trivial
  | administer memberships restrictions =>
    cases h
    exact iff_of_true ⟨tombstoned.present, tombstoned.source, tombstoned.versions⟩ trivial

/-! ## Runs -/

theorem runs_hidden (hidden : w.Hidden sourceId) (h : SourceRuns rt (SourceCall.KeepsHidden sourceId) w w') :
    w'.Hidden sourceId := by
  induction h with
  | refl => exact hidden
  | tail _ hstep ih =>
    obtain ⟨c, hok, hexec⟩ := hstep
    exact (step_hidden_iff ih hexec).2 hok

theorem runs_tombstoned (tombstoned : w.Tombstoned sourceId)
    (h : SourceRuns rt (SourceCall.KeepsTombstone sourceId) w w') : w'.Tombstoned sourceId := by
  induction h with
  | refl => exact tombstoned
  | tail _ hstep ih =>
    obtain ⟨c, hok, hexec⟩ := hstep
    exact (step_tombstoned_iff ih hexec).2 hok

theorem Catalog.Tombstoned.hidden (h : w.Tombstoned sourceId) : w.Hidden sourceId :=
  ⟨h.present, fun s hs hid => (h.source s hs hid).1⟩

/-- Where the source is hidden nothing of it is returned. -/
theorem neverServed {reached : Catalog → Prop} (h : ∀ w, reached w → w.Hidden sourceId) :
    Catalog.NeverServed reached sourceId := by
  intro Score command ranking seen hseen row hrow hid
  obtain ⟨k, s, hs, hsid, havailable⟩ := mem_search hrow
  rw [(h _ (hseen k).1).source s hs (hsid.trans hid)] at havailable
  revert havailable
  decide

/-- **Marked, a source stays tombstoned, and removed it stays hidden**, along every run
of the calls that `KeepsTombstone` and `KeepsHidden` name, and no search returns a chunk of it. -/
theorem stays_unreadable (rt : Runtime) (sourceId : Uuid) (hkey : Keyed (fun s : Source => s.id) w.sources) :
    (∀ actorId taskId marked, w.mark sourceId actorId taskId = .ok (some marked) →
      (∀ w', SourceRuns rt (SourceCall.KeepsTombstone sourceId) marked w' → w'.Tombstoned sourceId) ∧
        Catalog.NeverServed (SourceRuns rt (SourceCall.KeepsTombstone sourceId) marked) sourceId) ∧
    ∀ actorId removed, w.setSelected sourceId actorId false = .ok removed →
      (∀ w', SourceRuns rt (SourceCall.KeepsHidden sourceId) removed w' → w'.Hidden sourceId) ∧
        Catalog.NeverServed (SourceRuns rt (SourceCall.KeepsHidden sourceId) removed) sourceId := by
  constructor
  · intro actorId taskId marked hmark
    have hmarked : marked.Tombstoned sourceId := by
      rcases Catalog.mark_ok hmark with hnone | ⟨hvisible, hsome⟩
      · cases hnone
      · cases hsome
        obtain ⟨s, hs, hsees⟩ := List.any_eq_true.1 hvisible
        exact Catalog.tombstoned_marked (.inr ⟨rfl, s, hs, Catalog.visible_id hsees⟩) _
    exact ⟨fun w' h => runs_tombstoned hmarked h, neverServed fun w' h => (runs_tombstoned hmarked h).hidden⟩
  · intro actorId removed hremove
    obtain ⟨hvisible, rfl⟩ := Catalog.setSelected_ok hremove
    have hremoved := Catalog.hidden_removed hkey hvisible
    exact ⟨fun w' h => runs_hidden hremoved h, neverServed fun w' h => runs_hidden hremoved h⟩

end Steps

/-- Source 5 of notebook 2, a web page with one active version, and its member 9. -/
def catalogOfOne : Catalog where
  sources := [⟨5, 2, .webUrl, "web_url:https://example.org", "Example", .active, some 1⟩]
  versions := [⟨⟨1, 5, some 0, "ca97", some 1⟩, 1, .active, none⟩]
  memberships := [⟨2, 9⟩]

/-- `catalogOfOne` after the mark of a purge. -/
def markedOfOne : Catalog where
  sources := [⟨5, 2, .webUrl, "web_url:https://example.org", "Example", .deletedTombstoned, none⟩]
  versions := [⟨⟨1, 5, some 0, "ca97", some 1⟩, 1, .tombstoned, none⟩]
  memberships := [⟨2, 9⟩]
  purgeTasks := [7]

theorem mark_of_one : catalogOfOne.mark 5 9 7 = .ok (some markedOfOne) := by rfl

theorem stays_unreadable_of_one :
    (∀ w', SourceRuns sampleRuntime (SourceCall.KeepsTombstone 5) markedOfOne w' → w'.Tombstoned 5) ∧
      Catalog.NeverServed (SourceRuns sampleRuntime (SourceCall.KeepsTombstone 5) markedOfOne) 5 :=
  (stays_unreadable (w := catalogOfOne) sampleRuntime 5 (by decide)).1 9 7 markedOfOne mark_of_one

/-- A refresh that fails makes a purged source stale, which is readable. -/
theorem refresh_failure_revives : ¬ ∀ (rt : Runtime) (w : Catalog) (sourceId actorId taskId : Uuid) (marked w' : Catalog),
    w.mark sourceId actorId taskId = .ok (some marked) → SourceRuns rt (fun _ _ => True) marked w' →
      w'.Tombstoned sourceId := by
  intro h
  have hrun : SourceRuns sampleRuntime (fun _ _ => True) markedOfOne (markedOfOne.markRefreshFailed 5 9) :=
    .single ⟨.markRefreshFailed 5 9, trivial, rfl⟩
  have hstale := (h sampleRuntime catalogOfOne 5 9 7 markedOfOne _ mark_of_one hrun).source _ (List.mem_singleton.2 rfl) rfl
  exact absurd hstale.1 (by decide)

end MilpbookLM
