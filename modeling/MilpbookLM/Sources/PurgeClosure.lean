/-
Purge closure over whole runs. Every call keeps a library `Closed` but the two that
record a dependency where no erase looks for it: the save of an answer to a note, and
the publication of a version whose renditions were stored under the artifact's id.
In a run without these on a source, a complete erase leaves nothing that derives from
it (`purge_closure`). A saved answer survives the erase of the source it was drawn
from (`saved_answer_survives`).
-/
import MilpbookLM.Documents.Coordinates
import MilpbookLM.Sources.Derivation

namespace MilpbookLM

open Table Relation

namespace Library

/-! ## One call -/

variable {w w' : Library} {sourceId manifestId : Uuid}

/-- A manifest is in the closure by the pins it was frozen with: no version is new under an id that is pinned. -/
theorem purged_of_grown (hw : w.WellKept) (hw' : w'.WellKept)
    (hitems : ∀ item ∈ w'.tables.manifestItems, item.manifestId = manifestId → item ∈ w.tables.manifestItems)
    (hversions : ∀ v ∈ w'.tables.sourceVersions, v ∈ w.tables.sourceVersions ∨ w.unusedVersion v.id = true)
    (h : manifestId ∈ w'.db.purgedManifests sourceId) : manifestId ∈ w.db.purgedManifests sourceId := by
  obtain ⟨item, hitem, hid, hkind, hpinned⟩ := (mem_purgedManifests hw').1 h
  have hitem := hitems item hitem hid
  refine (mem_purgedManifests hw).2 ⟨item, hitem, hid, hkind, ?_⟩
  obtain ⟨v, hv, hvid⟩ := List.mem_map.1 hpinned
  obtain ⟨hv, hsource⟩ := List.mem_filter.1 hv
  rcases hversions v hv with hv | hunused
  · exact hvid ▸ List.mem_map_of_mem (List.mem_filter.2 ⟨hv, hsource⟩)
  · simp only [unusedVersion, Bool.and_eq_true, Bool.not_eq_true', List.any_eq_false, decide_eq_true_eq] at hunused
    exact absurd hvid.symm (hunused.2 item hitem)

theorem Traceable.of_grown (hw : w.WellKept) (ht : w.Traceable sourceId) (hnotes : w'.noteRevisions = w.noteRevisions)
    (hmessages : w'.tables.messages = w.tables.messages) (hversions : w'.artifactVersions = w.artifactVersions)
    (hpurged : ∀ manifest ∈ w.tables.manifests, manifest.id ∈ w'.db.purgedManifests sourceId →
      manifest.id ∈ w.db.purgedManifests sourceId) : w'.Traceable sourceId := by
  constructor
  · intro n hn ref href hkind m hm hid hmem
    rw [hnotes] at hn
    rw [hmessages] at hm
    obtain ⟨manifest, hmanifest, hof⟩ := hw.messages m hm
    rw [← hof] at hmem
    exact ht.notes n hn ref href hkind m hm hid (hof ▸ hpurged manifest hmanifest hmem)
  · intro v hv hrendered hmem
    rw [hversions] at hv
    obtain ⟨manifest, hmanifest, hof⟩ := hw.versions v hv
    rw [← hof] at hmem
    exact ht.renditions v hv hrendered (hof ▸ hpurged manifest hmanifest hmem)

namespace Closed

variable (h : w.Closed sourceId)
include h

theorem putBlob (blob : BlobObject) (referrerKind : String) (referrerId : Uuid) :
    (w.putBlob blob referrerKind referrerId).Closed sourceId := { h with }

theorem storeRenditions (renditions : List BlobObject) (artifactId : Uuid) :
    (w.storeRenditions renditions artifactId).Closed sourceId := by
  unfold Library.storeRenditions
  induction renditions generalizing w with
  | nil => exact h
  | cons blob rest ih => exact ih (h.putBlob blob _ _)

theorem acquire {versionId : Uuid} {blob : BlobObject} {id : Uuid} (hok : w.acquire id versionId blob = .ok w') :
    w'.Closed sourceId := by
  unfold Library.acquire at hok
  split at hok
  · cases hok
  next hunused =>
  cases hok
  refine putBlob ?_ _ _ _
  generalize hgrown : ({ w with tables := { w.tables with sourceVersions := _ } } : Library) = grown
  have hwell : grown.WellKept := by
    subst hgrown
    refine { h.toWellKept with edges := fun e he => ?_ }
    rcases h.edges e he with ⟨htype, hfrom, hto, v, hv, hends⟩ | hother
    · exact .inl ⟨htype, hfrom, hto, v, List.mem_append_left _ hv, hends⟩
    · exact .inr hother
  refine ⟨hwell, .of_grown h.toWellKept h.toTraceable ?_ ?_ ?_ fun manifest _ =>
    purged_of_grown h.toWellKept hwell ?_ ?_⟩
  iterate 3 subst hgrown; rfl
  · subst hgrown
    exact fun item hitem _ => hitem
  · subst hgrown
    intro v hv
    rcases List.mem_append.1 hv with hv | hv
    · exact .inl hv
    · obtain rfl := List.mem_singleton.1 hv
      exact .inr (by simpa using hunused)

theorem insertEdge {e : TypedEdge} (he : w.Links e) : (w.insertEdge e).Closed sourceId := by
  unfold Library.insertEdge
  split
  · exact h
  · refine { h with edges := fun e' he' => ?_ }
    rcases List.mem_append.1 he' with he' | he'
    · exact h.edges e' he'
    · exact List.mem_singleton.1 he' ▸ he

theorem parse {rt : Runtime} {document : CanonicalDocument} (hok : w.parse rt document = .ok w') :
    w'.Closed sourceId := by
  unfold Library.parse at hok
  split at hok
  · cases hok
    exact h
  next hnew =>
  split at hok
  · cases hok
  obtain rfl := Except.ok.inj hok
  generalize hgrown : ({ w with tables := _ } : Library) = grown
  have hwell : grown.WellKept := by
    subst hgrown
    have hother : ∀ d ∈ w.tables.canonicalDocuments, d.id ≠ document.documentId := fun d hd hid =>
      hnew (List.any_eq_true.2 ⟨d, hd, decide_eq_true hid⟩)
    refine { h.toWellKept with documents := fun d hd d' hd' hid => ?_, edges := fun e he => ?_ }
    · rcases List.mem_append.1 hd with hd | hd <;> rcases List.mem_append.1 hd' with hd' | hd'
      · exact h.documents d hd d' hd' hid
      · obtain rfl := List.mem_singleton.1 hd'
        exact absurd hid (hother d hd)
      · obtain rfl := List.mem_singleton.1 hd
        exact absurd hid.symm (hother d' hd')
      · rw [List.mem_singleton.1 hd, List.mem_singleton.1 hd']
    · rcases h.edges e he with hcontains | hderived | ⟨htype, hfrom, hto, ⟨d, hd, hid⟩, hversion⟩
      · exact .inl hcontains
      · exact .inr (.inl hderived)
      · refine .inr (.inr ⟨htype, hfrom, hto, ⟨d, List.mem_append_left _ hd, hid⟩, fun d' hd' hid' => ?_⟩)
        rcases List.mem_append.1 hd' with hd' | hd'
        · exact hversion d' hd' hid'
        · obtain rfl := List.mem_singleton.1 hd'
          exact absurd (hid.trans hid'.symm) (hother d hd)
  refine ⟨hwell, .of_grown h.toWellKept h.toTraceable ?_ ?_ ?_ fun manifest _ =>
    purged_of_grown h.toWellKept hwell ?_ ?_⟩
  iterate 3 subst hgrown; rfl
  · subst hgrown
    exact fun item hitem _ => hitem
  · subst hgrown
    exact fun v hv => .inl hv

theorem index {generationId documentId : Uuid} {chunks : List (Uuid × Uuid)}
    (hok : w.index generationId documentId chunks = .ok w') : w'.Closed sourceId := by
  unfold Library.index at hok
  split at hok
  · cases hok
  split at hok
  · cases hok
  split at hok
  · cases hok
    exact h
  · cases hok
    exact { h with }

/-- An edge of a library is one of a library with the same tables. -/
theorem insertEdge_of {w₀ : Library} {e : TypedEdge} (htables : w.tables = w₀.tables) (he : w₀.Links e) :
    (w.insertEdge e).Closed sourceId ∧ (w.insertEdge e).tables = w₀.tables := by
  refine ⟨h.insertEdge (by unfold Links at he ⊢; rwa [htables]), ?_⟩
  unfold Library.insertEdge
  split <;> exact htables

theorem activate {versionId documentId : Uuid} {edgeIds : Uuid × Uuid × Uuid}
    (hok : w.activate versionId documentId edgeIds = .ok w') : w'.Closed sourceId := by
  unfold Library.activate at hok
  split at hok
  case h_2 =>
    cases hok
    exact h
  next version document hversion hdocument =>
  obtain rfl := Except.ok.inj hok
  have hv := List.mem_of_find?_eq_some hversion
  have hd := List.mem_of_find?_eq_some hdocument
  have hid := List.find?_some hversion
  have hof := List.find?_some hdocument
  simp only [Bool.and_eq_true, decide_eq_true_eq] at hid hof
  have hcontains : w.Links (edge edgeIds.1 "source" version.sourceId "contains" "source_version" version.id) :=
    .inl ⟨rfl, rfl, rfl, version, hv, rfl, rfl⟩
  have hgenerated : w.Links
      (edge edgeIds.2.2 "canonical_document" document.id "generated_from" "source_version" version.id) :=
    .inr (.inr ⟨rfl, rfl, rfl, ⟨document, hd, rfl⟩, fun d hd' hdid => by
      rw [h.documents d hd' document hd hdid, hof.2]
      exact hid.symm⟩)
  obtain ⟨hsource, htables⟩ := h.insertEdge_of rfl hcontains
  cases version.originalBlobId with
  | none => exact (hsource.insertEdge_of htables hgenerated).1
  | some blobId =>
    have hderived : w.Links
        (edge edgeIds.2.1 "source_version" version.id "derived_from" "blob" (blobUuid blobId)) :=
      .inr (.inl ⟨rfl, rfl, .inl rfl⟩)
    obtain ⟨hblob, htables⟩ := hsource.insertEdge_of htables hderived
    exact (hblob.insertEdge_of htables hgenerated).1

theorem freeze {parentManifestId : Option Uuid} {sourceVersionIds noteRevisionIds : List Uuid}
    (hok : w.freeze manifestId parentManifestId sourceVersionIds noteRevisionIds = .ok w') : w'.Closed sourceId := by
  unfold Library.freeze at hok
  split at hok
  · cases hok
  next hnew =>
  obtain rfl := Except.ok.inj hok
  generalize hgrown : ({ w with tables := _ } : Library) = grown
  have hpins : ∀ item ∈ grown.tables.manifestItems, item ∈ w.tables.manifestItems ∨ item.manifestId = manifestId ∧
      (item.itemKind = ContentKind.sourceVersion.value ∨ item.itemKind = ContentKind.noteRevision.value) := by
    subst hgrown
    intro item hitem
    rcases List.mem_append.1 hitem with hitem | hitem
    · rcases List.mem_append.1 hitem with hitem | hitem
      · exact .inl hitem
      · obtain ⟨id, -, rfl⟩ := List.mem_map.1 hitem
        exact .inr ⟨rfl, .inl rfl⟩
    · obtain ⟨id, -, rfl⟩ := List.mem_map.1 hitem
      exact .inr ⟨rfl, .inr rfl⟩
  have hmanifests : ∀ manifest ∈ w.tables.manifests, manifest ∈ grown.tables.manifests := by
    subst hgrown
    exact fun _ hm => List.mem_append_left _ hm
  have hwell : grown.WellKept := by
    have hof : ∀ id, (∃ manifest ∈ w.tables.manifests, manifest.id = id) →
        ∃ manifest ∈ grown.tables.manifests, manifest.id = id :=
      fun id ⟨manifest, hm, hid⟩ => ⟨manifest, hmanifests manifest hm, hid⟩
    have hitems : ∀ item ∈ grown.tables.manifestItems,
        item.itemKind = ContentKind.sourceVersion.value ∨ item.itemKind = ContentKind.noteRevision.value :=
      fun item hitem => (hpins item hitem).elim (h.items item) And.right
    subst hgrown
    exact { h.toWellKept with
      items := hitems
      messages := fun m hm => hof _ (h.messages m hm)
      versions := fun v hv => hof _ (h.versions v hv) }
  refine ⟨hwell, .of_grown h.toWellKept h.toTraceable ?_ ?_ ?_ fun manifest hmanifest =>
    purged_of_grown h.toWellKept hwell (fun item hitem hid => ?_) fun v hv => .inl ?_⟩
  iterate 3 subst hgrown; rfl
  · rcases hpins item hitem with hitem | ⟨hof, -⟩
    · exact hitem
    · exact absurd (List.any_eq_true.2 ⟨manifest, hmanifest, decide_eq_true (hid.symm.trans hof)⟩) hnew
  · subst hgrown
    exact hv


theorem freezeGrounding {sourceVersionIds noteRevisionIds : List Uuid}
    (hok : w.freezeGrounding manifestId sourceVersionIds noteRevisionIds = .ok w') : w'.Closed sourceId := by
  unfold Library.freezeGrounding at hok
  split at hok
  · cases hok
  · exact h.freeze hok

theorem answer {messageId : Uuid} (hok : w.answer messageId manifestId = .ok w') : w'.Closed sourceId := by
  unfold Library.answer at hok
  split at hok
  · cases hok
  next hnew =>
  split at hok
  · cases hok
  next hmanifest =>
  cases hok
  refine { h with
    messages := fun m hm => ?_
    refs := fun n hn ref href => ?_
    notes := fun n hn ref href hkind m hm hid => ?_ }
  · rcases List.mem_append.1 hm with hm | hm
    · exact h.messages m hm
    · obtain rfl := List.mem_singleton.1 hm
      simpa using hmanifest
  · rcases h.refs n hn ref href with hkind | ⟨hkind, m, hm, hid⟩
    · exact .inl hkind
    · exact .inr ⟨hkind, m, List.mem_append_left _ hm, hid⟩
  · rcases List.mem_append.1 hm with hm | hm
    · exact h.notes n hn ref href hkind m hm hid
    · obtain rfl := List.mem_singleton.1 hm
      rcases h.refs n hn ref href with hother | ⟨-, m, hm, hof⟩
      · cases hkind.symm.trans hother
      · exact absurd (List.any_eq_true.2 ⟨m, hm, decide_eq_true (hof.trans hid.symm)⟩) hnew

theorem addRevision {revisionId noteId : Uuid} {refs : List ContentRef}
    (hrefs : ∀ ref ∈ refs, ref.kind = .noteRevision ∨ ref.kind = .message ∧ ∃ m ∈ w.tables.messages, m.id = ref.id)
    (hnotes : ∀ ref ∈ refs, ref.kind = .message → ∀ m ∈ w.tables.messages, m.id = ref.id →
      m.manifestId ∉ w.db.purgedManifests sourceId)
    (hok : w.addRevision revisionId noteId refs = .ok w') : w'.Closed sourceId := by
  unfold Library.addRevision at hok
  split at hok
  · cases hok
  cases hok
  have hnew : ∀ ref ∈ NoteRevision.refs ⟨revisionId, noteId, refs, refs⟩, ref ∈ refs := fun ref href => by
    simpa [NoteRevision.refs] using href
  refine { h with refs := fun n hn ref href => ?_, notes := fun n hn ref href => ?_ }
  · rcases List.mem_append.1 hn with hn | hn
    · exact h.refs n hn ref href
    · obtain rfl := List.mem_singleton.1 hn
      exact hrefs ref (hnew ref href)
  · rcases List.mem_append.1 hn with hn | hn
    · exact h.notes n hn ref href
    · obtain rfl := List.mem_singleton.1 hn
      exact hnotes ref (hnew ref href)

theorem saveResponse {messageId revisionId noteId : Uuid}
    (hkeeps : ∀ m ∈ w.tables.messages, m.id = messageId → m.manifestId ∉ w.db.purgedManifests sourceId)
    (hok : w.saveResponse messageId revisionId noteId = .ok w') : w'.Closed sourceId := by
  unfold Library.saveResponse at hok
  split at hok
  · cases hok
    exact h
  next message hmessage =>
  have hm := List.mem_of_find?_eq_some hmessage
  have hid : message.id = messageId := by simpa using List.find?_some hmessage
  refine h.addRevision (fun ref href => ?_) (fun ref href _ m hm' hof => ?_) hok
  · obtain rfl := List.mem_singleton.1 href
    exact .inr ⟨rfl, message, hm, rfl⟩
  · obtain rfl := List.mem_singleton.1 href
    exact hkeeps m hm' (hof.trans hid)

theorem transform {revisionIds : List Uuid} {revisionId noteId : Uuid}
    (hok : w.transform revisionIds revisionId noteId = .ok w') : w'.Closed sourceId := by
  unfold Library.transform at hok
  split at hok
  · cases hok
  have hkind : ∀ ref ∈ revisionIds.map (⟨.noteRevision, ·⟩ : Uuid → ContentRef), ref.kind = .noteRevision := by
    intro ref href
    obtain ⟨id, -, rfl⟩ := List.mem_map.1 href
    rfl
  refine h.addRevision (fun ref href => .inl (hkind ref href)) (fun ref href hmessage => ?_) hok
  cases hmessage.symm.trans (hkind ref href)

theorem promote {selectedId versionId edgeId id : Uuid} {known : Bool} {blob : BlobObject}
    (hok : w.promote selectedId id versionId known blob edgeId = .ok w') : w'.Closed sourceId := by
  unfold Library.promote at hok
  split at hok
  · cases hok
  split at hok
  · cases hok
    exact h.insertEdge (.inr (.inl ⟨rfl, rfl, .inr rfl⟩))
  · cases hacquired : w.acquire id versionId blob with
    | error e =>
      rw [hacquired] at hok
      cases hok
    | ok w₁ =>
      rw [hacquired] at hok
      cases hok
      exact (h.acquire hacquired).insertEdge (.inr (.inl ⟨rfl, rfl, .inr rfl⟩))

theorem publishVersion {artifactId versionId : Uuid} {renderedBlobIds : List Nat}
    (hkeeps : renderedBlobIds = [] ∨ manifestId ∉ w.db.purgedManifests sourceId)
    (hok : w.publishVersion artifactId manifestId versionId renderedBlobIds = .ok w') : w'.Closed sourceId := by
  unfold Library.publishVersion at hok
  split at hok
  · cases hok
  split at hok
  · cases hok
  next hmanifest =>
  cases hok
  refine { h with versions := fun v hv => ?_, renditions := fun v hv hrendered => ?_ }
  · rcases List.mem_append.1 hv with hv | hv
    · exact h.versions v hv
    · obtain rfl := List.mem_singleton.1 hv
      simpa using hmanifest
  · rcases List.mem_append.1 hv with hv | hv
    · exact h.renditions v hv hrendered
    · obtain rfl := List.mem_singleton.1 hv
      exact hkeeps.resolve_left hrendered

end Closed

end Library

/-! ## Runs -/

/-- A saved answer is not on the source, and a version on the source has no renditions. -/
def LibraryCall.KeepsClosure (sourceId : Uuid) (w : Library) : LibraryCall → Prop
  | saveResponse messageId _ _ =>
    ∀ m ∈ w.tables.messages, m.id = messageId → m.manifestId ∉ w.db.purgedManifests sourceId
  | publishVersion _ manifestId _ renderedBlobIds =>
    renderedBlobIds = [] ∨ manifestId ∉ w.db.purgedManifests sourceId
  | _ => True

/-- The libraries that calls lead to from an empty one, where `allowed` says which may be made. -/
def Library.Reached (rt : Runtime) (allowed : Library → LibraryCall → Prop) (w : Library) : Prop :=
  ReflTransGen (fun w w' => ∃ call, allowed w call ∧ LibraryCall.exec rt w call = .ok w') {} w

/-- What an erase left of the source: no row that derives from it, and no reference to a blob that
only such rows refer to. -/
structure Library.Purged (w : Library) (sourceId : Uuid) (left : SourceDb) : Prop where
  rows : ∀ row, w.Derives sourceId row → ¬ w.Survives left row
  blobs : ∀ blobId, (∀ ref ∈ w.tables.blobReferences, ref.blobId = blobId → w.Derives sourceId (.blobReference ref)) →
    ∀ ref ∈ left.blobReferences, ref.blobId ≠ blobId

namespace Library

variable {w w' : Library} {sourceId : Uuid} {rt : Runtime}

theorem empty_closed (sourceId : Uuid) : ({} : Library).Closed sourceId := by
  refine ⟨⟨rfl, ?_, ?_, ?_, ?_, ?_, ?_⟩, ?_, ?_⟩ <;> intro _ h <;> cases h

theorem exec_closed {call : LibraryCall} (h : w.Closed sourceId) (hkeeps : call.KeepsClosure sourceId w)
    (hok : call.exec rt w = .ok w') : w'.Closed sourceId := by
  cases call with
  | acquire => exact h.acquire hok
  | parse => exact h.parse hok
  | index => exact h.index hok
  | activate => exact h.activate hok
  | freezeGrounding => exact h.freezeGrounding hok
  | answer => exact h.answer hok
  | editNote =>
    have hnone : ∀ ref : ContentRef, ref ∉ [] := fun _ => List.not_mem_nil
    exact h.addRevision (fun ref href => absurd href (hnone ref)) (fun ref href => absurd href (hnone ref)) hok
  | saveResponse => exact h.saveResponse hkeeps hok
  | transform => exact h.transform hok
  | promote => exact h.promote hok
  | freezeRequest => exact h.freeze hok
  | storeRenditions renditions artifactId =>
    cases hok
    exact h.storeRenditions renditions artifactId
  | publishVersion => exact h.publishVersion hkeeps hok

theorem reached_closed (hrun : Reached rt (fun w call => call.KeepsClosure sourceId w) w) : w.Closed sourceId := by
  induction hrun with
  | refl => exact empty_closed sourceId
  | tail _ hstep ih =>
    obtain ⟨call, hkeeps, hok⟩ := hstep
    exact exec_closed ih hkeeps hok

/-- **A complete erase leaves nothing that derives from its source**, where no step saved an answer
on it to a note and none gave a version on it renditions. -/
theorem purge_closure {taskId : Uuid} {now now' : Time} {report : PurgeReport}
    (hrun : Reached rt (fun w call => call.KeepsClosure sourceId w) w)
    (hcomplete : ((w.marked taskId sourceId).erase taskId now now').1 = .ok report) :
    w.Purged sourceId ((w.marked taskId sourceId).erase taskId now now').2 := by
  have hw := reached_closed hrun
  have htask : (w.marked taskId sourceId).purgeTasks.find? (·.id = taskId) =
      some ⟨taskId, "source", sourceId, .pending, none, none, none⟩ := by
    simp [marked, db, hw.tasks]
  generalize herase : (w.marked taskId sourceId).erase taskId now now' = run at hcomplete ⊢
  obtain ⟨result, left⟩ := run
  obtain rfl := hcomplete
  obtain ⟨tasks, rfl⟩ := SourceDb.erase_ok htask herase
  have hrows : ∀ row, w.Derives sourceId row →
      ¬ w.Survives (((w.marked taskId sourceId).objectsErased sourceId).withTasks tasks) row := fun row h =>
    inside_erased (derives_inside hw h) fun id hrow => derives_ne_source hw.toWellKept (hrow ▸ h)
  refine ⟨hrows, fun blobId honly ref href hid => ?_⟩
  have hmem : ref ∈ w.tables.blobReferences := (mem_deleteWhere.1 (mem_deleteWhere.1 href).1).1
  exact hrows _ (honly ref hmem hid) href

end Library

/-! ## A source with an answer and an artifact -/

def storedOfOne : BlobObject :=
  { id := 0, contentSha256 := "ca97", sizeBytes := 1, storagePath := .object "ca97", state := .finalized }

/-- Version 1 of source 5, manifest 2 that pins it and the answer 3 on it. -/
def answeredOfOne : Library where
  tables :=
    { sourceVersions := [⟨1, 5, some 0, "ca97", some 1⟩]
      manifests := [⟨2, none⟩]
      manifestItems := [⟨2, "source_version", 1⟩]
      messages := [⟨3, 2⟩]
      blobObjects := [storedOfOne]
      blobReferences := [⟨0, "source_version", 1⟩]
      finals := ["ca97"] }

theorem answeredOfOne_reached :
    Library.Reached sampleRuntime (fun w call => call.KeepsClosure 5 w) answeredOfOne := by
  refine .head ⟨.acquire 5 1 storedOfOne, trivial, rfl⟩ ?_
  refine .head ⟨.freezeGrounding 2 [1] [], trivial, rfl⟩ ?_
  exact .single ⟨.answer 3 2, trivial, rfl⟩

/-- The erase of a purge of source 5 completes. -/
theorem complete_of_isOk (w : Library) (h : ((w.marked 7 5).erase 7 0 1).1.isOk = true) :
    ∃ report, ((w.marked 7 5).erase 7 0 1).1 = .ok report := by
  cases hrun : ((w.marked 7 5).erase 7 0 1).1 with
  | error e =>
    rw [hrun] at h
    cases h
  | ok report => exact ⟨report, rfl⟩

theorem purge_closure_of_one : answeredOfOne.Purged 5 ((answeredOfOne.marked 7 5).erase 7 0 1).2 := by
  obtain ⟨report, hcomplete⟩ := complete_of_isOk answeredOfOne (by decide +kernel)
  exact Library.purge_closure answeredOfOne_reached hcomplete

/-- A note that the answer was saved to. -/
def savedOfOne : Library :=
  { answeredOfOne with noteRevisions := [⟨8, 9, [⟨.message, 3⟩], [⟨.message, 3⟩]⟩] }

theorem savedOfOne_derives : savedOfOne.Derives 5 (.noteRevision ⟨8, 9, [⟨.message, 3⟩], [⟨.message, 3⟩]⟩) := by
  have hanswer : (⟨3, 2⟩ : Message) ∈ savedOfOne.tables.messages := .head _
  have hitem : (⟨2, "source_version", 1⟩ : ManifestItem) ∈ savedOfOne.tables.manifestItems := .head _
  have hversion : (⟨1, 5, some 0, "ca97", some 1⟩ : SourceVersion) ∈ savedOfOne.tables.sourceVersions := .head _
  have hsaved : savedOfOne.Names ContentKind.message.value 3 (.message ⟨3, 2⟩) := .message hanswer
  refine .head (.noteRevision (.head _) (.head _) hsaved) ?_
  refine .head (.message hanswer) ?_
  exact .head (.item hitem (.sourceVersion 1)) (.single (.version hversion))

/-- The source is purged, and the answer is still to be read in the note. -/
theorem saved_answer_survives : ¬ ∀ (rt : Runtime) (w : Library) (sourceId taskId : Uuid) (now now' : Time)
    (report : PurgeReport), Library.Reached rt (fun _ _ => True) w →
      ((w.marked taskId sourceId).erase taskId now now').1 = .ok report →
        w.Purged sourceId ((w.marked taskId sourceId).erase taskId now now').2 := by
  intro h
  obtain ⟨report, hcomplete⟩ := complete_of_isOk savedOfOne (by decide +kernel)
  have hreached : Library.Reached sampleRuntime (fun _ _ => True) answeredOfOne :=
    ReflTransGen.mono (fun _ _ ⟨call, _, hok⟩ => ⟨call, trivial, hok⟩) _ _ answeredOfOne_reached
  have hsaved : Library.Reached sampleRuntime (fun _ _ => True) savedOfOne :=
    hreached.tail ⟨.saveResponse 3 8 9, trivial, rfl⟩
  have hpurged := h sampleRuntime savedOfOne 5 7 0 1 report hsaved hcomplete
  exact hpurged.rows _ savedOfOne_derives (.head _)

end MilpbookLM
