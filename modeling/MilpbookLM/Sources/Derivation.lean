/-
What of a library derives from a source. `Derives` is the transitive closure of the
dependencies that the rows record, `Inside` what an erase looks for: one step from
the source's versions. Where no note was saved from an answer on the source and no
rendition stored for a version on it, all that derives from the source is inside
(`derives_inside`), and nothing inside survives an erase (`inside_erased`).
-/
import MilpbookLM.Sources.Library
import Mathlib.Logic.Relation

namespace MilpbookLM

open Table Relation

/-! ## Derivation -/

/-- A row that has content, or pins some. -/
inductive LibraryRow
  | source (id : Uuid)
  | sourceVersion (id : Uuid)
  | document (row : CanonicalDocumentRow)
  | node (row : CanonicalNodeRow)
  | locator (row : CanonicalLocatorRow)
  | generation (row : IndexGenerationRow)
  | chunk (row : IndexChunkRow)
  | manifest (id : Uuid)
  | message (row : Message)
  | artifactVersion (row : PublishedVersion)
  | noteRevision (row : NoteRevision)
  | blobReference (row : BlobReference)

/-- A blob reference stored for a rendition of the version: it has the version's id, or the artifact's. -/
def BlobReference.renders (ref : BlobReference) (v : PublishedVersion) : Prop :=
  ref.referrerKind ∈ ["artifact_version", "artifact_rendition"] ∧
    (ref.referrerId = v.id ∨ ref.referrerId = v.artifactId) ∧ ref.blobId ∈ v.renderedBlobIds

def NoteRevision.refs (n : NoteRevision) : List ContentRef := n.provenanceRefs ++ n.contentDependencies

namespace Library

variable (w : Library)

/-- The row that a kind and an id name; blobs are none of these. -/
inductive Names : String → Uuid → LibraryRow → Prop
  | source (id) : Names "source" id (.source id)
  | sourceVersion (id) : Names "source_version" id (.sourceVersion id)
  | document {row} (h : row ∈ w.tables.canonicalDocuments) : Names "canonical_document" row.id (.document row)
  | noteRevision {row} (h : row ∈ w.noteRevisions) : Names "note_revision" row.id (.noteRevision row)
  | message {row} (h : row ∈ w.tables.messages) : Names "message" row.id (.message row)
  | artifactVersion {row} (h : row ∈ w.artifactVersions) : Names "artifact_version" row.id (.artifactVersion row)

/-- The first row records that it depends on the second. -/
inductive Records : LibraryRow → LibraryRow → Prop
  | version {v} (h : v ∈ w.tables.sourceVersions) : Records (.sourceVersion v.id) (.source v.sourceId)
  | document {d} (h : d ∈ w.tables.canonicalDocuments) : Records (.document d) (.sourceVersion d.sourceVersionId)
  | node {n d} (h : n ∈ w.tables.canonicalNodes) (hd : d ∈ w.tables.canonicalDocuments)
      (hid : d.id = n.canonicalDocumentId) : Records (.node n) (.document d)
  | locator {l n} (h : l ∈ w.tables.canonicalLocators) (hn : n ∈ w.tables.canonicalNodes)
      (hid : n.id = l.canonicalNodeId) : Records (.locator l) (.node n)
  | generation {g} (h : g ∈ w.tables.indexGenerations) : Records (.generation g) (.source g.sourceId)
  | chunkGeneration {c g} (h : c ∈ w.tables.indexChunks) (hg : g ∈ w.tables.indexGenerations)
      (hid : g.id = c.indexGenerationId) : Records (.chunk c) (.generation g)
  | chunkDocument {c d} (h : c ∈ w.tables.indexChunks) (hd : d ∈ w.tables.canonicalDocuments)
      (hid : d.id = c.canonicalDocumentId) : Records (.chunk c) (.document d)
  | chunkNode {c n} (h : c ∈ w.tables.indexChunks) (hn : n ∈ w.tables.canonicalNodes) (hid : n.id = c.canonicalNodeId) :
      Records (.chunk c) (.node n)
  | item {item row} (h : item ∈ w.tables.manifestItems) (hrow : w.Names item.itemKind item.itemId row) :
      Records (.manifest item.manifestId) row
  | message {m} (h : m ∈ w.tables.messages) : Records (.message m) (.manifest m.manifestId)
  | artifactVersion {v} (h : v ∈ w.artifactVersions) : Records (.artifactVersion v) (.manifest v.manifestId)
  | noteRevision {n ref row} (h : n ∈ w.noteRevisions) (href : ref ∈ n.refs)
      (hrow : w.Names ref.kind.value ref.id row) : Records (.noteRevision n) row
  | versionReference {ref} (h : ref ∈ w.tables.blobReferences) (hkind : ref.referrerKind = "source_version") :
      Records (.blobReference ref) (.sourceVersion ref.referrerId)
  | rendition {ref v} (h : ref ∈ w.tables.blobReferences) (hv : v ∈ w.artifactVersions) (hrenders : ref.renders v) :
      Records (.blobReference ref) (.artifactVersion v)
  | contains {e a b} (h : e ∈ w.edges) (htype : e.edgeType = "contains") (ha : w.Names e.toType e.toId a)
      (hb : w.Names e.fromType e.fromId b) : Records a b
  | derived {e a b} (h : e ∈ w.edges) (htype : e.edgeType ≠ "contains") (ha : w.Names e.fromType e.fromId a)
      (hb : w.Names e.toType e.toId b) : Records a b

/-- The row derives content from the source. -/
def Derives (sourceId : Uuid) (row : LibraryRow) : Prop := TransGen w.Records row (.source sourceId)

/-- The row is in the tables a purge left; notes are never in its way, and a blank version is no content. -/
def Survives (left : SourceDb) : LibraryRow → Prop
  | .source _ => True
  | .sourceVersion id => ∃ v ∈ left.sourceVersions, v.id = id ∧
      ¬ (v.originalBlobId = none ∧ v.contentSha256 = "purged:" ++ id.str ∧ v.contentSizeBytes = none)
  | .document row => row ∈ left.canonicalDocuments
  | .node row => row ∈ left.canonicalNodes
  | .locator row => row ∈ left.canonicalLocators
  | .generation row => row ∈ left.indexGenerations
  | .chunk row => row ∈ left.indexChunks
  | .manifest id => ∃ m ∈ left.manifests, m.id = id
  | .message row => row ∈ left.messages
  | .artifactVersion row => row.toArtifactVersion ∈ left.artifactVersions
  | .noteRevision row => row ∈ w.noteRevisions
  | .blobReference row => row ∈ left.blobReferences

/-- The tables after `mark`, which adds the purge task. -/
def marked (taskId sourceId : Uuid) : SourceDb :=
  { w.db with purgeTasks := w.db.purgeTasks ++ [⟨taskId, "source", sourceId, .pending, none, none, none⟩] }

/-! ## What an erase looks for -/

/-- The row is of the closure that an erase of the source takes. -/
def Inside (sourceId : Uuid) : LibraryRow → Prop
  | .source id => id = sourceId
  | .sourceVersion id => id ∈ w.db.purgedVersions sourceId
  | .document row => row.sourceVersionId ∈ w.db.purgedVersions sourceId
  | .node row => row.canonicalDocumentId ∈ w.db.purgedDocuments sourceId
  | .locator row => row.canonicalNodeId ∈ w.db.purgedNodes sourceId
  | .generation row => row.sourceId = sourceId
  | .chunk row => row.indexGenerationId ∈ w.db.purgedGenerations sourceId ∨
      row.canonicalDocumentId ∈ w.db.purgedDocuments sourceId ∨ row.canonicalNodeId ∈ w.db.purgedNodes sourceId
  | .manifest id => id ∈ w.db.purgedManifests sourceId
  | .message row => row.manifestId ∈ w.db.purgedManifests sourceId
  | .artifactVersion row => row.manifestId ∈ w.db.purgedManifests sourceId
  | .noteRevision _ => False
  | .blobReference row => w.db.purgedReference sourceId row = true

/-- The edge is one that an activation or a promotion inserts, between rows that are there. -/
def Links (e : TypedEdge) : Prop :=
  e.edgeType = "contains" ∧ e.fromType = "source" ∧ e.toType = "source_version" ∧
      (∃ v ∈ w.tables.sourceVersions, v.id = e.toId ∧ v.sourceId = e.fromId) ∨
    e.edgeType = "derived_from" ∧ e.fromType = "source_version" ∧ (e.toType = "blob" ∨ e.toType = "note_revision") ∨
    e.edgeType = "generated_from" ∧ e.fromType = "canonical_document" ∧ e.toType = "source_version" ∧
      (∃ d ∈ w.tables.canonicalDocuments, d.id = e.fromId) ∧
      ∀ d ∈ w.tables.canonicalDocuments, d.id = e.fromId → d.sourceVersionId = e.toId

/-- What the rows of a library name is there, and every pin is of a version or a note revision. -/
structure WellKept : Prop where
  tasks : w.tables.purgeTasks = []
  documents : ∀ d ∈ w.tables.canonicalDocuments, ∀ d' ∈ w.tables.canonicalDocuments, d.id = d'.id → d = d'
  items : ∀ item ∈ w.tables.manifestItems,
    item.itemKind = ContentKind.sourceVersion.value ∨ item.itemKind = ContentKind.noteRevision.value
  messages : ∀ m ∈ w.tables.messages, ∃ manifest ∈ w.tables.manifests, manifest.id = m.manifestId
  versions : ∀ v ∈ w.artifactVersions, ∃ manifest ∈ w.tables.manifests, manifest.id = v.manifestId
  refs : ∀ n ∈ w.noteRevisions, ∀ ref ∈ n.refs,
    ref.kind = .noteRevision ∨ ref.kind = .message ∧ ∃ m ∈ w.tables.messages, m.id = ref.id
  edges : ∀ e ∈ w.edges, w.Links e

/-- No note refers to an answer on the source, and no version on the source has a rendition. -/
structure Traceable (sourceId : Uuid) : Prop where
  notes : ∀ n ∈ w.noteRevisions, ∀ ref ∈ n.refs, ref.kind = .message → ∀ m ∈ w.tables.messages, m.id = ref.id →
    m.manifestId ∉ w.db.purgedManifests sourceId
  renditions : ∀ v ∈ w.artifactVersions, v.renderedBlobIds ≠ [] → v.manifestId ∉ w.db.purgedManifests sourceId

/-- Both, as the calls of a run that keep to the closure leave them. -/
structure Closed (sourceId : Uuid) : Prop extends w.WellKept, w.Traceable sourceId

variable {w : Library} {sourceId : Uuid} {a b row : LibraryRow} {id : Uuid}

/-! ## What an edge or an item names -/

theorem names_sourceVersion (h : w.Names "source_version" id row) : row = .sourceVersion id := by
  generalize hkind : "source_version" = kind at h
  cases h
  case sourceVersion => rfl
  all_goals exact absurd hkind (by decide)

theorem names_noteRevision (h : w.Names "note_revision" id row) : ∃ n, row = .noteRevision n := by
  generalize hkind : "note_revision" = kind at h
  cases h
  case noteRevision n _ => exact ⟨n, rfl⟩
  all_goals exact absurd hkind (by decide)

theorem names_message (h : w.Names "message" id row) : ∃ m ∈ w.tables.messages, m.id = id ∧ row = .message m := by
  generalize hkind : "message" = kind at h
  cases h
  case message m hm => exact ⟨m, hm, rfl, rfl⟩
  all_goals exact absurd hkind (by decide)

theorem names_document (h : w.Names "canonical_document" id row) :
    ∃ d ∈ w.tables.canonicalDocuments, d.id = id ∧ row = .document d := by
  generalize hkind : "canonical_document" = kind at h
  cases h
  case document d hd => exact ⟨d, hd, rfl, rfl⟩
  all_goals exact absurd hkind (by decide)

theorem names_source (h : w.Names "source" id row) : row = .source id := by
  generalize hkind : "source" = kind at h
  cases h
  case source => rfl
  all_goals exact absurd hkind (by decide)

theorem names_blob : ¬ w.Names "blob" id row := by
  intro h
  generalize hkind : "blob" = kind at h
  cases h
  all_goals exact absurd hkind (by decide)

/-! ## The closure of an erase takes what derives from the source -/

/-- The pins of a manifest that an erase takes: no document is pinned. -/
theorem mem_purgedManifests (hw : w.WellKept) {manifestId : Uuid} :
    manifestId ∈ w.db.purgedManifests sourceId ↔ ∃ item ∈ w.tables.manifestItems, item.manifestId = manifestId ∧
      item.itemKind = "source_version" ∧ item.itemId ∈ w.db.purgedVersions sourceId := by
  simp only [SourceDb.purgedManifests, SourceDb.manifestIds, List.mem_dedup, List.mem_map, List.mem_filter]
  constructor
  · rintro ⟨item, ⟨hitem, hpins⟩, hid⟩
    refine ⟨item, hitem, hid, ?_⟩
    simp only [SourceDb.pins, Bool.or_eq_true, Bool.and_eq_true, decide_eq_true_eq] at hpins
    rcases hpins with h | ⟨hkind, -⟩
    · exact h
    · rcases hw.items item hitem with hk | hk <;> exact absurd (hk.symm.trans hkind) (by decide)
  · rintro ⟨item, hitem, hid, hkind, hpinned⟩
    exact ⟨item, ⟨hitem, by simp [SourceDb.pins, hkind, hpinned]⟩, hid⟩

theorem mem_purgedNodes {n : CanonicalNodeRow} (h : n ∈ w.tables.canonicalNodes)
    (hdocument : n.canonicalDocumentId ∈ w.db.purgedDocuments sourceId) : n.id ∈ w.db.purgedNodes sourceId := by
  refine List.mem_map_of_mem (List.mem_filter.2 ⟨h, ?_⟩)
  cases w.db.canonicalNodes.length <;> simp [nodeErased, hdocument]

/-- **Whatever depends on a row of the closure is in it.** -/
theorem records_inside (hw : w.Closed sourceId) (h : w.Records a b) (hb : w.Inside sourceId b) :
    w.Inside sourceId a := by
  cases h with
  | version h => exact List.mem_map_of_mem (List.mem_filter.2 ⟨h, decide_eq_true hb⟩)
  | document h => exact hb
  | @node n _ h hd hid =>
    show n.canonicalDocumentId ∈ _
    exact hid ▸ List.mem_map_of_mem (List.mem_filter.2 ⟨hd, decide_eq_true hb⟩)
  | @locator l _ h hn hid =>
    show l.canonicalNodeId ∈ _
    exact hid ▸ mem_purgedNodes hn hb
  | generation h => exact hb
  | chunkGeneration h hg hid => exact .inl (hid ▸ List.mem_map_of_mem (List.mem_filter.2 ⟨hg, decide_eq_true hb⟩))
  | chunkDocument h hd hid => exact .inr (.inl (hid ▸ List.mem_map_of_mem (List.mem_filter.2 ⟨hd, decide_eq_true hb⟩)))
  | chunkNode h hn hid => exact .inr (.inr (hid ▸ mem_purgedNodes hn hb))
  | @item item _ h hrow =>
    rcases hw.items _ h with hkind | hkind
    · rw [hkind] at hrow
      obtain rfl := names_sourceVersion hrow
      exact (mem_purgedManifests hw.toWellKept).2 ⟨item, h, rfl, hkind, hb⟩
    · rw [hkind] at hrow
      obtain ⟨n, rfl⟩ := names_noteRevision hrow
      exact hb.elim
  | message h => exact hb
  | artifactVersion h => exact hb
  | noteRevision h href hrow =>
    rcases hw.refs _ h _ href with hkind | ⟨hkind, -⟩
    · rw [hkind] at hrow
      obtain ⟨n, rfl⟩ := names_noteRevision hrow
      exact hb.elim
    · rw [hkind] at hrow
      obtain ⟨m, hm, hid, rfl⟩ := names_message hrow
      exact hw.notes _ h _ href hkind m hm hid hb
  | versionReference h hkind =>
    exact Bool.or_eq_true_iff.2 (.inl (Bool.and_eq_true_iff.2 ⟨decide_eq_true hkind, decide_eq_true hb⟩))
  | rendition h hv hrenders => exact absurd hb (hw.renditions _ hv (List.ne_nil_of_mem hrenders.2.2))
  | contains h htype ha hb' =>
    rcases hw.edges _ h with ⟨-, hfrom, hto, v, hv, hid, hsource⟩ | ⟨hderived, -⟩ | ⟨hgenerated, -⟩
    · rw [hto] at ha
      rw [hfrom] at hb'
      obtain rfl := names_sourceVersion ha
      obtain rfl := names_source hb'
      exact hid ▸ List.mem_map_of_mem (List.mem_filter.2 ⟨hv, decide_eq_true (hsource.trans hb)⟩)
    · exact absurd (hderived.symm.trans htype) (by decide)
    · exact absurd (hgenerated.symm.trans htype) (by decide)
  | derived h htype ha hb' =>
    rcases hw.edges _ h with ⟨hcontains, -⟩ | ⟨-, -, hto | hto⟩ | ⟨-, hfrom, hto, -, hversion⟩
    · exact absurd hcontains htype
    · rw [hto] at hb'
      exact absurd hb' names_blob
    · rw [hto] at hb'
      obtain ⟨n, rfl⟩ := names_noteRevision hb'
      exact hb.elim
    · rw [hfrom] at ha
      rw [hto] at hb'
      obtain ⟨d, hd, hid, rfl⟩ := names_document ha
      obtain rfl := names_sourceVersion hb'
      simp only [Inside, hversion d hd hid]
      exact hb

/-- A source depends on nothing. -/
theorem source_records (hw : w.WellKept) : ¬ w.Records (.source id) row := by
  intro h
  generalize hsource : LibraryRow.source id = a at h
  cases h
  case item hrow => cases hsource
  case contains e h htype ha hb =>
    rcases hw.edges e h with ⟨-, -, hto, -⟩ | ⟨hderived, -⟩ | ⟨hgenerated, -⟩
    · rw [hto] at ha
      cases hsource.trans (names_sourceVersion ha)
    · exact absurd (hderived.symm.trans htype) (by decide)
    · exact absurd (hgenerated.symm.trans htype) (by decide)
  case derived e h htype ha hb =>
    rcases hw.edges e h with ⟨hcontains, -⟩ | ⟨-, hfrom, -⟩ | ⟨-, hfrom, -⟩
    · exact absurd hcontains htype
    · rw [hfrom] at ha
      cases hsource.trans (names_sourceVersion ha)
    · rw [hfrom] at ha
      obtain ⟨d, -, -, rfl⟩ := names_document ha
      cases hsource
  all_goals cases hsource

theorem derives_inside (hw : w.Closed sourceId) (h : w.Derives sourceId row) : w.Inside sourceId row := by
  induction h using TransGen.head_induction_on with
  | single h => exact records_inside hw h rfl
  | head h _ ih => exact records_inside hw h ih

/-- Not the source itself, which an erase leaves. -/
theorem derives_ne_source (hw : w.WellKept) : ¬ w.Derives sourceId (.source id) := by
  intro h
  obtain ⟨b, hb, -⟩ := TransGen.head'_iff.1 h
  exact source_records hw hb

/-! ## What an erase leaves of the closure -/

/-- **No row of the closure survives a complete erase**, but for the source itself. -/
theorem inside_erased {taskId : Uuid} {tasks : List PurgeTask} (h : w.Inside sourceId row)
    (hrow : ∀ id, row ≠ .source id) : ¬ w.Survives (((w.marked taskId sourceId).objectsErased sourceId).withTasks tasks) row := by
  intro hleft
  cases row with
  | source id => exact hrow id rfl
  | sourceVersion id =>
    obtain ⟨v, hv, rfl, hcontent⟩ := hleft
    have hid : v.id ∈
        (((w.marked taskId sourceId).objectsErased sourceId).withTasks tasks).purgedVersions sourceId := by
      rw [SourceDb.purgedVersions, SourceDb.versionIds_left]
      exact h
    rw [← SourceDb.left_objectsErased.versions v hv hid] at hcontent
    exact hcontent ⟨rfl, rfl, rfl⟩
  | document d =>
    obtain ⟨hd, hstays⟩ := mem_deleteWhere.1 hleft
    exact of_decide_eq_false hstays (List.mem_map_of_mem (List.mem_filter.2 ⟨hd, decide_eq_true h⟩))
  | node n =>
    obtain ⟨hn, hstays⟩ := mem_deleteWhere.1 hleft
    exact of_decide_eq_false hstays (mem_purgedNodes hn h)
  | locator l => exact of_decide_eq_false (mem_deleteWhere.1 hleft).2 h
  | generation g => exact of_decide_eq_false (mem_deleteWhere.1 hleft).2 h
  | chunk c =>
    obtain ⟨hc, hstays⟩ := mem_deleteWhere.1 hleft
    obtain ⟨hdocument, hnode⟩ := Bool.or_eq_false_iff.1 hstays
    rcases h with h | h | h
    · exact of_decide_eq_false (mem_deleteWhere.1 hc).2 h
    · exact of_decide_eq_false hdocument h
    · exact of_decide_eq_false hnode h
  | manifest id =>
    obtain ⟨m, hm, rfl⟩ := hleft
    exact of_decide_eq_false (mem_deleteWhere.1 hm).2 h
  | message m => exact of_decide_eq_false (mem_deleteWhere.1 hleft).2 h
  | artifactVersion v =>
    obtain ⟨hv, hstays⟩ := mem_deleteWhere.1 hleft
    exact of_decide_eq_false hstays (List.mem_map_of_mem (List.mem_filter.2 ⟨hv, decide_eq_true h⟩))
  | noteRevision n => exact h
  | blobReference ref =>
    have hstays := (mem_deleteWhere.1 (mem_deleteWhere.1 hleft).1).2
    cases h.symm.trans hstays

end Library

end MilpbookLM
