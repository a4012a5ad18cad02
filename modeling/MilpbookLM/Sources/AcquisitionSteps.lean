/-
What a call can do to what identifies sources, versions and objects (`exec_change`): a source
keeps its notebook and its origin, a version its source, an object its digest, and a call
that acquires nothing leaves all of it as it is (`sameIdentities_exec`).
-/
import MilpbookLM.Sources.Acquisition

namespace MilpbookLM

open Table Interleave

/-! ## Identities -/

/-- What no call changes of a source. -/
structure SourceIdentity where
  id : Uuid
  notebookId : Uuid
  origin : String
  deriving DecidableEq

/-- What says of a version whose it is and where its bytes are. -/
structure VersionIdentity where
  id : Uuid
  sourceId : Uuid
  versionNumber : Nat
  originalBlobId : Option Nat
  contentSha256 : String
  deriving DecidableEq

def Source.identity (s : Source) : SourceIdentity := ⟨s.id, s.notebookId, s.origin⟩

def CatalogVersion.identity (v : CatalogVersion) : VersionIdentity :=
  ⟨v.id, v.sourceId, v.versionNumber, v.originalBlobId, v.contentSha256⟩

namespace VersionIdentity

/-- What a version keeps after its contents are erased. -/
def erased (versionIds : List Uuid) (v : VersionIdentity) : VersionIdentity :=
  if v.id ∈ versionIds then { v with originalBlobId := none, contentSha256 := "purged:" ++ v.id.str } else v

/-- What it keeps after the rows of some objects are deleted. -/
def dropped (blobIds : List Nat) (v : VersionIdentity) : VersionIdentity :=
  if v.originalBlobId.any (· ∈ blobIds) then { v with originalBlobId := none } else v

theorem erased_sourceId {versionIds : List Uuid} {v : VersionIdentity} :
    (v.erased versionIds).sourceId = v.sourceId := by
  unfold erased
  split <;> rfl

theorem dropped_sourceId {blobIds : List Nat} {v : VersionIdentity} : (v.dropped blobIds).sourceId = v.sourceId := by
  unfold dropped
  split <;> rfl

theorem erased_versionNumber {versionIds : List Uuid} {v : VersionIdentity} :
    (v.erased versionIds).versionNumber = v.versionNumber := by
  unfold erased
  split <;> rfl

theorem dropped_versionNumber {blobIds : List Nat} {v : VersionIdentity} :
    (v.dropped blobIds).versionNumber = v.versionNumber := by
  unfold dropped
  split <;> rfl

theorem erased_id {versionIds : List Uuid} {v : VersionIdentity} : (v.erased versionIds).id = v.id := by
  unfold erased
  split <;> rfl

theorem dropped_id {blobIds : List Nat} {v : VersionIdentity} : (v.dropped blobIds).id = v.id := by
  unfold dropped
  split <;> rfl

/-- A version that still has a blob is untouched. -/
theorem erased_some {versionIds : List Uuid} {v : VersionIdentity} {b : Nat} (h : (v.erased versionIds).originalBlobId = some b) :
    v.id ∉ versionIds ∧ v.erased versionIds = v := by
  unfold erased at h ⊢
  split at h
  · cases h
  · next hout => exact ⟨hout, if_neg hout⟩

theorem dropped_some {blobIds : List Nat} {v : VersionIdentity} {b : Nat} (h : (v.dropped blobIds).originalBlobId = some b) :
    b ∉ blobIds ∧ v.dropped blobIds = v := by
  unfold dropped at h ⊢
  split at h
  · cases h
  · next hout =>
    refine ⟨?_, if_neg hout⟩
    rw [h] at hout
    simpa using hout

end VersionIdentity

namespace Catalog

def sourceIdentities (w : Catalog) : List SourceIdentity := w.sources.map Source.identity

def versionIdentities (w : Catalog) : List VersionIdentity := w.versions.map CatalogVersion.identity

variable {w w' : Catalog}

theorem map_update {α β : Type} {g : α → β} {p : α → Bool} {f : α → α} (h : ∀ a, p a = true → g (f a) = g a) (t : List α) :
    (update p f t).map g = t.map g := by
  simp only [update, List.map_map]
  refine List.map_congr_left fun a _ => ?_
  by_cases hp : p a = true
  · simp [hp, h a hp]
  · simp [hp]

/-- The identities are the same, and the references. -/
def SameIdentities (w w' : Catalog) : Prop :=
  w'.sourceIdentities = w.sourceIdentities ∧ w'.versionIdentities = w.versionIdentities ∧ w'.blobReferences = w.blobReferences

theorem sameIdentities_setAvailability {p : Source → Bool} {availability : Availability} : SameIdentities w (w.setAvailability p availability) :=
  ⟨map_update (by intros; rfl) _, rfl, rfl⟩

theorem sameIdentities_setStatus {p : CatalogVersion → Bool} {status : VersionStatus} {code : Option String} :
    SameIdentities w (w.setStatus p status code) :=
  ⟨rfl, map_update (by intros; rfl) _, rfl⟩

theorem sameIdentities_promote {sourceId versionId documentId : Uuid} : SameIdentities w (w.promote sourceId versionId documentId) :=
  ⟨map_update (by intros; rfl) _, (map_update (by intros; rfl) _).trans (map_update (by intros; rfl) _), rfl⟩

/-- **A call that acquires nothing leaves the identities as they are.** -/
theorem sameIdentities_exec {rt : Runtime} {call : SourceCall} {T : Type} {world : AcquisitionWorld T}
    (hother : (AcquisitionCall.other call).Enabled world) (h : call.exec rt w = .ok w') : SameIdentities w w' := by
  cases call with
  | acquire => exact hother.elim
  | acquireUnavailable => exact hother.elim
  | markRefreshFailed sourceId actorId =>
    cases h
    exact sameIdentities_setAvailability
  | setSelected sourceId actorId selected =>
    simp only [SourceCall.exec, setSelected] at h
    split at h
    · cases h
      exact sameIdentities_setAvailability
    · cases h
  | markParsing versionId =>
    cases h
    exact sameIdentities_setStatus
  | persist document =>
    simp only [SourceCall.exec, persist] at h
    split at h
    · cases h
    · cases h
      exact ⟨rfl, map_update (by intros; rfl) _, rfl⟩
  | persistFailure versionId errorCode =>
    cases h
    exact ⟨map_update (by intros; rfl) _, map_update (by intros; rfl) _, rfl⟩
  | activate sourceId actorId =>
    simp only [SourceCall.exec, Except.map] at h
    split at h
    · cases h
    · next promoted hok =>
      cases h
      obtain ⟨flag, w₁⟩ := promoted
      rcases activate_ok hok with ⟨-, rfl⟩ | ⟨version, document, -, rfl⟩
      · exact ⟨rfl, rfl, rfl⟩
      · exact sameIdentities_promote
  | index env call =>
    cases h
    exact ⟨rfl, rfl, rfl⟩
  | mark sourceId actorId taskId =>
    simp only [SourceCall.exec, Except.map] at h
    split at h
    · cases h
    · next marked hok =>
      cases h
      rcases mark_ok hok with rfl | ⟨-, rfl⟩
      · exact ⟨rfl, rfl, rfl⟩
      · exact ⟨map_update (by intros; rfl) _, map_update (by intros; rfl) _, rfl⟩
  | administer memberships restrictions =>
    cases h
    exact ⟨rfl, rfl, rfl⟩

theorem insertVersion_new {v : CatalogVersion} (h : w.insertVersion v = .ok w') :
    (∀ old ∈ w.versions, old.id ≠ v.id) ∧
      (∀ old ∈ w.versions, ¬ (old.sourceId = v.sourceId ∧ old.versionNumber = v.versionNumber)) ∧
      w' = { w with versions := w.versions ++ [v] } := by
  unfold insertVersion at h
  split at h
  · cases h
  next hnew =>
  split at h
  · cases h
  next hnumber =>
  cases h
  exact ⟨by simpa using hnew, by simpa using hnumber, rfl⟩

/-! ## Views -/

theorem mem_joined {p : Source → Bool} {s : Source} {v : CatalogVersion} :
    (s, v) ∈ w.joined p ↔ s ∈ w.sources ∧ p s = true ∧ v ∈ w.versions ∧ v.sourceId = s.id := by
  simp only [joined, versionsOf, List.mem_flatMap, List.mem_filter, List.mem_map, Prod.mk.injEq, decide_eq_true_eq]
  constructor
  · rintro ⟨s', ⟨hs, hp⟩, v', ⟨hv, hid⟩, rfl, rfl⟩
    exact ⟨hs, hp, hv, hid⟩
  · intro ⟨hs, hp, hv, hid⟩
    exact ⟨s, ⟨hs, hp⟩, v, ⟨hv, hid⟩, rfl, rfl⟩

/-- What is selected is of a source of `p`, and is newest among the versions of these. -/
theorem selectView_some {p : Source → Bool} {view : SourceView} (h : w.selectView p = some view) :
    ∃ s ∈ w.sources, ∃ v ∈ w.versions, p s = true ∧ v.sourceId = s.id ∧ view = .of s v ∧
      ∀ s' ∈ w.sources, p s' = true → ∀ v' ∈ w.versions, v'.sourceId = s'.id → v'.versionNumber ≤ v.versionNumber := by
  simp only [selectView, Option.map_eq_some_iff] at h
  obtain ⟨⟨s, v⟩, hhead, rfl⟩ := h
  obtain ⟨rows, hrows⟩ := List.head?_eq_some_iff.1 hhead
  have hmem := List.mem_mergeSort.1 (List.mem_of_mem_head? hhead)
  obtain ⟨hs, hp, hv, hid⟩ := mem_joined.1 hmem
  refine ⟨s, hs, v, hv, hp, hid, rfl, fun s' hs' hp' v' hv' hid' => ?_⟩
  have hmem' : (s', v') ∈ (s, v) :: rows := hrows ▸ List.mem_mergeSort.2 (mem_joined.2 ⟨hs', hp', hv', hid'⟩)
  have hsorted : ((s, v) :: rows).Pairwise fun a b => decide (b.2.versionNumber ≤ a.2.versionNumber) = true := by
    rw [← hrows]
    exact List.pairwise_mergeSort (fun a b c => by simp only [decide_eq_true_eq]; omega)
      (fun a b => by simp only [Bool.or_eq_true, decide_eq_true_eq]; omega) _
  rcases List.mem_cons.1 hmem' with heq | hmem'
  · exact le_of_eq (congrArg (·.2.versionNumber) heq)
  · simpa using List.rel_of_pairwise_cons hsorted hmem'

theorem selectView_none {p : Source → Bool} (h : w.selectView p = none) {s : Source} (hs : s ∈ w.sources) (hp : p s = true) :
    s.id ∉ w.versions.map (·.sourceId) := by
  intro hmem
  obtain ⟨v, hv, hid⟩ := List.mem_map.1 hmem
  simp only [selectView, Option.map_eq_none_iff, List.head?_eq_none_iff] at h
  have hlength := congrArg List.length h
  rw [List.length_mergeSort, List.length_nil, List.length_eq_zero_iff] at hlength
  have hrow : (s, v) ∈ w.joined p := mem_joined.2 ⟨hs, hp, hv, hid⟩
  rw [hlength] at hrow
  cases hrow

end Catalog

/-! ## Changes -/

namespace AcquisitionWorld

variable {T : Type} {w w' : AcquisitionWorld T}

/-- What the store has given the blob for. -/
def Given (w : AcquisitionWorld T) : Insertion → Prop
  | .acquired command blob _ => blob ∈ w.handed ∧ (command.requestedUrl = none → AcquisitionCall.FileKind command.originKind)
  | .unavailable _ origin .. => ∃ url, origin = "public_video:" ++ url

/-- The objects, as others know them. -/
def blobKeys (w : AcquisitionWorld T) : List (Nat × String) := w.blobObjects.map fun o => (o.id, o.contentSha256)

/-- A version was added, with the reference to the blob it is of, whose row is there. -/
structure Versioned (w w' : AcquisitionWorld T) (v : VersionIdentity) (blob : Option BlobObject) : Prop where
  new : v.id ∉ w.catalog.versionIdentities.map (·.id)
  newer : ∀ old ∈ w.catalog.versionIdentities, ¬ (old.sourceId = v.sourceId ∧ old.versionNumber = v.versionNumber)
  versions : w'.catalog.versionIdentities = w.catalog.versionIdentities ++ [v]
  references : ∀ r, r ∈ w'.catalog.blobReferences ↔
    r ∈ w.catalog.blobReferences ∨ ∃ b ∈ blob, r = ⟨b.id, "source_version", v.id⟩
  blob : match blob with
    | some b => v.originalBlobId = some b.id ∧ v.contentSha256 = b.contentSha256 ∧ b.id ∈ w.blobKeys.map (·.1)
    | none => v.originalBlobId = none
  keys : w'.blobKeys = w.blobKeys
  nextBlob : w'.nextBlob = w.nextBlob
  handed : w'.handed = w.handed

/-- No lock is taken. -/
def NoLock (w w' : AcquisitionWorld T) : Prop := ∀ t i, w'.txns t = some (.inserting i) → w.txns t = some (.inserting i)

/-- **What a call can do** to what identifies sources, versions and objects. -/
inductive Change [DecidableEq T] (sha256 : Bytes → String) (refreshes : Uuid → BlobObject → Prop) (w : AcquisitionWorld T) :
    AcquisitionWorld T → Prop
  | frame {w' : AcquisitionWorld T} : Catalog.SameIdentities w.catalog w'.catalog → w'.blobKeys = w.blobKeys → w'.nextBlob = w.nextBlob →
      w'.handed = w.handed → NoLock w w' → Change sha256 refreshes w w'
  | lock (t : T) (i : Insertion) : AcquisitionCall.LockFree w i.notebookId i.origin →
      w.catalog.selectView (Catalog.hasOrigin i.notebookId i.origin) = none → Given w i →
      Change sha256 refreshes w (w.setTxn t (some (.inserting i)))
  | handOver {w' : AcquisitionWorld T} (row : BlobObject) (data : Bytes) : w'.catalog.sourceIdentities = w.catalog.sourceIdentities →
      w'.catalog.versionIdentities = w.catalog.versionIdentities → w.catalog.blobReferences ⊆ w'.catalog.blobReferences →
      (∀ r ∈ w'.catalog.blobReferences, r.referrerKind = "source_version" → r ∈ w.catalog.blobReferences) →
      row.contentSha256 = sha256 data → w'.handed = row :: w.handed →
      ((row.id, row.contentSha256) ∈ w.blobKeys ∧ w'.blobKeys = w.blobKeys ∧ w'.nextBlob = w.nextBlob ∨
        row.id = w.nextBlob ∧ row.contentSha256 ∉ w.blobKeys.map (·.2) ∧
          w'.blobKeys = w.blobKeys ++ [(row.id, row.contentSha256)] ∧ w'.nextBlob = w.nextBlob + 1) →
      NoLock w w' → Change sha256 refreshes w w'
  | inserted {w' : AcquisitionWorld T} (t : T) (i : Insertion) (s : SourceIdentity) (v : VersionIdentity) : w.txns t = some (.inserting i) →
      s.notebookId = i.notebookId ∧ s.origin = i.origin → v.sourceId = s.id → s.id ∉ w.catalog.sourceIdentities.map (·.id) →
      w'.catalog.sourceIdentities = w.catalog.sourceIdentities ++ [s] → Versioned w w' v i.blob →
      w'.txns = Function.update w.txns t none → Change sha256 refreshes w w'
  | refreshed {w' : AcquisitionWorld T} (blob : BlobObject) (v : VersionIdentity) : refreshes v.sourceId blob →
      blob ∈ w.handed → v.sourceId ∈ w.catalog.sourceIdentities.map (·.id) →
      w'.catalog.sourceIdentities = w.catalog.sourceIdentities → Versioned w w' v (some blob) → w'.txns = w.txns → Change sha256 refreshes w w'
  | erased {w' : AcquisitionWorld T} (versionIds artifactVersionIds : List Uuid) :
      w'.catalog.sourceIdentities = w.catalog.sourceIdentities →
      w'.catalog.versionIdentities = w.catalog.versionIdentities.map (VersionIdentity.erased versionIds) →
      w'.catalog.blobReferences = w.catalog.blobReferences.filter (!BlobWorld.purgedBy versionIds artifactVersionIds ·) →
      w'.blobKeys = w.blobKeys → w'.nextBlob = w.nextBlob → w'.handed = w.handed → NoLock w w' → Change sha256 refreshes w w'
  | dropped {w' : AcquisitionWorld T} (blobIds : List Nat) :
      w'.catalog.sourceIdentities = w.catalog.sourceIdentities →
      w'.catalog.versionIdentities = w.catalog.versionIdentities.map (VersionIdentity.dropped blobIds) →
      w'.catalog.blobReferences = w.catalog.blobReferences.filter (·.blobId ∉ blobIds) →
      w'.blobKeys = w.blobKeys.filter (·.1 ∉ blobIds) → w'.nextBlob = w.nextBlob → w'.handed = w.handed → NoLock w w' →
      Change sha256 refreshes w w'

section Calls

variable [DecidableEq T] {sha256 : Bytes → String} {refreshes : Uuid → BlobObject → Prop} {t : T}

omit [DecidableEq T] in
theorem mem_insertReference {catalog : Catalog} {ref r : BlobReference} :
    r ∈ (catalog.insertReference ref).blobReferences ↔ r ∈ catalog.blobReferences ∨ r = ref := by
  unfold Catalog.insertReference
  split
  · next hmem =>
    constructor
    · exact .inl
    · rintro (h | rfl)
      · exact h
      · exact hmem
  · simp

omit [DecidableEq T] in
theorem holdsBlob_iff {id : Nat} : w.holdsBlob id = true ↔ id ∈ w.blobKeys.map (·.1) := by
  simp [holdsBlob, blobKeys]

theorem noLock_setTxn {txn : Option Txn} (h : ∀ i, txn ≠ some (.inserting i)) : NoLock w (w.setTxn t txn) := by
  intro t' i ht'
  by_cases heq : t' = t
  · subst heq
    exact absurd (by simpa [setTxn] using ht') (h i)
  · simpa [setTxn, heq] using ht'

/-- A call that changes its transaction only, and takes no lock. -/
theorem change_setTxn {txn : Option Txn} (h : ∀ i, txn ≠ some (.inserting i)) : Change sha256 refreshes w (w.setTxn t txn) :=
  .frame ⟨rfl, rfl, rfl⟩ rfl rfl rfl (noLock_setTxn h)

omit [DecidableEq T] in
theorem change_refl [DecidableEq T] : Change sha256 refreshes w w := .frame ⟨rfl, rfl, rfl⟩ rfl rfl rfl fun _ _ h => h

@[simp] theorem finalized_id {row : BlobObject} {now : Time} : (finalized row now).id = row.id := by
  unfold finalized
  split <;> rfl

@[simp] theorem finalized_contentSha256 {row : BlobObject} {now : Time} : (finalized row now).contentSha256 = row.contentSha256 := by
  unfold finalized
  split <;> rfl

omit [DecidableEq T] in
/-- The reference a put adds is of no source version. -/
theorem handOver_references {row : BlobObject} {referrer : Option BlobReferrer} :
    w.catalog.blobReferences ⊆ (w.handOver row referrer).catalog.blobReferences ∧
      ∀ r ∈ (w.handOver row referrer).catalog.blobReferences, r.referrerKind = "source_version" → r ∈ w.catalog.blobReferences := by
  cases referrer with
  | none => exact ⟨fun _ h => h, fun _ h _ => h⟩
  | some referrer =>
    refine ⟨fun r hr => mem_insertReference.2 (.inl hr), fun r hr hkind => ?_⟩
    rcases mem_insertReference.1 hr with hr | rfl
    · exact hr
    · exact absurd hkind referrer.other

omit [DecidableEq T] in
theorem handOver_identities {row : BlobObject} {referrer : Option BlobReferrer} :
    (w.handOver row referrer).catalog.sourceIdentities = w.catalog.sourceIdentities ∧
      (w.handOver row referrer).catalog.versionIdentities = w.catalog.versionIdentities := by
  cases referrer with
  | none => exact ⟨rfl, rfl⟩
  | some referrer =>
    obtain ⟨hsources, hversions⟩ := Catalog.insertReference_rows (w := w.catalog) ⟨row.id, referrer.kind, referrer.id⟩
    exact ⟨congrArg (·.map Source.identity) hsources, congrArg (·.map CatalogVersion.identity) hversions⟩

/-- A row is handed over: one that was there, or a new one. -/
theorem handOver_change {w₁ : AcquisitionWorld T} {row : BlobObject} {referrer : Option BlobReferrer} (data : Bytes)
    (hcatalog : w₁.catalog = w.catalog) (hhanded : w₁.handed = w.handed) (hdigest : row.contentSha256 = sha256 data)
    (hkeys : (row.id, row.contentSha256) ∈ w.blobKeys ∧ w₁.blobKeys = w.blobKeys ∧ w₁.nextBlob = w.nextBlob ∨
      row.id = w.nextBlob ∧ row.contentSha256 ∉ w.blobKeys.map (·.2) ∧
        w₁.blobKeys = w.blobKeys ++ [(row.id, row.contentSha256)] ∧ w₁.nextBlob = w.nextBlob + 1)
    (hlock : NoLock w w₁) : Change sha256 refreshes w (w₁.handOver row referrer) := by
  obtain ⟨hsources, hversions⟩ := @handOver_identities T w₁ row referrer
  obtain ⟨hmore, hsame⟩ := @handOver_references T w₁ row referrer
  rw [hcatalog] at hsources hversions hmore hsame
  exact .handOver row data hsources hversions hmore hsame hdigest (congrArg (row :: ·) hhanded) hkeys hlock

theorem put_change {data : Bytes} {contentType : Option String} {referrer : Option BlobReferrer} {now : Time} :
    Change sha256 refreshes w (w.put sha256 t data contentType referrer now).2 := by
  unfold put
  split
  · exact change_setTxn (by simp)
  · next row hrow =>
    split
    · refine handOver_change data rfl rfl ?_ (.inl ⟨?_, ?_, rfl⟩) fun _ _ h => h
      · simpa using List.find?_some hrow
      · rw [finalized_id, finalized_contentSha256]
        exact List.mem_map_of_mem (List.mem_of_find?_eq_some hrow)
      · exact Catalog.map_update (by intros; simp) _
    · exact change_refl

theorem insertBlob_change {now : Time} : Change sha256 refreshes w (w.insertBlob sha256 t now).2 := by
  unfold insertBlob
  split
  · dsimp only
    split
    · exact change_setTxn (by simp)
    · next hnew =>
      refine handOver_change _ rfl rfl rfl (.inr ⟨rfl, ?_, ?_, rfl⟩) (noLock_setTxn (by simp))
      · simpa [blobKeys, newBlob] using hnew
      · simp [blobKeys, newBlob]
  · exact change_refl

/-- A select that finds nothing takes the lock. -/
theorem select_change {i : Insertion} (hfree : AcquisitionCall.LockFree w i.notebookId i.origin) (hgiven : Given w i) :
    Change sha256 refreshes w (w.select t i).2 := by
  unfold select
  split
  · exact change_refl
  · next hnone => exact .lock t i hfree hnone hgiven

omit [DecidableEq T] in
/-- A version and its reference, added to the catalog. -/
theorem versioned_acquired {catalog catalog' : Catalog} {versionId sourceId : Uuid} {number : Nat} {blob : BlobObject}
    (h : catalog.insertVersion (Catalog.activating versionId sourceId number blob) = .ok catalog')
    (hcatalog : catalog.versions = w.catalog.versions) (hreferences : catalog.blobReferences = w.catalog.blobReferences)
    (hblob : w.holdsBlob blob.id = true) {txns : T → Option Txn} :
    Versioned w { w with catalog := catalog'.insertReference ⟨blob.id, "source_version", versionId⟩, txns }
      (Catalog.activating versionId sourceId number blob).identity (some blob) := by
  obtain ⟨hnew, hnumber, rfl⟩ := Catalog.insertVersion_new h
  obtain ⟨-, hversions⟩ := Catalog.insertReference_rows (w := { catalog with
    versions := catalog.versions ++ [Catalog.activating versionId sourceId number blob] }) ⟨blob.id, "source_version", versionId⟩
  refine ⟨?_, ?_, ?_, fun r => ?_, ⟨rfl, rfl, holdsBlob_iff.1 hblob⟩, rfl, rfl, rfl⟩
  · simpa [Catalog.versionIdentities, hcatalog, CatalogVersion.identity] using hnew
  · simpa [Catalog.versionIdentities, hcatalog, CatalogVersion.identity] using hnumber
  · show List.map CatalogVersion.identity (Catalog.insertReference _ _).versions = _
    rw [hversions]
    simp [Catalog.versionIdentities, hcatalog]
  · rw [mem_insertReference, hreferences]
    simp [CatalogVersion.identity, Catalog.activating]

theorem refresh_change {command : AcquireSourceCommand} {sourceId versionId : Uuid} {blob : BlobObject}
    (hblob : blob ∈ w.handed) (hrefreshes : refreshes sourceId blob) :
    Change sha256 refreshes w (w.refresh command sourceId blob versionId).2 := by
  unfold refresh
  split
  · exact change_refl
  · next catalog hok =>
    split
    · next hholds =>
      split
      · simp only [Catalog.acquireRefresh] at hok
        split at hok
        · cases hok
        next hsource =>
        split at hok
        · cases hok
        obtain ⟨w₁, hversion, hok⟩ := Except.bind_ok_iff.1 hok
        cases hok
        obtain rfl := Catalog.insertVersion_ok hversion
        obtain ⟨hsources, -⟩ := Catalog.insertReference_rows (w := { w.catalog with versions := w.catalog.versions ++ [_] })
          ⟨blob.id, "source_version", versionId⟩
        refine .refreshed blob _ hrefreshes hblob ?_ (congrArg (·.map Source.identity) hsources)
          (versioned_acquired hversion rfl rfl hholds) rfl
        simp only [Bool.not_eq_true', Bool.not_eq_false, List.any_eq_true, Bool.and_eq_true, decide_eq_true_eq] at hsource
        obtain ⟨s, hs, hguard⟩ := hsource
        have hid := Catalog.visible_id hguard.1.1.1
        simp only [Catalog.sourceIdentities, List.map_map, List.mem_map]
        exact ⟨s, hs, hid⟩
      · exact change_refl
    · exact change_refl

theorem insert_change {sourceId versionId : Uuid} : Change sha256 refreshes w (w.insert t sourceId versionId).2 := by
  unfold insert
  split
  · next i ht =>
    dsimp only
    split
    · exact change_setTxn (by simp)
    · next catalog hok =>
      split
      · next hholds =>
        split
        · cases i with
          | acquired command blob type =>
            obtain ⟨w₁, hsource, hok⟩ := Except.bind_ok_iff.1 hok
            obtain ⟨w₂, hversion, hok⟩ := Except.bind_ok_iff.1 hok
            cases hok
            obtain ⟨hnew, rfl⟩ := Catalog.insertSource_ok hsource
            have hversions := Catalog.insertVersion_ok hversion
            obtain ⟨hsources, -⟩ := Catalog.insertReference_rows (w := w₂) ⟨blob.id, "source_version", versionId⟩
            refine .inserted t _ ⟨sourceId, command.notebookId, command.origin blob⟩ _ ht ⟨rfl, rfl⟩ rfl ?_ ?_
              (versioned_acquired hversion rfl rfl (by simpa [Insertion.blob] using hholds)) rfl
            · simpa [Catalog.sourceIdentities, Source.identity] using hnew
            · show List.map Source.identity (Catalog.insertReference _ _).sources = _
              rw [hsources, hversions]
              simp [Catalog.sourceIdentities, Source.identity]
          | unavailable command origin type reason digest =>
            obtain ⟨w₁, hsource, hversion⟩ := Except.bind_ok_iff.1 hok
            obtain ⟨hnew, rfl⟩ := Catalog.insertSource_ok hsource
            obtain ⟨hid, hnumber, rfl⟩ := Catalog.insertVersion_new hversion
            refine .inserted t _ ⟨sourceId, command.notebookId, origin⟩
              ⟨versionId, sourceId, 1, none, digest⟩ ht ⟨rfl, rfl⟩ rfl ?_ ?_ ⟨?_, ?_, ?_, ?_, rfl, rfl, rfl, rfl⟩ rfl
            · simpa [Catalog.sourceIdentities, Source.identity] using hnew
            · simp [Catalog.sourceIdentities, Source.identity]
            · simpa [Catalog.versionIdentities, CatalogVersion.identity] using hid
            · simpa [Catalog.versionIdentities, CatalogVersion.identity] using hnumber
            · simp [Catalog.versionIdentities, CatalogVersion.identity]
            · simp [Insertion.blob]
        · exact change_setTxn (by simp)
      · exact change_setTxn (by simp)
  · exact change_refl

theorem eraseDerivatives_change {artifactVersionIds : List Uuid} :
    Change sha256 refreshes w (w.eraseDerivatives t artifactVersionIds).2 := by
  unfold eraseDerivatives
  split
  · next versionIds ht =>
    refine .erased versionIds artifactVersionIds rfl ?_ rfl (Catalog.map_update (by intros; rfl) _) rfl rfl (noLock_setTxn (by simp))
    simp only [Catalog.versionIdentities, update, List.map_map]
    refine List.map_congr_left fun v _ => ?_
    by_cases hid : v.id ∈ versionIds <;> simp [hid, CatalogVersion.identity, VersionIdentity.erased]
  · exact change_refl

theorem eraseObjects_change : Change sha256 refreshes w (w.eraseObjects t).2 := by
  unfold eraseObjects
  split
  · next blobIds ht =>
    refine .dropped blobIds rfl ?_ rfl ?_ rfl rfl (noLock_setTxn (by simp))
    · simp only [Catalog.versionIdentities, update, List.map_map]
      refine List.map_congr_left fun v _ => ?_
      by_cases hid : v.originalBlobId.any (· ∈ blobIds) = true <;>
        simp [hid, CatalogVersion.identity, VersionIdentity.dropped]
    · simp [blobKeys, List.filter_map, Function.comp_def]
  · exact change_refl

/-- The call refreshes the source with the blob. -/
def Refreshes (c : AcquisitionCall T) (sourceId : Uuid) (blob : BlobObject) : Prop :=
  ∃ t command versionId, c = .acquire t command blob versionId ∧ command.refreshSourceId = some sourceId

/-- **Every call that may be made is one of the changes.** -/
theorem exec_change (sha256 : Bytes → String) (rt : Runtime) {c : AcquisitionCall T} (hen : c.Enabled w) :
    Change sha256 (Refreshes c) w (c.exec sha256 rt w).2 := by
  cases c with
  | put t data contentType referrer now => exact put_change
  | insertBlob t now => exact insertBlob_change
  | acquire t command blob versionId =>
    obtain ⟨-, hblob, hkind, hfree⟩ := hen
    simp only [AcquisitionCall.exec, acquire]
    split
    · next sourceId hrefresh => exact refresh_change hblob ⟨t, command, versionId, rfl, hrefresh⟩
    · exact change_refl
    · next type hrefresh htype => exact select_change (hfree hrefresh) ⟨hblob, hkind⟩
  | acquireUnavailable t command url reason => exact select_change hen.2 ⟨url, rfl⟩
  | insert t sourceId versionId => exact insert_change
  | abort t => exact change_setTxn (by simp)
  | erase t sourceId => exact change_setTxn (by simp)
  | eraseDerivatives t artifactVersionIds => exact eraseDerivatives_change
  | eraseObjects t => exact eraseObjects_change
  | other call =>
    simp only [AcquisitionCall.exec]
    split
    · exact change_refl
    · next catalog hok => exact .frame (Catalog.sameIdentities_exec hen hok) rfl rfl rfl fun _ _ h => h

end Calls

end AcquisitionWorld

end MilpbookLM
