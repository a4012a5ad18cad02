/-
What identifies a source, over runs of acquisitions, refreshes, removals and purges.

The advisory lock keeps the notebooks to one source of an origin (`Distinct`). The origin of
a file or a text names the digest of its bytes, and it outlives them: what a later acquisition
of the same bytes finds may be removed, erased, refreshed with other bytes, or without a blob.
`acquire_returns_bytes` says when it returns the bytes it was given.
-/
import MilpbookLM.Sources.AcquisitionSteps
import Mathlib.Data.List.Pairwise

namespace MilpbookLM

open Table Interleave

/-! ## One source of an origin -/

/-- A notebook and an origin: what the advisory lock is of. -/
def SourceIdentity.Same (s s' : SourceIdentity) : Prop := s.notebookId = s'.notebookId ∧ s.origin = s'.origin

namespace AcquisitionWorld

variable {T : Type} (w : AcquisitionWorld T)

/-- The source an open acquisition is to insert is of no origin that is there, and of no other's. -/
structure Distinct : Prop where
  keyed : (w.catalog.sourceIdentities.map (·.id)).Nodup
  origins : w.catalog.sourceIdentities.Pairwise fun s s' => ¬ s.Same s'
  owned : ∀ v ∈ w.catalog.versionIdentities, v.sourceId ∈ w.catalog.sourceIdentities.map (·.id)
  begun : ∀ s ∈ w.catalog.sourceIdentities, s.id ∈ w.catalog.versionIdentities.map (·.sourceId)
  locked : ∀ t i, w.txns t = some (.inserting i) →
    ∀ s ∈ w.catalog.sourceIdentities, ¬ (s.notebookId = i.notebookId ∧ s.origin = i.origin)
  alone : ∀ t t' i i', w.txns t = some (.inserting i) → w.txns t' = some (.inserting i') →
    i.notebookId = i'.notebookId → i.origin = i'.origin → t = t'

variable {w} {w' : AcquisitionWorld T}

/-- What inserts no source and takes no lock. -/
theorem Distinct.frame (h : w.Distinct) (hsources : w'.catalog.sourceIdentities = w.catalog.sourceIdentities)
    (hversions : ∀ id, id ∈ w'.catalog.versionIdentities.map (·.sourceId) ↔ id ∈ w.catalog.versionIdentities.map (·.sourceId))
    (htxns : NoLock w w') : w'.Distinct where
  keyed := hsources ▸ h.keyed
  origins := hsources ▸ h.origins
  owned v hv := by
    obtain ⟨v', hv', hid⟩ := List.mem_map.1 ((hversions v.sourceId).1 (List.mem_map_of_mem hv))
    exact hsources ▸ hid ▸ h.owned v' hv'
  begun s hs := (hversions s.id).2 (h.begun s (hsources ▸ hs))
  locked t i ht s hs := h.locked t i (htxns t i ht) s (hsources ▸ hs)
  alone t t' i i' ht ht' := h.alone t t' i i' (htxns t i ht) (htxns t' i' ht')

/-- A select that found nothing, where the lock was free. -/
theorem Distinct.lock [DecidableEq T] (h : w.Distinct) {t : T} {i : Insertion}
    (hfree : AcquisitionCall.LockFree w i.notebookId i.origin)
    (hnone : w.catalog.selectView (Catalog.hasOrigin i.notebookId i.origin) = none) :
    (w.setTxn t (some (.inserting i))).Distinct where
  keyed := h.keyed
  origins := h.origins
  owned := h.owned
  begun := h.begun
  locked t' i' ht' s hs hsame := by
    by_cases heq : t' = t
    · subst heq
      obtain rfl : i = i' := by simpa [setTxn] using ht'
      obtain ⟨source, hsource, rfl⟩ := List.mem_map.1 hs
      refine Catalog.selectView_none hnone hsource (by simpa [Catalog.hasOrigin, Source.identity] using hsame) ?_
      simpa [Catalog.versionIdentities, CatalogVersion.identity, Source.identity, Function.comp_def] using
        h.begun source.identity (List.mem_map_of_mem hsource)
    · exact h.locked t' i' (by simpa [setTxn, heq] using ht') s hs hsame
  alone t₁ t₂ i₁ i₂ h₁ h₂ hnotebook horigin := by
    by_cases heq₁ : t₁ = t <;> by_cases heq₂ : t₂ = t
    · exact heq₁.trans heq₂.symm
    · subst heq₁
      obtain rfl : i = i₁ := by simpa [setTxn] using h₁
      exact absurd ⟨hnotebook.symm, horigin.symm⟩ (hfree t₂ i₂ (by simpa [setTxn, heq₂] using h₂))
    · subst heq₂
      obtain rfl : i = i₂ := by simpa [setTxn] using h₂
      exact absurd ⟨hnotebook, horigin⟩ (hfree t₁ i₁ (by simpa [setTxn, heq₁] using h₁))
    · exact h.alone t₁ t₂ i₁ i₂ (by simpa [setTxn, heq₁] using h₁) (by simpa [setTxn, heq₂] using h₂) hnotebook horigin

/-- The inserts of who holds the lock. -/
theorem Distinct.insert [DecidableEq T] (h : w.Distinct) {t : T} {i : Insertion} {s : SourceIdentity} {v : VersionIdentity}
    (ht : w.txns t = some (.inserting i)) (hs : s.notebookId = i.notebookId ∧ s.origin = i.origin) (hv : v.sourceId = s.id)
    (hnew : s.id ∉ w.catalog.sourceIdentities.map (·.id))
    (hsources : w'.catalog.sourceIdentities = w.catalog.sourceIdentities ++ [s])
    (hversions : w'.catalog.versionIdentities = w.catalog.versionIdentities ++ [v])
    (htxns : w'.txns = Function.update w.txns t none) : w'.Distinct where
  keyed := by
    rw [hsources, List.map_append, List.nodup_append]
    refine ⟨h.keyed, List.nodup_singleton _, fun a ha b hb heq => hnew ?_⟩
    obtain rfl := List.mem_singleton.1 hb
    obtain rfl : a = s.id := heq
    exact ha
  origins := by
    rw [hsources, List.pairwise_append]
    refine ⟨h.origins, List.pairwise_singleton _ _, fun s' hs' s'' hs'' hsame => ?_⟩
    obtain rfl := List.mem_singleton.1 hs''
    exact h.locked t i ht s' hs' ⟨hsame.1.trans hs.1, hsame.2.trans hs.2⟩
  owned v' hv' := by
    rw [hversions] at hv'
    rw [hsources, List.map_append, List.mem_append]
    rcases List.mem_append.1 hv' with hv' | hv'
    · exact .inl (h.owned v' hv')
    · obtain rfl := List.mem_singleton.1 hv'
      exact .inr (by simp [hv])
  begun s' hs' := by
    rw [hsources] at hs'
    rw [hversions, List.map_append, List.mem_append]
    rcases List.mem_append.1 hs' with hs' | hs'
    · exact .inl (h.begun s' hs')
    · obtain rfl := List.mem_singleton.1 hs'
      exact .inr (by simp [hv])
  locked t' i' ht' s' hs' hsame := by
    rw [htxns, Function.update_apply] at ht'
    split at ht'
    · cases ht'
    · next hne =>
      rcases List.mem_append.1 (hsources ▸ hs') with hs' | hs'
      · exact h.locked t' i' ht' s' hs' hsame
      · obtain rfl := List.mem_singleton.1 hs'
        exact hne (h.alone t' t i' i ht' ht (hsame.1.symm.trans hs.1) (hsame.2.symm.trans hs.2))
  alone t₁ t₂ i₁ i₂ h₁ h₂ hnotebook horigin := by
    rw [htxns, Function.update_apply] at h₁ h₂
    split at h₁
    · cases h₁
    split at h₂
    · cases h₂
    exact h.alone t₁ t₂ i₁ i₂ h₁ h₂ hnotebook horigin

/-- A version of a source that is there. -/
theorem Distinct.refresh (h : w.Distinct) {v : VersionIdentity} (hsource : v.sourceId ∈ w.catalog.sourceIdentities.map (·.id))
    (hsources : w'.catalog.sourceIdentities = w.catalog.sourceIdentities)
    (hversions : w'.catalog.versionIdentities = w.catalog.versionIdentities ++ [v])
    (htxns : NoLock w w') : w'.Distinct where
  keyed := hsources ▸ h.keyed
  origins := hsources ▸ h.origins
  owned v' hv' := by
    rw [hsources]
    rcases List.mem_append.1 (hversions ▸ hv') with hv' | hv'
    · exact h.owned v' hv'
    · obtain rfl := List.mem_singleton.1 hv'
      exact hsource
  begun s hs := by
    rw [hversions, List.map_append]
    exact List.mem_append_left _ (h.begun s (hsources ▸ hs))
  locked t i ht s hs := h.locked t i (htxns t i ht) s (hsources ▸ hs)
  alone t t' i i' ht ht' := h.alone t t' i i' (htxns t i ht) (htxns t' i' ht')

/-- **Every change keeps the notebooks to one source of an origin.** -/
theorem Distinct.change [DecidableEq T] {sha256 : Bytes → String} {refreshes : Uuid → BlobObject → Prop} (h : w.Distinct)
    (hc : Change sha256 refreshes w w') : w'.Distinct := by
  cases hc with
  | frame hsame _ _ _ hlock => exact h.frame hsame.1 (fun id => by rw [hsame.2.1]) hlock
  | lock t i hfree hnone hgiven => exact h.lock hfree hnone
  | handOver row data hsources hversions _ _ _ _ _ hlock => exact h.frame hsources (fun id => by rw [hversions]) hlock
  | inserted t i s v ht hs hv hnew hsources hversioned htxns => exact h.insert ht hs hv hnew hsources hversioned.versions htxns
  | refreshed blob v _ _ hsource hsources hversioned htxns =>
    refine h.refresh hsource hsources hversioned.versions fun t i ht => ?_
    rw [← htxns]
    exact ht
  | erased versionIds _ hsources hversions _ _ _ _ hlock =>
    refine h.frame hsources (fun id => ?_) hlock
    simp only [hversions, List.map_map, Function.comp_def, VersionIdentity.erased_sourceId]
  | dropped blobIds hsources hversions _ _ _ _ hlock =>
    refine h.frame hsources (fun id => ?_) hlock
    simp only [hversions, List.map_map, Function.comp_def, VersionIdentity.dropped_sourceId]

/-! ## Objects, and the versions whose bytes are in them -/

/-- An id and a digest are given to one object; the store returns no other. -/
structure Stored (sha256 : Bytes → String) (w : AcquisitionWorld T) : Prop where
  keyed : (w.blobKeys.map (·.1)).Nodup
  digests : (w.blobKeys.map (·.2)).Nodup
  issued : ∀ k ∈ w.blobKeys, k.1 < w.nextBlob
  handed : ∀ b ∈ w.handed, b.id < w.nextBlob ∧ (∃ data, b.contentSha256 = sha256 data) ∧
    ∀ k ∈ w.blobKeys, k.1 = b.id → k.2 = b.contentSha256

theorem Stored.same {sha256 : Bytes → String} (h : w.Stored sha256) (hkeys : w'.blobKeys = w.blobKeys)
    (hnext : w'.nextBlob = w.nextBlob) (hhanded : w'.handed = w.handed) : w'.Stored sha256 := by
  constructor
  · rw [hkeys]
    exact h.keyed
  · rw [hkeys]
    exact h.digests
  · rw [hkeys, hnext]
    exact h.issued
  · rw [hkeys, hnext, hhanded]
    exact h.handed

theorem Stored.change [DecidableEq T] {sha256 : Bytes → String} {refreshes : Uuid → BlobObject → Prop} (h : w.Stored sha256)
    (hc : Change sha256 refreshes w w') : w'.Stored sha256 := by
  cases hc with
  | frame _ hkeys hnext hhanded _ => exact h.same hkeys hnext hhanded
  | lock t i => exact h.same rfl rfl rfl
  | handOver row data _ _ _ _ hdigest hhanded hkeys _ =>
    rcases hkeys with ⟨hmem, hkeys, hnext⟩ | ⟨hid, hnew, hkeys, hnext⟩
    · refine ⟨hkeys ▸ h.keyed, hkeys ▸ h.digests, by rw [hkeys, hnext]; exact h.issued, fun b hb => ?_⟩
      rw [hkeys, hnext]
      rcases List.mem_cons.1 (hhanded ▸ hb) with rfl | hb
      · refine ⟨h.issued _ hmem, ⟨data, hdigest⟩, fun k hk hid => ?_⟩
        exact congrArg Prod.snd (List.inj_on_of_nodup_map h.keyed hk hmem hid)
      · exact h.handed b hb
    · have hfresh : ∀ k ∈ w.blobKeys, k.1 ≠ row.id := fun k hk heq => absurd (h.issued k hk) (by omega)
      constructor
      · rw [hkeys, List.map_append, List.nodup_append]
        refine ⟨h.keyed, List.nodup_singleton _, fun a ha b hb heq => ?_⟩
        obtain ⟨k, hk, rfl⟩ := List.mem_map.1 ha
        exact hfresh k hk (heq.trans (List.mem_singleton.1 hb))
      · rw [hkeys, List.map_append, List.nodup_append]
        refine ⟨h.digests, List.nodup_singleton _, fun a ha b hb heq => hnew ?_⟩
        obtain rfl := List.mem_singleton.1 hb
        obtain rfl : a = row.contentSha256 := heq
        exact ha
      · rw [hkeys, hnext]
        intro k hk
        rcases List.mem_append.1 hk with hk | hk
        · exact Nat.lt_succ_of_lt (h.issued k hk)
        · obtain rfl := List.mem_singleton.1 hk
          exact Nat.lt_succ_of_le (Nat.le_of_eq hid)
      · rw [hkeys, hnext, hhanded]
        intro b hb
        rcases List.mem_cons.1 hb with rfl | hb
        · refine ⟨by omega, ⟨data, hdigest⟩, fun k hk heq => ?_⟩
          rcases List.mem_append.1 hk with hk | hk
          · exact absurd heq (hfresh k hk)
          · obtain rfl := List.mem_singleton.1 hk
            rfl
        · obtain ⟨hlt, hhex, hrow⟩ := h.handed b hb
          refine ⟨Nat.lt_succ_of_lt hlt, hhex, fun k hk heq => ?_⟩
          rcases List.mem_append.1 hk with hk | hk
          · exact hrow k hk heq
          · obtain rfl := List.mem_singleton.1 hk
            exact absurd hlt (by omega)
  | inserted t i s v _ _ _ _ _ hversioned _ => exact h.same hversioned.keys hversioned.nextBlob hversioned.handed
  | refreshed blob v _ _ _ _ hversioned _ => exact h.same hversioned.keys hversioned.nextBlob hversioned.handed
  | erased _ _ _ _ _ hkeys hnext hhanded _ => exact h.same hkeys hnext hhanded
  | dropped blobIds _ _ _ hkeys hnext hhanded _ =>
    have hsub : w'.blobKeys.Sublist w.blobKeys := hkeys ▸ List.filter_sublist
    constructor
    · exact h.keyed.sublist (hsub.map _)
    · exact h.digests.sublist (hsub.map _)
    · rw [hnext]
      exact fun k hk => h.issued k (hsub.subset hk)
    · rw [hnext, hhanded]
      exact fun b hb => ⟨(h.handed b hb).1, (h.handed b hb).2.1, fun k hk => (h.handed b hb).2.2 k (hsub.subset hk)⟩

/-- The blob of a version is there with the version's digest, and so is the reference, and there are no others. -/
structure Referred (w : AcquisitionWorld T) : Prop where
  keyed : (w.catalog.versionIdentities.map (·.id)).Nodup
  numbers : w.catalog.versionIdentities.Pairwise fun v v' => ¬ (v.sourceId = v'.sourceId ∧ v.versionNumber = v'.versionNumber)
  blob : ∀ v ∈ w.catalog.versionIdentities, ∀ b, v.originalBlobId = some b →
    ⟨b, "source_version", v.id⟩ ∈ w.catalog.blobReferences ∧ (b, v.contentSha256) ∈ w.blobKeys
  version : ∀ r ∈ w.catalog.blobReferences, r.referrerKind = "source_version" →
    ∃ v ∈ w.catalog.versionIdentities, v.id = r.referrerId ∧ v.originalBlobId = some r.blobId
  given : ∀ t i, w.txns t = some (.inserting i) → Given w i

theorem Given.mono {i : Insertion} (h : Given w i) (hhanded : w.handed ⊆ w'.handed) : Given w' i := by
  cases i with
  | acquired command blob type => exact ⟨hhanded h.1, h.2⟩
  | unavailable => exact h

/-- A version whose blob the store returned, if it has one. -/
theorem Referred.versioned {sha256 : Bytes → String} (h : w.Referred) (hstored : w.Stored sha256) {v : VersionIdentity}
    {blob : Option BlobObject} (hblob : ∀ b ∈ blob, b ∈ w.handed) (hv : Versioned w w' v blob)
    (hlock : NoLock w w') : w'.Referred where
  keyed := by
    rw [hv.versions, List.map_append, List.nodup_append]
    refine ⟨h.keyed, List.nodup_singleton _, fun a ha b hb heq => hv.new ?_⟩
    obtain rfl := List.mem_singleton.1 hb
    obtain rfl : a = v.id := heq
    exact ha
  numbers := by
    rw [hv.versions, List.pairwise_append]
    refine ⟨h.numbers, List.pairwise_singleton _ _, fun v' hv' v'' hv'' => ?_⟩
    obtain rfl := List.mem_singleton.1 hv''
    exact hv.newer v' hv'
  blob v' hv' b hb := by
    rw [hv.references, hv.keys]
    rcases List.mem_append.1 (hv.versions ▸ hv') with hv' | hv'
    · exact ⟨.inl (h.blob v' hv' b hb).1, (h.blob v' hv' b hb).2⟩
    · obtain rfl := List.mem_singleton.1 hv'
      cases blob with
      | none =>
        have hnone : v'.originalBlobId = none := hv.blob
        rw [hnone] at hb
        cases hb
      | some blob =>
        obtain ⟨hsome, hdigest, hkey⟩ := hv.blob
        rw [hsome] at hb
        cases hb
        obtain ⟨k, hk, hid⟩ := List.mem_map.1 hkey
        have hrow := (hstored.handed blob (hblob blob rfl)).2.2 k hk hid
        refine ⟨.inr ⟨blob, rfl, rfl⟩, ?_⟩
        rw [hdigest, ← hrow, ← hid]
        exact hk
  version r hr hkind := by
    rw [hv.versions]
    rcases (hv.references r).1 hr with hr | ⟨b, hb, rfl⟩
    · obtain ⟨v', hv', hid, hblob⟩ := h.version r hr hkind
      exact ⟨v', List.mem_append_left _ hv', hid, hblob⟩
    · refine ⟨v, List.mem_append_right _ List.mem_cons_self, rfl, ?_⟩
      cases blob with
      | none => cases hb
      | some blob =>
        cases hb
        exact hv.blob.1
  given t i ht := (h.given t i (hlock t i ht)).mono (by rw [hv.handed]; exact fun _ h => h)

theorem Referred.change [DecidableEq T] {sha256 : Bytes → String} {refreshes : Uuid → BlobObject → Prop} (h : w.Referred)
    (hstored : w.Stored sha256) (hc : Change sha256 refreshes w w') : w'.Referred := by
  cases hc with
  | frame hsame hkeys _ hhanded hlock =>
    obtain ⟨-, hversions, hreferences⟩ := hsame
    refine ⟨hversions ▸ h.keyed, hversions ▸ h.numbers, ?_, ?_, fun t i ht => (h.given t i (hlock t i ht)).mono (by rw [hhanded]; exact fun _ h => h)⟩
    · rw [hversions, hreferences, hkeys]
      exact h.blob
    · rw [hversions, hreferences]
      exact h.version
  | lock t i _ _ hgiven =>
    refine ⟨h.keyed, h.numbers, h.blob, h.version, fun t' i' ht' => ?_⟩
    by_cases heq : t' = t
    · subst heq
      obtain rfl : i = i' := by simpa [setTxn] using ht'
      exact hgiven.mono fun _ h => h
    · exact (h.given t' i' (by simpa [setTxn, heq] using ht')).mono fun _ h => h
  | handOver row data _ hversions hmore hless _ hhanded hkeys hlock =>
    have hsub : w.blobKeys ⊆ w'.blobKeys := by
      rcases hkeys with ⟨-, hkeys, -⟩ | ⟨-, -, hkeys, -⟩
      · rw [hkeys]
        exact fun _ h => h
      · rw [hkeys]
        exact List.subset_append_left _ _
    refine ⟨hversions ▸ h.keyed, hversions ▸ h.numbers, fun v hv b hb => ?_, fun r hr hkind => ?_, fun t i ht => ?_⟩
    · obtain ⟨hreference, hkey⟩ := h.blob v (hversions ▸ hv) b hb
      exact ⟨hmore hreference, hsub hkey⟩
    · rw [hversions]
      exact h.version r (hless r hr hkind) hkind
    · exact (h.given t i (hlock t i ht)).mono (by rw [hhanded]; exact List.subset_cons_self _ _)
  | inserted t i s v ht _ _ _ _ hversioned htxns =>
    refine h.versioned hstored (fun b hb => ?_) hversioned fun t' i' ht' => ?_
    · cases i with
      | acquired command blob type =>
        cases hb
        exact (h.given t _ ht).1
      | unavailable => cases hb
    · rw [htxns, Function.update_apply] at ht'
      split at ht'
      · cases ht'
      · exact ht'
  | refreshed blob v _ hblob _ _ hversioned htxns =>
    refine h.versioned hstored (fun b hb => ?_) hversioned fun t i ht => htxns ▸ ht
    cases hb
    exact hblob
  | erased versionIds artifactVersionIds _ hversions hreferences hkeys _ hhanded hlock =>
    refine ⟨?_, ?_, fun v hv b hb => ?_, fun r hr hkind => ?_, fun t i ht =>
      (h.given t i (hlock t i ht)).mono (by rw [hhanded]; exact fun _ h => h)⟩
    · simp only [hversions, List.map_map, Function.comp_def, VersionIdentity.erased_id]
      exact h.keyed
    · rw [hversions, List.pairwise_map]
      simp only [VersionIdentity.erased_sourceId, VersionIdentity.erased_versionNumber]
      exact h.numbers
    · rw [hversions] at hv
      obtain ⟨old, hold, rfl⟩ := List.mem_map.1 hv
      obtain ⟨hout, heq⟩ := VersionIdentity.erased_some hb
      rw [heq] at hb ⊢
      obtain ⟨hreference, hkey⟩ := h.blob old hold b hb
      rw [hreferences, hkeys, List.mem_filter]
      exact ⟨⟨hreference, by simp [BlobWorld.purgedBy, hout]⟩, hkey⟩
    · rw [hreferences, List.mem_filter] at hr
      obtain ⟨v, hv, hid, hblob⟩ := h.version r hr.1 hkind
      have hout : v.id ∉ versionIds := by
        have hnot := hr.2
        simp only [BlobWorld.purgedBy, hkind, Bool.not_eq_true', Bool.or_eq_false_iff] at hnot
        rw [hid]
        simpa using hnot.1
      rw [hversions]
      exact ⟨v, List.mem_map.2 ⟨v, hv, if_neg hout⟩, hid, hblob⟩
  | dropped blobIds _ hversions hreferences hkeys _ hhanded hlock =>
    refine ⟨?_, ?_, fun v hv b hb => ?_, fun r hr hkind => ?_, fun t i ht =>
      (h.given t i (hlock t i ht)).mono (by rw [hhanded]; exact fun _ h => h)⟩
    · simp only [hversions, List.map_map, Function.comp_def, VersionIdentity.dropped_id]
      exact h.keyed
    · rw [hversions, List.pairwise_map]
      simp only [VersionIdentity.dropped_sourceId, VersionIdentity.dropped_versionNumber]
      exact h.numbers
    · rw [hversions] at hv
      obtain ⟨old, hold, rfl⟩ := List.mem_map.1 hv
      obtain ⟨hout, heq⟩ := VersionIdentity.dropped_some hb
      rw [heq] at hb ⊢
      obtain ⟨hreference, hkey⟩ := h.blob old hold b hb
      rw [hreferences, hkeys, List.mem_filter, List.mem_filter]
      exact ⟨⟨hreference, by simpa using hout⟩, hkey, by simpa using hout⟩
    · rw [hreferences, List.mem_filter] at hr
      obtain ⟨v, hv, hid, hblob⟩ := h.version r hr.1 hkind
      rw [hversions]
      refine ⟨v, List.mem_map.2 ⟨v, hv, ?_⟩, hid, hblob⟩
      unfold VersionIdentity.dropped
      rw [if_neg]
      simpa [hblob] using hr.2

end AcquisitionWorld

/-! ## Origins that name bytes -/

/-- The origin of a file or a text of these bytes. -/
def Names (origin digest : String) : Prop :=
  ∃ kind, AcquisitionCall.FileKind kind ∧ origin = kind ++ ":" ++ importerVersion ++ ":sha256:" ++ digest

theorem names_unique {origin digest digest' : String} (h : Names origin digest) (h' : Names origin digest')
    (hd : ':' ∉ digest.toList) (hd' : ':' ∉ digest'.toList) : digest = digest' := by
  obtain ⟨kind, -, rfl⟩ := h
  obtain ⟨kind', -, h'⟩ := h'
  have heq := congrArg String.toList h'
  simp only [String.toList_append] at heq
  have hcolon : (":sha256:" : String).toList = ":sha256".toList ++ [':'] := rfl
  rw [hcolon, ← List.append_assoc, ← List.append_assoc, List.append_assoc _ [':'], List.append_assoc _ [':']] at heq
  exact String.toList_injective (append_colon_inj hd hd' heq).2

/-- No file has the origin of a public video or of a web page. -/
theorem not_names {origin digest : String} (h : Names origin digest) (rest : String) :
    origin ≠ "public_video:" ++ rest ∧ origin ≠ "web_url:" ++ rest := by
  obtain ⟨kind, hkind, rfl⟩ := h
  constructor <;> intro heq
  all_goals
    have heq := congrArg String.toList heq
    simp only [String.toList_append] at heq
    rcases hkind with rfl | rfl | ⟨revisionId, rfl⟩ <;> simp at heq

namespace AcquisitionWorld

variable {T : Type} {w w' : AcquisitionWorld T} {sha256 : Bytes → String} {refreshes : Uuid → BlobObject → Prop}

/-- A version of a file's source that still has its blob is of the bytes its origin names. -/
def Named (sha256 : Bytes → String) (w : AcquisitionWorld T) : Prop :=
  ∀ s ∈ w.catalog.sourceIdentities, ∀ v ∈ w.catalog.versionIdentities, v.sourceId = s.id → v.originalBlobId.isSome →
    ∀ data, Names s.origin (sha256 data) → v.contentSha256 = sha256 data

/-- What writes no digest. -/
theorem Named.mono (h : w.Named sha256) (hsources : w'.catalog.sourceIdentities = w.catalog.sourceIdentities)
    (hversions : ∀ v' ∈ w'.catalog.versionIdentities, v'.originalBlobId.isSome → v' ∈ w.catalog.versionIdentities) :
    w'.Named sha256 := fun s hs v hv hid hblob data hnames =>
  h s (hsources ▸ hs) v (hversions v hv hblob) hid hblob data hnames

/-- A version that is added to sources that were there. -/
theorem Named.refresh (h : w.Named sha256) {v : VersionIdentity} {blob : BlobObject} (hv : Versioned w w' v (some blob))
    (hsources : w'.catalog.sourceIdentities = w.catalog.sourceIdentities)
    (hbytes : ∀ s ∈ w.catalog.sourceIdentities, s.id = v.sourceId → ∀ data, Names s.origin (sha256 data) →
      blob.contentSha256 = sha256 data) : w'.Named sha256 := by
  intro s hs v' hv' hid hblob data hnames
  rcases List.mem_append.1 (hv.versions ▸ hv') with hv' | hv'
  · exact h s (hsources ▸ hs) v' hv' hid hblob data hnames
  · obtain rfl := List.mem_singleton.1 hv'
    rw [hv.blob.2.1]
    exact hbytes s (hsources ▸ hs) hid.symm data hnames

/-- A new source, whose origin names the bytes of its blob if any. -/
theorem Named.insert (h : w.Named sha256) (hdistinct : w.Distinct) {s : SourceIdentity} {v : VersionIdentity}
    {blob : Option BlobObject} (hnew : s.id ∉ w.catalog.sourceIdentities.map (·.id)) (hv : Versioned w w' v blob)
    (hid : v.sourceId = s.id) (hsources : w'.catalog.sourceIdentities = w.catalog.sourceIdentities ++ [s])
    (hbytes : ∀ b ∈ blob, ∀ data, Names s.origin (sha256 data) → b.contentSha256 = sha256 data) : w'.Named sha256 := by
  intro s' hs' v' hv' hid' hblob data hnames
  rcases List.mem_append.1 (hsources ▸ hs') with hs' | hs' <;> rcases List.mem_append.1 (hv.versions ▸ hv') with hv' | hv'
  · exact h s' hs' v' hv' hid' hblob data hnames
  · obtain rfl := List.mem_singleton.1 hv'
    exact absurd (List.mem_map.2 ⟨s', hs', hid'.symm.trans hid⟩) hnew
  · obtain rfl := List.mem_singleton.1 hs'
    exact absurd (hid' ▸ hdistinct.owned v' hv') hnew
  · obtain rfl := List.mem_singleton.1 hs'
    obtain rfl := List.mem_singleton.1 hv'
    cases blob with
    | none =>
      have hnone : v'.originalBlobId = none := hv.blob
      rw [hnone] at hblob
      cases hblob
    | some blob =>
      rw [hv.blob.2.1]
      exact hbytes blob rfl data hnames

/-- The origin of what is acquired names its blob, if it names any bytes. -/
theorem given_names {command : AcquireSourceCommand} {blob : BlobObject} {type : SourceType} {data : Bytes}
    (hhex : ∀ data, ':' ∉ (sha256 data).toList) (hstored : w.Stored sha256) (hgiven : Given w (.acquired command blob type))
    (hnames : Names (command.origin blob) (sha256 data)) : blob.contentSha256 = sha256 data := by
  obtain ⟨-, ⟨data', hdigest⟩, -⟩ := hstored.handed blob hgiven.1
  unfold AcquireSourceCommand.origin at hnames
  split at hnames
  · exact absurd rfl (not_names hnames _).2
  · next hurl =>
    rw [hdigest] at hnames ⊢
    exact names_unique ⟨_, hgiven.2 hurl, rfl⟩ hnames (hhex data') (hhex data)

theorem Named.change [DecidableEq T] (hhex : ∀ data, ':' ∉ (sha256 data).toList) (h : w.Named sha256) (hdistinct : w.Distinct)
    (hstored : w.Stored sha256) (hreferred : w.Referred)
    (hbytes : ∀ sourceId blob, refreshes sourceId blob → ∀ s ∈ w.catalog.sourceIdentities, s.id = sourceId →
      ∀ data, Names s.origin (sha256 data) → blob.contentSha256 = sha256 data)
    (hc : Change sha256 refreshes w w') : w'.Named sha256 := by
  cases hc with
  | frame hsame => exact h.mono hsame.1 fun v hv _ => hsame.2.1 ▸ hv
  | lock t i => exact h.mono rfl fun v hv _ => hv
  | handOver row data hsources hversions => exact h.mono hsources fun v hv _ => hversions ▸ hv
  | inserted t i s v ht hs hid hnew hsources hversioned =>
    refine h.insert hdistinct hnew hversioned hid hsources fun b hb data hnames => ?_
    rw [hs.2] at hnames
    cases i with
    | acquired command blob type =>
      cases hb
      exact given_names hhex hstored (hreferred.given t _ ht) hnames
    | unavailable => cases hb
  | refreshed blob v hrefresh _ _ hsources hversioned =>
    exact h.refresh hversioned hsources (hbytes v.sourceId blob hrefresh)
  | erased versionIds artifactVersionIds hsources hversions =>
    refine h.mono hsources fun v hv hblob => ?_
    rw [hversions] at hv
    obtain ⟨old, hold, rfl⟩ := List.mem_map.1 hv
    obtain ⟨b, hb⟩ := Option.isSome_iff_exists.1 hblob
    rw [(VersionIdentity.erased_some hb).2]
    exact hold
  | dropped blobIds hsources hversions =>
    refine h.mono hsources fun v hv hblob => ?_
    rw [hversions] at hv
    obtain ⟨old, hold, rfl⟩ := List.mem_map.1 hv
    obtain ⟨b, hb⟩ := Option.isSome_iff_exists.1 hblob
    rw [(VersionIdentity.dropped_some hb).2]
    exact hold

/-! ## Runs -/

/-- Nothing is there yet. -/
def Empty (w : AcquisitionWorld T) : Prop := w = {}

structure Sound (sha256 : Bytes → String) (w : AcquisitionWorld T) : Prop where
  distinct : w.Distinct
  stored : w.Stored sha256
  referred : w.Referred

theorem sound_empty (h : w.Empty) : w.Sound sha256 := by
  obtain rfl : w = {} := h
  have hsources : ({} : AcquisitionWorld T).catalog.sourceIdentities = [] := rfl
  have hversions : ({} : AcquisitionWorld T).catalog.versionIdentities = [] := rfl
  have hkeys : ({} : AcquisitionWorld T).blobKeys = [] := rfl
  refine ⟨⟨?_, ?_, ?_, ?_, ?_, ?_⟩, ⟨?_, ?_, ?_, ?_⟩, ⟨?_, ?_, ?_, ?_, ?_⟩⟩ <;> simp [hsources, hversions, hkeys]

section Runs

variable [DecidableEq T] {rt : Runtime} {cond : AcquisitionWorld T → AcquisitionCall T → Prop}

theorem sound_reach (h : Reach Empty (AcquisitionStep sha256 rt cond) w) : w.Sound sha256 := by
  refine Reach.invariant (fun w hw => ?_) (fun w w' _ hi hst => ?_) h
  · exact sound_empty hw
  · obtain ⟨c, hen, -⟩ := hst
    have hc := exec_change sha256 rt hen
    exact ⟨hi.distinct.change hc, hi.stored.change hc, hi.referred.change hi.stored hc⟩

/-- A refresh of a file's source brings the bytes that its origin names. -/
def KeepsBytes (sha256 : Bytes → String) (w : AcquisitionWorld T) : AcquisitionCall T → Prop
  | .acquire _ command blob _ => ∀ s ∈ w.catalog.sources, command.refreshSourceId = some s.id →
      ∀ data, Names s.origin (sha256 data) → blob.contentSha256 = sha256 data
  | _ => True

theorem named_reach (hhex : ∀ data, ':' ∉ (sha256 data).toList)
    (h : Reach Empty (AcquisitionStep sha256 rt (KeepsBytes sha256)) w) : w.Named sha256 := by
  refine Reach.invariant (fun w hw => ?_) (fun w w' hr hi hst => ?_) h
  · obtain rfl : w = {} := hw
    intro s hs
    cases hs
  · obtain ⟨c, hen, hkeeps⟩ := hst
    have hsound := sound_reach hr
    refine hi.change hhex hsound.distinct hsound.stored hsound.referred ?_ (exec_change sha256 rt hen)
    rintro sourceId blob ⟨t, command, versionId, rfl, hrefresh⟩ s hs hid data hnames
    obtain ⟨source, hsource, rfl⟩ := List.mem_map.1 hs
    exact hkeeps source hsource (hrefresh.trans (congrArg some hid.symm)) data hnames

end Runs

end AcquisitionWorld

/-! ## What an acquisition returns -/

namespace Catalog

variable (w : Catalog)

def Newest (v : CatalogVersion) : Prop := ∀ v' ∈ w.versions, v'.sourceId = v.sourceId → v'.versionNumber ≤ v.versionNumber

/-- The view is of a source of the notebook that is not removed, at its newest version, and the version has the
bytes of the blob and refers to it. -/
structure Returned (notebookId : Uuid) (blob : BlobObject) (view : SourceView) : Prop where
  source : ∃ s ∈ w.sources, s.id = view.sourceId ∧ s.notebookId = notebookId ∧ s.availability ≠ .deletedTombstoned
  version : ∃ v ∈ w.versions, v.id = view.sourceVersionId ∧ v.sourceId = view.sourceId ∧ w.Newest v ∧
    v.contentSha256 = blob.contentSha256
  reference : ⟨blob.id, "source_version", view.sourceVersionId⟩ ∈ w.blobReferences

/-- The source is there to be read, and its newest version still has its blob. -/
def Kept (s : Source) : Prop :=
  s.availability ≠ .deletedTombstoned ∧ ∀ v ∈ w.versions, v.sourceId = s.id → w.Newest v → v.originalBlobId.isSome

end Catalog

namespace AcquisitionCall

variable {T : Type}

/-- The acquisition of a file or a text that the call begins or ends. -/
def file? (w : AcquisitionWorld T) : AcquisitionCall T → Option (AcquireSourceCommand × BlobObject)
  | acquire _ command blob _ =>
    if command.requestedUrl = none ∧ command.refreshSourceId = none then some (command, blob) else none
  | insert t _ _ => match w.txns t with
    | some (.inserting (.acquired command blob _)) => if command.requestedUrl = none then some (command, blob) else none
    | _ => none
  | _ => none

/-- Where the notebook has a source of the origin already, that source is kept, and the row of the blob is there. -/
def FindsKept (w : AcquisitionWorld T) : AcquisitionCall T → Prop
  | acquire _ command blob _ => ∀ s ∈ w.catalog.sources, s.notebookId = command.notebookId → s.origin = command.origin blob →
      w.catalog.Kept s ∧ ∃ o ∈ w.blobObjects, o.id = blob.id
  | _ => True

end AcquisitionCall

namespace AcquisitionWorld

variable {T : Type} {w : AcquisitionWorld T} {sha256 : Bytes → String} {command : AcquireSourceCommand} {blob : BlobObject}
  {view : SourceView}

theorem Distinct.sources (h : w.Distinct) : w.catalog.sources.Pairwise fun s s' => ¬ s.identity.Same s'.identity :=
  List.pairwise_map.1 h.origins

/-- Of elements that exclude each other pairwise, two that do not are one. -/
theorem eq_of_pairwise {α : Type} {R : α → α → Prop} (hsymm : ∀ a b, R a b → R b a) {l : List α}
    (h : l.Pairwise fun a b => ¬ R a b) {a b : α} (ha : a ∈ l) (hb : b ∈ l) (hab : R a b) : a = b := by
  have : Std.Symm fun a b => ¬ R a b := ⟨fun a b hne h => hne (hsymm b a h)⟩
  by_contra hne
  exact h.forall ha hb hne hab

/-- Two sources of one origin, or of one id, are one. -/
theorem Distinct.source_eq (h : w.Distinct) {s s' : Source} (hs : s ∈ w.catalog.sources) (hs' : s' ∈ w.catalog.sources)
    (hsame : s.identity.Same s'.identity ∨ s.id = s'.id) : s = s' := by
  rcases hsame with hsame | hid
  · exact eq_of_pairwise (R := fun s s' : Source => s.identity.Same s'.identity) (fun s s' h => ⟨h.1.symm, h.2.symm⟩)
      h.sources hs hs' hsame
  · have hkeyed := h.keyed
    rw [Catalog.sourceIdentities, List.map_map] at hkeyed
    exact List.inj_on_of_nodup_map hkeyed hs hs' hid

/-- Two newest versions of a source are one, and so are two of one id. -/
theorem Referred.version_eq (h : w.Referred) {v v' : CatalogVersion} (hv : v ∈ w.catalog.versions) (hv' : v' ∈ w.catalog.versions)
    (hsame : v.sourceId = v'.sourceId ∧ v.versionNumber = v'.versionNumber ∨ v.id = v'.id) : v = v' := by
  rcases hsame with hsame | hid
  · exact eq_of_pairwise (R := fun v v' : CatalogVersion => v.sourceId = v'.sourceId ∧ v.versionNumber = v'.versionNumber)
      (fun v v' h => ⟨h.1.symm, h.2.symm⟩) (List.pairwise_map.1 h.numbers) hv hv' hsame
  · have hkeyed := h.keyed
    rw [Catalog.versionIdentities, List.map_map] at hkeyed
    exact List.inj_on_of_nodup_map hkeyed hv hv' hid

/-- **What a select finds is as given when it is kept.** -/
theorem selected_iff (hsound : w.Sound sha256) (hnamed : w.Named sha256)
    (hblob : blob ∈ w.handed) (hkind : AcquisitionCall.FileKind command.originKind) (hurl : command.requestedUrl = none)
    (hview : w.catalog.selectView (Catalog.hasOrigin command.notebookId (command.origin blob)) = some view) :
    w.catalog.Returned command.notebookId blob view ↔
      ∀ s ∈ w.catalog.sources, s.notebookId = command.notebookId → s.origin = command.origin blob →
        w.catalog.Kept s ∧ ∃ o ∈ w.blobObjects, o.id = blob.id := by
  obtain ⟨s, hs, v, hv, hp, hid, rfl, hnewest⟩ := Catalog.selectView_some hview
  simp only [Catalog.hasOrigin, Bool.and_eq_true, decide_eq_true_eq] at hp hnewest
  have hnewest : w.catalog.Newest v := fun v' hv' hid' => hnewest s hs hp v' hv' (hid'.trans hid)
  have hidentity : v.identity ∈ w.catalog.versionIdentities := List.mem_map_of_mem hv
  constructor
  · intro ⟨⟨s', hs', hsource, _, havailable⟩, _, hreference⟩ s'' hs'' hnotebook horigin
    obtain rfl := hsound.distinct.source_eq hs' hs (.inr hsource)
    obtain rfl := hsound.distinct.source_eq hs'' hs (.inl ⟨hnotebook.trans hp.1.symm, horigin.trans hp.2.symm⟩)
    obtain ⟨old, hold, hversion, hsome⟩ := hsound.referred.version _ hreference rfl
    obtain ⟨v', hv', rfl⟩ := List.mem_map.1 hold
    obtain rfl := hsound.referred.version_eq hv' hv (.inr hversion)
    refine ⟨⟨havailable, fun v'' hv'' hid'' hnewest'' => ?_⟩, ?_⟩
    · have hnumber := Nat.le_antisymm (hnewest v'' hv'' (hid''.trans hid.symm)) (hnewest'' v' hv (hid.trans hid''.symm))
      obtain rfl := hsound.referred.version_eq hv'' hv (.inl ⟨hid''.trans hid.symm, hnumber⟩)
      exact Option.isSome_iff_exists.2 ⟨_, hsome⟩
    · obtain ⟨o, ho, hkey⟩ := List.mem_map.1 (hsound.referred.blob _ hidentity _ hsome).2
      exact ⟨o, ho, congrArg Prod.fst hkey⟩
  · intro h
    obtain ⟨⟨havailable, hkept⟩, o, ho, hoid⟩ := h s hs hp.1 hp.2
    obtain ⟨b, hb⟩ := Option.isSome_iff_exists.1 (hkept v hv hid hnewest)
    obtain ⟨hreference, hkey⟩ := hsound.referred.blob _ hidentity b hb
    obtain ⟨-, ⟨data, hdata⟩, hrow⟩ := hsound.stored.handed blob hblob
    have hnames : Names s.identity.origin (sha256 data) := by
      refine ⟨command.originKind, hkind, hp.2.trans ?_⟩
      rw [← hdata, AcquireSourceCommand.origin, hurl]
    have hdigest : v.contentSha256 = blob.contentSha256 :=
      (hnamed s.identity (List.mem_map_of_mem hs) v.identity hidentity hid (hkept v hv hid hnewest) data hnames).trans hdata.symm
    have hokey : (o.id, o.contentSha256) ∈ w.blobKeys := List.mem_map_of_mem ho
    have hbid : b = blob.id := by
      have heq := List.inj_on_of_nodup_map hsound.stored.digests hkey hokey (hdigest.trans (hrow _ hokey hoid).symm)
      exact (congrArg Prod.fst heq).trans hoid
    exact ⟨⟨s, hs, rfl, hp.1, havailable⟩, ⟨v, hv, rfl, hid, hnewest, hdigest⟩, hbid ▸ hreference⟩

/-- **What is inserted is as given.** -/
theorem inserted_returned [DecidableEq T] {t : T} {type : SourceType} {sourceId versionId : Uuid} {created : Bool} (hsound : w.Sound sha256)
    (ht : w.txns t = some (.inserting (.acquired command blob type)))
    (hret : (w.insert t sourceId versionId).1 = .source view created) :
    (w.insert t sourceId versionId).2.catalog.Returned command.notebookId blob view := by
  simp only [insert, ht] at hret ⊢
  split at hret
  · cases hret
  next catalog hok =>
  split at hret
  · next hholds =>
    split at hret
    · next found hview =>
      cases hret
      simp only [hholds, if_true]
      obtain ⟨w₁, hsource, hok⟩ := Except.bind_ok_iff.1 hok
      obtain ⟨w₂, hversion, hok⟩ := Except.bind_ok_iff.1 hok
      cases hok
      obtain ⟨hnew, rfl⟩ := Catalog.insertSource_ok hsource
      obtain ⟨-, -, rfl⟩ := Catalog.insertVersion_new hversion
      obtain ⟨s, hs, v, hv, hp, hid, rfl, hnewest⟩ := Catalog.selectView_some hview
      have hsid : s.id = sourceId := by simpa using hp
      rw [(Catalog.insertReference_rows _).1] at hs
      have hvrow := hv
      rw [(Catalog.insertReference_rows _).2] at hvrow
      have hsnew := List.mem_singleton.1 ((List.mem_append.1 hs).resolve_left fun hold => hnew s hold hsid)
      have hvnew := List.mem_singleton.1 ((List.mem_append.1 hvrow).resolve_left fun hold => by
        obtain ⟨_, hidentity, heq⟩ := List.mem_map.1 (hsound.distinct.owned v.identity (List.mem_map_of_mem hold))
        obtain ⟨old, hold, rfl⟩ := List.mem_map.1 hidentity
        exact hnew old hold ((heq.trans hid).trans hsid))
      refine ⟨⟨s, ?_, rfl, by rw [hsnew], by rw [hsnew]; exact nofun⟩,
        ⟨v, hv, rfl, hid, fun v' hv' hid' => ?_, by rw [hvnew]; rfl⟩, mem_insertReference.2 (.inr ?_)⟩
      · rw [(Catalog.insertReference_rows _).1]
        exact hs
      · exact hnewest s (by rw [(Catalog.insertReference_rows _).1]; exact hs) hp v' hv' (hid'.trans hid)
      · rw [hvnew]
        rfl
    · cases hret
  · cases hret

end AcquisitionWorld

variable {T : Type} [DecidableEq T]

/-- **A notebook has one source of an origin, and an acquisition returns the bytes it was given**, in every run whose
refreshes bring a file's source the bytes its origin names, when what the notebook has of the origin already is kept. -/
theorem acquire_returns_bytes (sha256 : Bytes → String) (rt : Runtime) (hhex : ∀ data, ':' ∉ (sha256 data).toList) :
    (∀ w : AcquisitionWorld T, Reach AcquisitionWorld.Empty (AcquisitionStep sha256 rt fun _ _ => True) w →
      w.catalog.sources.Pairwise fun s s' => ¬ (s.notebookId = s'.notebookId ∧ s.origin = s'.origin)) ∧
    ∀ w : AcquisitionWorld T, Reach AcquisitionWorld.Empty (AcquisitionStep sha256 rt (AcquisitionWorld.KeepsBytes sha256)) w →
      ∀ c : AcquisitionCall T, c.Enabled w → ∀ command blob, c.file? w = some (command, blob) →
        ∀ view created, (c.exec sha256 rt w).1 = .source view created →
          ((c.exec sha256 rt w).2.catalog.Returned command.notebookId blob view ↔ c.FindsKept w) := by
  refine ⟨fun w hw => (AcquisitionWorld.sound_reach hw).distinct.sources, fun w hw c hen command blob hfile view created hret => ?_⟩
  have hsound := AcquisitionWorld.sound_reach hw
  cases c with
  | acquire t command' blob' versionId =>
    simp only [AcquisitionCall.file?] at hfile
    split at hfile
    · next hplain =>
      cases hfile
      obtain ⟨-, hblob, hkind, -⟩ := hen
      simp only [AcquisitionCall.exec, AcquisitionWorld.acquire, hplain.2] at hret ⊢
      split at hret
      · next hsome => cases hsome
      · cases hret
      · next type _ htype =>
        simp only [AcquisitionWorld.select] at hret
        split at hret
        · next found hview =>
          cases hret
          have hsame : (w.select t (.acquired command blob type)).2 = w := by
            unfold AcquisitionWorld.select
            rw [hview]
          rw [hsame]
          exact AcquisitionWorld.selected_iff hsound (AcquisitionWorld.named_reach hhex hw) hblob (hkind hplain.1) hplain.1 hview
        · cases hret
    · cases hfile
  | insert t sourceId versionId =>
    simp only [AcquisitionCall.file?] at hfile
    split at hfile
    · next command' blob' type ht =>
      split at hfile
      · cases hfile
        exact iff_of_true (AcquisitionWorld.inserted_returned hsound ht hret) trivial
      · cases hfile
    · cases hfile
  | _ => cases hfile

/-! ## A text file -/

/-- "Hello", in UTF-8. -/
def hello : Bytes := [72, 101, 108, 108, 111]

def helloDigest : String := "185f8db32271fe25f561a6fc938b2e264306ec304eda518007d1764826381969"

def helloFile : BlobObject :=
  ⟨0, helloDigest, 5, .object helloDigest, .finalized, some "text/plain", some 0⟩

def uploadHello : AcquireSourceCommand := { notebookId := 2, actorId := 9, displayTitle := "Notes", originKind := "upload" }

/-- The blob is stored, and 9 is a member of notebook 2. -/
def storedHello : AcquisitionWorld Nat where
  catalog := { memberships := [⟨2, 9⟩] }
  blobObjects := [helloFile]
  nextBlob := 1
  handed := [helloFile]

def helloSource (availability : Availability) : Source :=
  ⟨5, 2, .plainText, "upload:ing-01a-v1:sha256:" ++ helloDigest, "Notes", availability, none⟩

/-- Source 5 is of the blob. -/
def acquiredHello (availability : Availability) : AcquisitionWorld Nat where
  catalog :=
    { sources := [helloSource availability]
      versions := [⟨⟨6, 5, some 0, helloDigest, some 5⟩, 1, .activating, none⟩]
      blobReferences := [⟨0, "source_version", 6⟩]
      memberships := [⟨2, 9⟩] }
  blobObjects := [helloFile]
  nextBlob := 1
  handed := [helloFile]

theorem stored_reached : Reach AcquisitionWorld.Empty
    (AcquisitionStep (fun _ => helloDigest) sampleRuntime (AcquisitionWorld.KeepsBytes fun _ => helloDigest)) storedHello := by
  have h₀ : Reach AcquisitionWorld.Empty
      (AcquisitionStep (fun _ => helloDigest) sampleRuntime (AcquisitionWorld.KeepsBytes fun _ => helloDigest))
      ({} : AcquisitionWorld Nat) := .start rfl
  have h₁ := h₀.next (.call (.put 0 hello (some "text/plain") none 0) rfl trivial)
  have h₂ := h₁.next (.call (.insertBlob 0 0) ⟨hello, some "text/plain", none, rfl⟩ trivial)
  have h₃ := h₂.next (.call (.other (.administer [⟨2, 9⟩] [])) trivial trivial)
  convert h₃ using 1
  simp [storedHello, AcquisitionCall.exec, AcquisitionWorld.put, AcquisitionWorld.insertBlob, AcquisitionWorld.setTxn,
    AcquisitionWorld.handOver, AcquisitionWorld.newBlob, SourceCall.exec, helloFile, hello]

theorem AcquisitionWorld.insert_source {T : Type} [DecidableEq T] {w : AcquisitionWorld T} {t : T} {i : Insertion} {catalog : Catalog}
    {sourceId versionId : Uuid} {view : SourceView} (ht : w.txns t = some (.inserting i))
    (hok : i.insert w.catalog sourceId versionId = .ok catalog) (hholds : i.blob.all (w.holdsBlob ·.id) = true)
    (hview : catalog.selectView (·.id = sourceId) = some view) :
    w.insert t sourceId versionId = (.source view true, { w.setTxn t none with catalog }) := by
  simp [AcquisitionWorld.insert, ht, hok, hholds, hview]

/-- A world that holds no source selects none; one that holds one with one version selects it. -/
theorem selectView_one {w : Catalog} {p : Source → Bool} {s : Source} {v : CatalogVersion} (hs : w.sources.filter p = [s])
    (hv : w.versionsOf s.id = [v]) : w.selectView p = some (.of s v) := by
  simp [Catalog.selectView, Catalog.joined, hs, hv]

theorem selectView_nil {w : Catalog} {p : Source → Bool} (hs : w.sources.filter p = []) : w.selectView p = none := by
  simp [Catalog.selectView, Catalog.joined, hs]

theorem acquired_reached : Reach AcquisitionWorld.Empty
    (AcquisitionStep (fun _ => helloDigest) sampleRuntime (AcquisitionWorld.KeepsBytes fun _ => helloDigest))
    (acquiredHello .active) := by
  have h₁ := stored_reached.next (.call (.acquire 0 uploadHello helloFile 7)
    ⟨rfl, List.mem_singleton.2 rfl, fun _ => .inl rfl, fun _ _ _ h => by cases h⟩ fun _ h => by cases h)
  have hselect : storedHello.catalog.selectView (Catalog.hasOrigin
      (Insertion.acquired uploadHello helloFile .plainText).notebookId (Insertion.acquired uploadHello helloFile .plainText).origin) =
        none := selectView_nil rfl
  have hacquire : (AcquisitionCall.acquire 0 uploadHello helloFile 7).exec (fun _ => helloDigest) sampleRuntime storedHello =
      (.waits, storedHello.setTxn 0 (some (.inserting (.acquired uploadHello helloFile .plainText)))) := by
    show storedHello.select 0 (.acquired uploadHello helloFile .plainText) = _
    simp only [AcquisitionWorld.select, hselect]
  rw [hacquire] at h₁
  have h₂ := h₁.next (.call (.insert 0 5 6) ⟨_, rfl⟩ trivial)
  convert h₂ using 1
  have hview : (acquiredHello .active).catalog.selectView (·.id = 5) =
      some (.of (helloSource .active) ⟨⟨6, 5, some 0, helloDigest, some 5⟩, 1, .activating, none⟩) := selectView_one rfl rfl
  have hinsert : (Insertion.acquired uploadHello helloFile .plainText).insert storedHello.catalog 5 6 =
      .ok (acquiredHello .active).catalog := rfl
  have hinserted := AcquisitionWorld.insert_source (w := storedHello.setTxn 0 (some (.inserting (.acquired uploadHello helloFile .plainText))))
    (t := 0) rfl hinsert rfl hview
  show acquiredHello .active = ((storedHello.setTxn 0 _).insert 0 5 6).2
  rw [hinserted]
  simp [AcquisitionWorld.setTxn, acquiredHello, storedHello]

/-- The view of source 5. -/
def helloView (availability : Availability) : SourceView :=
  .of (helloSource availability) ⟨⟨6, 5, some 0, helloDigest, some 5⟩, 1, .activating, none⟩

/-- Whatever became of source 5, who uploads its bytes again gets it. -/
theorem acquired_again (availability : Availability) :
    (AcquisitionCall.acquire 0 uploadHello helloFile 7).exec (fun _ => helloDigest) sampleRuntime (acquiredHello availability) =
      (.source (helloView availability) false, acquiredHello availability) := by
  have hview : (acquiredHello availability).catalog.selectView (Catalog.hasOrigin
      (Insertion.acquired uploadHello helloFile .plainText).notebookId (Insertion.acquired uploadHello helloFile .plainText).origin) =
        some (helloView availability) := selectView_one rfl rfl
  show (acquiredHello availability).select 0 (.acquired uploadHello helloFile .plainText) = _
  simp only [AcquisitionWorld.select, hview]

theorem acquire_enabled (availability : Availability) :
    (AcquisitionCall.acquire 0 uploadHello helloFile 7).Enabled (acquiredHello availability) :=
  ⟨rfl, List.mem_singleton.2 rfl, fun _ => .inl rfl, fun _ _ _ h => by cases h⟩

theorem acquire_returns_bytes_again : ((AcquisitionCall.acquire 0 uploadHello helloFile 7).exec (fun _ => helloDigest) sampleRuntime
    (acquiredHello .active)).2.catalog.Returned 2 helloFile (helloView .active) := by
  refine ((acquire_returns_bytes (fun _ => helloDigest) sampleRuntime fun _ => by decide).2 _ acquired_reached _
    (acquire_enabled .active) uploadHello helloFile rfl _ false (congrArg Prod.fst (acquired_again .active))).2 ?_
  intro s hs _ _
  obtain rfl := List.mem_singleton.1 hs
  refine ⟨⟨nofun, fun v hv _ _ => ?_⟩, helloFile, List.mem_singleton.2 rfl, rfl⟩
  obtain rfl := List.mem_singleton.1 hv
  rfl

/-- A source that was removed is returned for its bytes, removed. -/
theorem removed_returned : ¬ ∀ (sha256 : Bytes → String) (rt : Runtime), (∀ data, ':' ∉ (sha256 data).toList) →
    ∀ w : AcquisitionWorld Nat, Reach AcquisitionWorld.Empty (AcquisitionStep sha256 rt fun _ _ => True) w →
      (w.catalog.sources.Pairwise fun s s' => ¬ (s.notebookId = s'.notebookId ∧ s.origin = s'.origin)) ∧
        ∀ c : AcquisitionCall Nat, c.Enabled w → ∀ command blob, c.file? w = some (command, blob) →
          ∀ view created, (c.exec sha256 rt w).1 = .source view created →
            (c.exec sha256 rt w).2.catalog.Returned command.notebookId blob view := by
  intro h
  have hreached : Reach AcquisitionWorld.Empty (AcquisitionStep (fun _ => helloDigest) sampleRuntime fun _ _ => True)
      (acquiredHello .active) := acquired_reached.mono fun _ _ ⟨c, hen, _⟩ => .call c hen trivial
  have hremoved := hreached.next (.call (.other (.setSelected 5 9 false)) trivial trivial)
  have hreturned := (h (fun _ => helloDigest) sampleRuntime (fun _ => by decide) (acquiredHello .deletedTombstoned) hremoved).2 _
    (acquire_enabled _) uploadHello helloFile rfl _ false (congrArg Prod.fst (acquired_again _))
  rw [congrArg Prod.snd (acquired_again .deletedTombstoned)] at hreturned
  obtain ⟨s, hs, -, -, havailable⟩ := hreturned.source
  obtain rfl := List.mem_singleton.1 hs
  exact havailable rfl

end MilpbookLM
