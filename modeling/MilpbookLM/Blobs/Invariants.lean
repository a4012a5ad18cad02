/-
What the store keeps: every call but two keeps what there is (`exec_steady`), and
the two, the deletion of an object and the mark of a purge, keep it when they
spare what is in use (`Spares`). So each process finds what its stage of a put
says (`StageOk`), and each reference its row and its object (`runs_kept`).
-/
import MilpbookLM.Blobs.Protocol
import Mathlib.Data.Fintype.Basic

namespace MilpbookLM

open Interleave

section Invariants

variable (sha256 : Bytes → String)

/-- The object of a row is there, with its digest and size. -/
def HasFile (w : BlobWorld) (row : BlobObject) : Prop :=
  ∃ f ∈ w.objects, f.contentSha256 = row.contentSha256 ∧ sha256 f.content = row.contentSha256 ∧
    f.content.length = row.sizeBytes

/-- Every reference points to a finalized row whose object is there. -/
def Present (w : BlobWorld) : Prop :=
  ∀ ref ∈ w.blobReferences, ∃ row ∈ w.blobObjects, row.id = ref.blobId ∧ row.state = .finalized ∧ HasFile sha256 w row

/-- The digest a put is at work on, once its object is in place. -/
def Stage.digest? : Stage → Option String
  | .placed data .. => some (sha256 data)
  | .committed blob => some blob.contentSha256
  | _ => none

/-- The row a process has committed and is about to refer to. -/
def Stage.committed? : Stage → Option BlobObject
  | .committed blob => some blob
  | _ => none

variable {P : Type} [DecidableEq P]

/-- A reference needs the object, or a put that will commit it or refer to it. -/
def InUse (r : BlobRun P) (contentSha256 : String) : Prop :=
  (∃ ref ∈ r.shared.blobReferences, ∃ row ∈ r.shared.blobObjects, row.id = ref.blobId ∧
    row.contentSha256 = contentSha256) ∨
  ∃ p, (stage sha256 (own p r.trace)).digest? sha256 = some contentSha256

/-- An object is deleted only when it is not in use; a row is marked purged only
when no reference but the purged ones points to it, and none is about to. -/
def Spares : P → BlobCall → BlobEnv → BlobRun P → Prop
  | _, .unlinkFinal sha, _, r => ¬ InUse sha256 r sha
  | _, .purgeCommit marked, _, r => ∀ row ∈ marked.unreferenced,
      (∀ ref ∈ r.shared.blobReferences, ref.blobId = row.id → ref ∈ marked.references) ∧
      ∀ p, ∀ blob ∈ (stage sha256 (own p r.trace)).committed?, blob.id ≠ row.id
  | _, _, _, _ => True

instance [Fintype P] {r : BlobRun P} {sha : String} : Decidable (InUse sha256 r sha) := by
  unfold InUse; infer_instance

instance [Fintype P] {p c env} {r : BlobRun P} : Decidable (Spares sha256 p c env r) := by
  rcases c with ⟨⟩ <;> dsimp only [Spares] <;> infer_instance

/-! ## Invariants -/

/-- What the world owes to a process at a stage of its put. -/
def StageOk (w : BlobWorld) : Stage → Prop
  | .idle => True
  | .staged temp data synced _ => temp < w.nextTemporary ∧
      ∀ t ∈ w.temporaries, t.name = temp → t.content = data ∧ (synced → t.synced)
  | .placed data _ bucket root =>
      (∃ f ∈ w.objects, f.contentSha256 = sha256 data ∧ f.content.length = data.length ∧ (bucket → f.entrySynced)) ∧
      (root → ∃ b ∈ w.buckets, b.name = bucketOf (sha256 data) ∧ b.entrySynced)
  | .committed blob => blob.id < w.nextBlob ∧ ∀ row ∈ w.blobObjects, row.id = blob.id →
      row.state = .finalized ∧ row.contentSha256 = blob.contentSha256 ∧ HasFile sha256 w row

structure WorldOk (w : BlobWorld) : Prop where
  keyed : Table.Keyed (·.id) w.blobObjects
  below : ∀ row ∈ w.blobObjects, row.id < w.nextBlob
  temporaries : ∀ t ∈ w.temporaries, t.name < w.nextTemporary
  /-- Objects are named by their digests. -/
  addressed : ∀ f ∈ w.objects, sha256 f.content = f.contentSha256
  synced : ∀ f ∈ w.objects, f.synced
  housed : ∀ f ∈ w.objects, ∃ b ∈ w.buckets, b.name = bucketOf f.contentSha256
  present : Present sha256 w

/-- What every call keeps but the deletion of an object and the purge mark. -/
structure Steady (w w' : BlobWorld) : Prop where
  nextTemporary : w.nextTemporary ≤ w'.nextTemporary
  nextBlob : w.nextBlob ≤ w'.nextBlob
  temporaries : ∀ t' ∈ w'.temporaries, t'.name < w.nextTemporary →
    ∃ t ∈ w.temporaries, t.name = t'.name ∧ t.content = t'.content ∧ (t.synced → t'.synced)
  objects : ∀ f ∈ w.objects, ∃ f' ∈ w'.objects, f'.contentSha256 = f.contentSha256 ∧ f'.content = f.content ∧
    (f.entrySynced → f'.entrySynced)
  buckets : ∀ b ∈ w.buckets, ∃ b' ∈ w'.buckets, b'.name = b.name ∧ (b.entrySynced → b'.entrySynced)
  rows : ∀ row' ∈ w'.blobObjects, row'.id < w.nextBlob → ∃ row ∈ w.blobObjects, row.id = row'.id ∧
    row.contentSha256 = row'.contentSha256 ∧ row.sizeBytes = row'.sizeBytes ∧
      (row.state = .finalized → row'.state = .finalized)

variable {sha256} {w w' : BlobWorld}

theorem Steady.refl (w : BlobWorld) : Steady w w where
  nextTemporary := le_rfl
  nextBlob := le_rfl
  temporaries t h _ := ⟨t, h, rfl, rfl, id⟩
  objects f h := ⟨f, h, rfl, rfl, id⟩
  buckets b h := ⟨b, h, rfl, id⟩
  rows row h _ := ⟨row, h, rfl, rfl, rfl, id⟩

theorem HasFile.steady {row row' : BlobObject} (h : HasFile sha256 w row) (hs : Steady w w')
    (hsha : row.contentSha256 = row'.contentSha256) (hsize : row.sizeBytes = row'.sizeBytes) :
    HasFile sha256 w' row' := by
  obtain ⟨f, hf, h₁, h₂, h₃⟩ := h
  obtain ⟨f', hf', hname, hcontent, -⟩ := hs.objects f hf
  exact ⟨f', hf', by rw [hname, h₁, hsha], by rw [hcontent, h₂, hsha], by rw [hcontent, h₃, hsize]⟩

theorem StageOk.steady {s : Stage} (h : StageOk sha256 w s) (hs : Steady w w') : StageOk sha256 w' s := by
  cases s with
  | idle => trivial
  | staged temp data synced found =>
    refine ⟨h.1.trans_le hs.nextTemporary, fun t' ht' hname => ?_⟩
    obtain ⟨t, ht, hn, hc, hsync⟩ := hs.temporaries t' ht' (hname ▸ h.1)
    obtain ⟨hdata, htsync⟩ := h.2 t ht (hn.trans hname)
    exact ⟨hc ▸ hdata, fun hy => hsync (htsync hy)⟩
  | placed data found bucket root =>
    obtain ⟨⟨f, hf, hsha, hlen, hentry⟩, hroot⟩ := h
    obtain ⟨f', hf', hname, hcontent, hkept⟩ := hs.objects f hf
    refine ⟨⟨f', hf', hname.trans hsha, by rw [hcontent, hlen], fun hy => hkept (hentry hy)⟩, fun hy => ?_⟩
    obtain ⟨b, hb, hbname, hbsync⟩ := hroot hy
    obtain ⟨b', hb', hb'name, hb'sync⟩ := hs.buckets b hb
    exact ⟨b', hb', hb'name.trans hbname, hb'sync hbsync⟩
  | committed blob =>
    refine ⟨h.1.trans_le hs.nextBlob, fun row' hrow' hid => ?_⟩
    obtain ⟨row, hrow, hrid, hsha, hsize, hstate⟩ := hs.rows row' hrow' (hid ▸ h.1)
    obtain ⟨hfin, hblob, hfile⟩ := h.2 row hrow (hrid.trans hid)
    exact ⟨hstate hfin, hsha ▸ hblob, hfile.steady hs hsha hsize⟩

/-- What the insert or reuse of a row does. -/
structure RowCommitted (w : BlobWorld) (sha : String) (size : Nat) (row : BlobObject) (w' : BlobWorld) : Prop where
  steady : Steady w w'
  mem : row ∈ w'.blobObjects
  finalized : row.state = .finalized
  named : row.contentSha256 = sha
  sized : row.sizeBytes = size
  /-- No row is lost, and none loses its object or its state. -/
  persists : ∀ row₀ ∈ w.blobObjects, ∃ row' ∈ w'.blobObjects, row'.id = row₀.id ∧
    row₀.contentSha256 = row'.contentSha256 ∧ row₀.sizeBytes = row'.sizeBytes ∧
      (row₀.state = .finalized → row'.state = .finalized)
  /-- Nor is one made but the row committed. -/
  made : ∀ row' ∈ w'.blobObjects, row' = row ∨ row' ∈ w.blobObjects
  keyed : Table.Keyed (·.id) w'.blobObjects
  below : ∀ row ∈ w'.blobObjects, row.id < w'.nextBlob
  objects : w'.objects = w.objects
  buckets : w'.buckets = w.buckets
  temporaries : w'.temporaries = w.temporaries
  references : w'.blobReferences = w.blobReferences

theorem finalizedRow_ok {sha size now contentType row} (hk : WorldOk sha256 w)
    (h : w.finalizedRow sha size now contentType = .ok (row, w')) : RowCommitted w sha size row w' := by
  simp only [BlobWorld.finalizedRow] at h
  split at h
  · next existing hfind =>
    have hmem := List.mem_of_find?_eq_some hfind
    have hsha : existing.contentSha256 = sha := by simpa using List.find?_some hfind
    split at h
    · cases h
    next hsize =>
    simp only [ne_eq, not_not] at hsize
    split at h
    · cases h
      let row : BlobObject := { existing with state := .finalized, finalizedAt := some now }
      have hput : row ∈ Table.put (·.id) row w.blobObjects := Table.mem_put_self hmem rfl
      refine ⟨{ Steady.refl w with rows := ?_ }, hput, rfl, hsha, hsize, ?_, ?_, Table.keyed_put hk.keyed, ?_,
        rfl, rfl, rfl, rfl⟩
      · rintro row' hrow' -
        rcases Table.mem_put hrow' with rfl | ⟨hrow', -⟩
        · exact ⟨existing, hmem, rfl, rfl, rfl, fun _ => rfl⟩
        · exact ⟨row', hrow', rfl, rfl, rfl, id⟩
      · intro row₀ hrow₀
        by_cases hid : row₀.id = existing.id
        · obtain rfl : row₀ = existing := List.inj_on_of_nodup_map hk.keyed hrow₀ hmem hid
          exact ⟨_, hput, rfl, rfl, rfl, fun _ => rfl⟩
        · exact ⟨row₀, Table.mem_put_other hrow₀ hid, rfl, rfl, rfl, id⟩
      · exact fun row' hrow' => (Table.mem_put hrow').imp id And.left
      · intro row' hrow'
        rcases Table.mem_put hrow' with rfl | ⟨hrow', -⟩
        · exact hk.below existing hmem
        · exact hk.below row' hrow'
    · next hst =>
      cases h
      simp only [ne_eq, not_not] at hst
      exact ⟨.refl w, hmem, hst, hsha, hsize, fun row hrow => ⟨row, hrow, rfl, rfl, rfl, id⟩, fun _ => .inr,
        hk.keyed, hk.below, rfl, rfl, rfl, rfl⟩
  · cases h
    have hnew : Table.lookup BlobObject.id w.blobObjects w.nextBlob = none :=
      Table.lookup_none.2 fun row hrow => (hk.below row hrow).ne
    refine ⟨{ Steady.refl w with nextBlob := Nat.le_succ _, rows := ?_ }, by simp, rfl, rfl, rfl,
      fun row hrow => ⟨row, List.mem_append_left _ hrow, rfl, rfl, rfl, id⟩, ?_,
      Table.keyed_insert hk.keyed hnew, ?_, rfl, rfl, rfl, rfl⟩
    · intro row' hrow' hlt
      rcases List.mem_append.1 hrow' with hrow' | hrow'
      · exact ⟨row', hrow', rfl, rfl, rfl, id⟩
      · rw [List.mem_singleton.1 hrow'] at hlt
        exact absurd hlt (lt_irrefl _)
    · exact fun row' hrow' => (List.mem_append.1 hrow').symm.imp List.mem_singleton.1 id
    · intro row' hrow'
      rcases List.mem_append.1 hrow' with hrow' | hrow'
      · exact Nat.lt_succ_of_lt (hk.below row' hrow')
      · rw [List.mem_singleton.1 hrow']
        exact Nat.lt_succ_self _

/-- The row committed for an object in place has it. -/
theorem RowCommitted.hasFile {data : Bytes} {row} (hk : WorldOk sha256 w)
    (h : RowCommitted w (sha256 data) data.length row w') {f : ObjectFile} (hf : f ∈ w.objects)
    (hname : f.contentSha256 = sha256 data) (hlen : f.content.length = data.length) : HasFile sha256 w' row :=
  ⟨f, by rw [h.objects]; exact hf, by rw [h.named, hname], by rw [h.named, hk.addressed f hf, hname],
    by rw [h.sized, hlen]⟩

/-- Adding to the references is no matter. -/
theorem Steady.references {refs : List BlobReference} (h : Steady w w') :
    Steady w { w' with blobReferences := refs } :=
  { h with }

theorem exec_steady {env : BlobEnv} {c : BlobCall} (hk : WorldOk sha256 w) (hu : ∀ sha, c ≠ .unlinkFinal sha)
    (hp : ∀ marked, c ≠ .purgeCommit marked) : Steady w (c.exec env w).2 := by
  cases c with
  | unlinkFinal sha => exact absurd rfl (hu sha)
  | purgeCommit marked => exact absurd rfl (hp marked)
  | writeTemporary data =>
    refine { Steady.refl w with nextTemporary := Nat.le_succ _, temporaries := fun t ht hlt => ?_ }
    rcases List.mem_append.1 ht with ht | ht
    · exact ⟨t, ht, rfl, rfl, id⟩
    · rw [List.mem_singleton.1 ht] at hlt
      exact absurd hlt (lt_irrefl _)
  | fsyncTemporary name =>
    refine { Steady.refl w with temporaries := fun t' ht' _ => ?_ }
    obtain ⟨t, ht, rfl⟩ := List.mem_map.1 ht'
    exact ⟨t, ht, by split <;> rfl, by split <;> rfl, by split <;> simp⟩
  | unlinkTemporary name =>
    exact { Steady.refl w with temporaries := fun t ht _ => ⟨t, (List.mem_filter.1 ht).1, rfl, rfl, id⟩ }
  | mkdirBucket sha =>
    simp only [BlobCall.exec]
    split
    · exact .refl w
    · exact { Steady.refl w with buckets := fun b hb => ⟨b, List.mem_append_left _ hb, rfl, id⟩ }
  | link temporary sha =>
    simp only [BlobCall.exec, BlobWorld.link]
    split
    · exact .refl w
    · exact .refl w
    · exact .refl w
    · exact { Steady.refl w with objects := fun f hf => ⟨f, List.mem_append_left _ hf, rfl, rfl, id⟩ }
  | fsyncBucket sha =>
    refine { Steady.refl w with objects := fun f hf => ⟨_, List.mem_map.2 ⟨f, hf, rfl⟩, ?_⟩ }
    exact ⟨by split <;> rfl, by split <;> rfl, by split <;> simp⟩
  | fsyncObjectsDir =>
    exact { Steady.refl w with buckets := fun b hb => ⟨_, List.mem_map.2 ⟨b, hb, rfl⟩, rfl, fun _ => rfl⟩ }
  | commitFinalized site sha size now contentType kind id =>
    simp only [BlobCall.exec, BlobWorld.commitFinalized]
    split
    · exact .refl w
    · next hrow =>
      have hs := (finalizedRow_ok hk hrow).steady
      split
      · exact hs.references
      · exact hs
  | acquire blob versionId =>
    simp only [BlobCall.exec, BlobWorld.acquire]
    split
    · exact .refl w
    · split
      · exact (Steady.refl w).references
      · exact .refl w
  | purgeDelete ids =>
    exact { Steady.refl w with rows := fun row h _ => ⟨row, (List.mem_filter.1 h).1, rfl, rfl, rfl, id⟩ }
  | _ => exact .refl w

/-- An object that is not of the digest stays. -/
theorem HasFile.unlinked {sha : String} {row : BlobObject} (h : HasFile sha256 w row) (hne : row.contentSha256 ≠ sha) :
    HasFile sha256 { w with objects := w.objects.filter (·.contentSha256 ≠ sha) } row := by
  obtain ⟨f, hf, hname, hrest⟩ := h
  exact ⟨f, List.mem_filter.2 ⟨hf, by simpa [hname] using hne⟩, hname, hrest⟩

theorem StageOk.unlinked {sha : String} {s : Stage} (h : StageOk sha256 w s) (hne : s.digest? sha256 ≠ some sha) :
    StageOk sha256 { w with objects := w.objects.filter (·.contentSha256 ≠ sha) } s := by
  cases s with
  | idle => trivial
  | staged temp data synced found => exact h
  | placed data found bucket root =>
    obtain ⟨⟨f, hf, hname, hlen⟩, hroot⟩ := h
    exact ⟨⟨f, List.mem_filter.2 ⟨hf, by simpa [hname, Stage.digest?] using hne⟩, hname, hlen⟩, hroot⟩
  | committed blob =>
    refine ⟨h.1, fun row hrow hid => ?_⟩
    obtain ⟨hfin, hsha, hfile⟩ := h.2 row hrow hid
    exact ⟨hfin, hsha, hfile.unlinked (by simpa [hsha, Stage.digest?] using hne)⟩

theorem StageOk.purged {marked : Marked} {s : Stage} (h : StageOk sha256 w s)
    (hne : ∀ row ∈ marked.unreferenced, ∀ blob ∈ s.committed?, blob.id ≠ row.id) :
    StageOk sha256 (w.purgeCommit marked) s := by
  cases s with
  | idle => trivial
  | staged temp data synced found => exact h
  | placed data found bucket root => exact h
  | committed blob =>
    refine ⟨h.1, fun row' hrow' hid => ?_⟩
    obtain ⟨row, hrow, rfl⟩ := List.mem_map.1 hrow'
    have hnot : row.id ∉ marked.unreferenced.map (·.id) := by
      intro hmem
      obtain ⟨purged, hpurged, he⟩ := List.mem_map.1 hmem
      refine hne purged hpurged blob rfl (Eq.trans ?_ he.symm)
      rw [← hid]
      split <;> rfl
    simp only [hnot, decide_false, Bool.false_eq_true, if_false] at hid ⊢
    exact h.2 row hrow hid

/-- A call keeps what the world owes to its caller. -/
theorem advance_ok {env : BlobEnv} {c : BlobCall} {t : BlobHistory} (hk : WorldOk sha256 w)
    (hf : BlobFollows sha256 t c) (hs : StageOk sha256 w (stage sha256 t))
    (hs' : StageOk sha256 (c.exec env w).2 (stage sha256 t)) :
    StageOk sha256 (c.exec env w).2 (stage sha256 (⟨c, (c.exec env w).1⟩ :: t)) := by
  rw [stage_cons]
  cases c with
  | writeTemporary data =>
    refine ⟨Nat.lt_succ_self _, fun tm htm hname => ?_⟩
    rcases List.mem_append.1 htm with htm | htm
    · exact absurd hname (hk.temporaries tm htm).ne
    · rw [List.mem_singleton.1 htm]
      exact ⟨rfl, nofun⟩
  | fsyncTemporary name =>
    cases hst : stage sha256 t with
    | staged temp data synced found =>
      rw [hst] at hs hs'
      refine ⟨hs'.1, fun t' ht' hname => ⟨(hs'.2 t' ht' hname).1, fun hy => ?_⟩⟩
      rcases Bool.or_eq_true_iff.1 hy with hy | hy
      · exact (hs'.2 t' ht' hname).2 hy
      -- the sync was of this temporary
      · obtain ⟨tm, htm, rfl⟩ := List.mem_map.1 ht'
        split at hname
        · next he => simp [he]
        · next hne =>
          rw [decide_eq_true_eq] at hy hne
          exact absurd (hname.trans hy.symm) hne
    | _ => rw [hst] at hs'; first | exact hs' | trivial
  | fsyncBucket sha =>
    cases hst : stage sha256 t with
    | placed data found bucket root =>
      rw [hst] at hs hs'
      obtain ⟨⟨f', hf', hname, hlen, hentry⟩, hroot⟩ := hs'
      refine ⟨⟨f', hf', hname, hlen, fun hy => ?_⟩, hroot⟩
      rcases Bool.or_eq_true_iff.1 hy with hy | hy
      · exact hentry hy
      · obtain ⟨f, hf, rfl⟩ := List.mem_map.1 hf'
        split at hname
        · next he => simp [he]
        · next hne =>
          rw [decide_eq_true_eq] at hy hne
          exact absurd (congrArg bucketOf (hname.trans hy.symm)) hne
    | _ => rw [hst] at hs'; first | exact hs' | trivial
  | fsyncObjectsDir =>
    cases hst : stage sha256 t with
    | placed data found bucket root =>
      rw [hst] at hs hs'
      obtain ⟨f, hf, hname, -⟩ := hs.1
      obtain ⟨b, hb, hbname⟩ := hk.housed f hf
      exact ⟨hs'.1, fun _ => ⟨_, List.mem_map.2 ⟨b, hb, rfl⟩, hbname.trans (congrArg bucketOf hname), rfl⟩⟩
    | _ => rw [hst] at hs'; first | exact hs' | trivial
  | link temp sha =>
    obtain ⟨data, found, hst, rfl⟩ := hf
    rw [hst] at hs hs' ⊢
    simp only [BlobCall.exec, BlobWorld.link] at hs' ⊢
    split
    · exact hs
    · exact hs
    · exact hs
    · next tm htemp _ _ =>
      have htm := List.mem_of_find?_eq_some htemp
      have hname : tm.name = temp := by simpa using List.find?_some htemp
      exact ⟨⟨_, List.mem_append_right _ (List.mem_singleton.2 rfl), rfl,
        congrArg List.length (hs.2 tm htm hname).1, nofun⟩, nofun⟩
  | readFinal sha =>
    simp only [BlobCall.exec] at hs' ⊢
    cases hst : stage sha256 t with
    | staged temp data synced found =>
      rw [hst] at hs'
      cases hobj : w.object? sha with
      | none => exact hs'
      | some f =>
        have hmem := List.mem_of_find?_eq_some hobj
        simp only [Option.map_some, Stage.advance]
        split
        · next hid => exact ⟨⟨f, hmem, (hk.addressed f hmem).symm.trans hid.1, hid.2, nofun⟩, nofun⟩
        · exact hs'
    | _ =>
      rw [hst] at hs'
      cases w.object? sha <;> first | exact hs' | trivial
  | commitFinalized site sha size now contentType kind id =>
    obtain ⟨data, found, bucket, root, hst, rfl, rfl, -⟩ := hf
    rw [hst] at hs
    obtain ⟨⟨f, hfmem, hname, hlen, -⟩, -⟩ := hs
    simp only [BlobCall.exec, BlobWorld.commitFinalized]
    split
    · cases site <;> trivial
    next row w' hrow =>
    have hr := finalizedRow_ok hk hrow
    have hfile := hr.hasFile hk hfmem hname hlen
    have hcommitted : StageOk sha256 w' (.committed row) := by
      refine ⟨hr.below row hr.mem, fun row' hrow' hid => ?_⟩
      obtain rfl : row' = row := List.inj_on_of_nodup_map hr.keyed hrow' hr.mem hid
      exact ⟨hr.finalized, rfl, hfile⟩
    cases site with
    | other => split <;> trivial
    | acquisition => split <;> exact hcommitted
  | acquire blob versionId =>
    rw [show stage sha256 t = _ from hf]
    trivial
  | finalExists => revert hs'; cases stage sha256 t <;> first | exact id | exact fun _ => trivial
  | _ => revert hs'; cases stage sha256 t <;> first | exact id | exact fun _ => trivial

/-! ## References -/

/-- Where the rows and references are as they were. -/
theorem Present.steady (h : Present sha256 w) (hs : Steady w w') (hrows : w'.blobObjects = w.blobObjects)
    (hrefs : w'.blobReferences = w.blobReferences) : Present sha256 w' := by
  intro ref href
  obtain ⟨row, hrow, hid, hfin, hfile⟩ := h ref (hrefs ▸ href)
  exact ⟨row, hrows ▸ hrow, hid, hfin, hfile.steady hs rfl rfl⟩

/-- A reference to a row that has its object may be added. -/
theorem Present.addReference {row : BlobObject} {ref : BlobReference} (h : Present sha256 w)
    (hrow : row ∈ w.blobObjects) (hfin : row.state = .finalized) (hfile : HasFile sha256 w row)
    (hid : row.id = ref.blobId) :
    Present sha256 { w with blobReferences := BlobWorld.addReference ref w.blobReferences } := by
  intro ref' href'
  have hcases : ref' ∈ w.blobReferences ∨ ref' = ref := by
    simp only [BlobWorld.addReference] at href'
    split at href'
    · exact .inl href'
    · simpa using href'
  rcases hcases with href' | rfl
  · exact h ref' href'
  · exact ⟨row, hrow, hid, hfin, hfile⟩

theorem Present.rowCommitted {sha size row} (h : Present sha256 w) (hr : RowCommitted w sha size row w') :
    Present sha256 w' := by
  intro ref href
  obtain ⟨row₀, hrow₀, hid, hfin, hfile⟩ := h ref (hr.references ▸ href)
  obtain ⟨row', hrow', hid', hsha, hsize, hstate⟩ := hr.persists row₀ hrow₀
  exact ⟨row', hrow', hid'.trans hid, hstate hfin, hfile.steady hr.steady hsha hsize⟩

theorem Present.purged {marked : Marked} (h : Present sha256 w)
    (hm : ∀ row ∈ marked.unreferenced, ∀ ref ∈ w.blobReferences, ref.blobId = row.id → ref ∈ marked.references) :
    Present sha256 (w.purgeCommit marked) := by
  intro ref href
  obtain ⟨href, hkept⟩ := List.mem_filter.1 href
  simp only [decide_eq_true_eq] at hkept
  obtain ⟨row, hrow, hid, hfin, hfile⟩ := h ref href
  have hnot : row.id ∉ marked.unreferenced.map (·.id) := fun hmem => by
    obtain ⟨purged, hpurged, he⟩ := List.mem_map.1 hmem
    exact hkept (hm purged hpurged ref href (hid.symm.trans he.symm))
  exact ⟨row, List.mem_map.2 ⟨row, hrow, by simp [hnot]⟩, hid, hfin, hfile⟩

theorem Present.deleted {ids : List Nat} (h : Present sha256 w) : Present sha256 (w.purgeDelete ids) := by
  intro ref href
  obtain ⟨href, hkept⟩ := List.mem_filter.1 href
  obtain ⟨row, hrow, hid, hfin, hfile⟩ := h ref href
  exact ⟨row, List.mem_filter.2 ⟨hrow, by rw [hid]; exact hkept⟩, hid, hfin, hfile⟩

theorem Present.unlinked {sha : String} (h : Present sha256 w)
    (hfree : ¬ ∃ ref ∈ w.blobReferences, ∃ row ∈ w.blobObjects, row.id = ref.blobId ∧ row.contentSha256 = sha) :
    Present sha256 { w with objects := w.objects.filter (·.contentSha256 ≠ sha) } := by
  intro ref href
  obtain ⟨row, hrow, hid, hfin, hfile⟩ := h ref href
  exact ⟨row, hrow, hid, hfin, hfile.unlinked fun he => hfree ⟨ref, href, row, hrow, hid, he⟩⟩

/-! ## Runs -/

variable {P : Type} [DecidableEq P] {r : BlobRun P}

/-- Every process is owed nothing that is not there. -/
structure Kept (sha256 : Bytes → String) (r : BlobRun P) : Prop where
  world : WorldOk sha256 r.shared
  stages : ∀ p, StageOk sha256 r.shared (stage sha256 (own p r.trace))

/-- What the calls of a run keep to. -/
def Safe (sha256 : Bytes → String) (p : P) (c : BlobCall) (env : BlobEnv) (r : BlobRun P) : Prop :=
  Spares sha256 p c env r ∧ BlobFollows sha256 (own p r.trace) c

theorem exec_world {p : P} {c : BlobCall} {env : BlobEnv} (hk : Kept sha256 r)
    (hc : Safe sha256 p c env r) : WorldOk sha256 (c.exec env r.shared).2 := by
  obtain ⟨hcond, hf⟩ := hc
  have hw := hk.world
  have hs := hk.stages p
  cases c with
  | writeTemporary data =>
    refine { hw with temporaries := fun t ht => ?_ }
    rcases List.mem_append.1 ht with ht | ht
    · exact Nat.lt_succ_of_lt (hw.temporaries t ht)
    · rw [List.mem_singleton.1 ht]; exact Nat.lt_succ_self _
  | fsyncTemporary name =>
    refine { hw with temporaries := fun t' ht' => ?_ }
    obtain ⟨t, ht, rfl⟩ := List.mem_map.1 ht'
    split <;> exact hw.temporaries t ht
  | unlinkTemporary name =>
    exact { hw with temporaries := fun t ht => hw.temporaries t (List.mem_filter.1 ht).1 }
  | mkdirBucket sha =>
    simp only [BlobCall.exec]
    split
    · exact hw
    · refine { hw with housed := fun f hf => ?_ }
      obtain ⟨b, hb, hname⟩ := hw.housed f hf
      exact ⟨b, List.mem_append_left _ hb, hname⟩
  | link temp sha =>
    have hst : Steady r.shared ((BlobCall.link temp sha).exec env r.shared).2 := exec_steady hw (by simp) (by simp)
    obtain ⟨data, found, hstage, rfl⟩ := hf
    rw [hstage] at hs
    simp only [BlobCall.exec, BlobWorld.link] at hst ⊢
    split
    · exact hw
    · exact hw
    · exact hw
    · next tm htemp hbucket hnone =>
      rw [htemp, hbucket, hnone] at hst
      have hname : tm.name = temp := by simpa using List.find?_some htemp
      obtain ⟨hcontent, hsync⟩ := hs.2 tm (List.mem_of_find?_eq_some htemp) hname
      obtain ⟨b, hb, hbname⟩ := List.any_eq_true.1 hbucket
      refine ⟨hw.keyed, hw.below, hw.temporaries, fun f hfm => ?_, fun f hfm => ?_, fun f hfm => ?_,
        hw.present.steady hst rfl rfl⟩
      all_goals rcases List.mem_append.1 hfm with hfm | hfm
      · exact hw.addressed f hfm
      · rw [List.mem_singleton.1 hfm]; exact congrArg sha256 hcontent
      · exact hw.synced f hfm
      · rw [List.mem_singleton.1 hfm]; exact hsync rfl
      · exact hw.housed f hfm
      · rw [List.mem_singleton.1 hfm]; exact ⟨b, hb, by simpa using hbname⟩
  | unlinkFinal sha =>
    have hsub : ∀ f ∈ r.shared.objects.filter (·.contentSha256 ≠ sha), f ∈ r.shared.objects :=
      fun f hfm => (List.mem_filter.1 hfm).1
    exact ⟨hw.keyed, hw.below, hw.temporaries, fun f hfm => hw.addressed f (hsub f hfm),
      fun f hfm => hw.synced f (hsub f hfm), fun f hfm => hw.housed f (hsub f hfm),
      hw.present.unlinked fun h => hcond (.inl h)⟩
  | fsyncBucket sha =>
    have hst : Steady r.shared ((BlobCall.fsyncBucket sha).exec env r.shared).2 :=
      exec_steady hw (by simp) (by simp)
    refine ⟨hw.keyed, hw.below, hw.temporaries, fun f' hf' => ?_, fun f' hf' => ?_, fun f' hf' => ?_,
      hw.present.steady hst rfl rfl⟩
    all_goals obtain ⟨f, hfm, rfl⟩ := List.mem_map.1 hf'
    · split <;> exact hw.addressed f hfm
    · split <;> exact hw.synced f hfm
    · split <;> exact hw.housed f hfm
  | fsyncObjectsDir =>
    refine { hw with housed := fun f hf => ?_ }
    obtain ⟨b, hb, hname⟩ := hw.housed f hf
    exact ⟨_, List.mem_map.2 ⟨b, hb, rfl⟩, hname⟩
  | commitFinalized site sha size now contentType kind id =>
    obtain ⟨data, found, bucket, root, hstage, rfl, rfl, -⟩ := hf
    rw [hstage] at hs
    obtain ⟨⟨f, hfm, hname, hlen, -⟩, -⟩ := hs
    simp only [BlobCall.exec, BlobWorld.commitFinalized]
    split
    · exact hw
    next row w' hrow =>
    have hr := finalizedRow_ok hw hrow
    have hw' : WorldOk sha256 w' := by
      refine ⟨hr.keyed, hr.below, fun t ht => ?_, hr.objects ▸ hw.addressed, hr.objects ▸ hw.synced,
        hr.objects ▸ hr.buckets ▸ hw.housed, hw.present.rowCommitted hr⟩
      exact (hw.temporaries t (hr.temporaries ▸ ht)).trans_le hr.steady.nextTemporary
    split
    · exact { hw' with present := hw'.present.addReference hr.mem hr.finalized (hr.hasFile hw hfm hname hlen) rfl }
    · exact hw'
  | acquire blob versionId =>
    rw [show stage sha256 (own p r.trace) = _ from hf] at hs
    simp only [BlobCall.exec, BlobWorld.acquire]
    split
    · exact hw
    split
    · next hany =>
      obtain ⟨row, hrow, hid⟩ := List.any_eq_true.1 hany
      simp only [decide_eq_true_eq] at hid
      obtain ⟨hfin, -, hfile⟩ := hs.2 row hrow hid
      exact { hw with present := hw.present.addReference hrow hfin hfile hid }
    · exact hw
  | purgeCommit marked =>
    have hkeyed : Table.Keyed (·.id) (r.shared.purgeCommit marked).blobObjects := by
      refine Table.keyed_update ?_ hw.keyed
      exact fun _ _ => rfl
    refine ⟨hkeyed, fun row' hrow' => ?_, hw.temporaries, hw.addressed, hw.synced, hw.housed,
      hw.present.purged fun row hrow => (hcond row hrow).1⟩
    obtain ⟨row, hrow, rfl⟩ := List.mem_map.1 hrow'
    split <;> exact hw.below row hrow
  | purgeDelete ids =>
    exact ⟨hw.keyed.sublist (List.filter_sublist.map _), fun row hrow => hw.below row (List.mem_filter.1 hrow).1,
      hw.temporaries, hw.addressed, hw.synced, hw.housed, hw.present.deleted⟩
  | _ => exact hw

/-- No call takes away what the world owes to a process. -/
theorem exec_stages {p : P} {c : BlobCall} {env : BlobEnv} (hk : Kept sha256 r)
    (hc : Safe sha256 p c env r) (q : P) :
    StageOk sha256 (c.exec env r.shared).2 (stage sha256 (own q r.trace)) := by
  by_cases hu : ∃ sha, c = .unlinkFinal sha
  · obtain ⟨sha, rfl⟩ := hu
    exact (hk.stages q).unlinked fun h => hc.1 (.inr ⟨q, h⟩)
  by_cases hp : ∃ marked, c = .purgeCommit marked
  · obtain ⟨marked, rfl⟩ := hp
    exact (hk.stages q).purged fun row hrow => (hc.1 row hrow).2 q
  · exact (hk.stages q).steady (exec_steady hk.world (fun sha he => hu ⟨sha, he⟩) fun marked he => hp ⟨marked, he⟩)

theorem runs_kept {cond : P → BlobCall → BlobEnv → BlobRun P → Prop} (h : BlobRuns (· = {}) cond r)
    (hcond : ∀ p c env r, cond p c env r → Safe sha256 p c env r) : Kept sha256 r := by
  refine Reach.invariant ?_ ?_ h
  · rintro r ⟨hw, ht⟩
    refine ⟨?_, fun p => by rw [ht]; trivial⟩
    rw [hw]
    exact ⟨.nil, by simp, by simp, by simp, by simp, by simp, by simp [Present]⟩
  · rintro r r' - hk ⟨p, c, env, hc⟩
    have hsafe := hcond p c env r hc
    have hstages := exec_stages hk hsafe
    refine ⟨exec_world hk hsafe, fun q => ?_⟩
    by_cases hq : p = q
    · subst hq
      rw [Run.call_trace, own_self]
      exact advance_ok hk.world hsafe.2 (hk.stages p) (hstages p)
    · rw [Run.call_trace, own_other hq]
      exact hstages q

end Invariants

end MilpbookLM
