/-
Puts and crashes. A crash keeps the rows and the durable files, and of the rest
what it likes (`Crash`). After a run of puts every finalized row then has its
object still, complete, and the other objects are complete and unreferenced
(`puts_crash_safe`), as long as nobody commits onto an object that another has
linked and not yet synced. A put that finds the object there syncs nothing, so in
general somebody does (`crash_loses_row`).

A referenced blob is present: its row is finalized, and its object is there with
the digest and the size of the row. Puts, acquisitions, garbage collections and
purges keep it so as long as what is deleted, or marked purged, is not in use
when it is (`references_present`). Neither the collector nor the purge looks
again before it deletes, so in general they do not (`collects_referenced`).
-/
import MilpbookLM.Blobs.Invariants

namespace MilpbookLM

open Interleave

/-- **A referenced blob is present**, whoever puts, acquires, collects and purges,
at whatever times, as long as nothing is deleted or marked purged while in use. -/
theorem references_present {sha256 : Bytes → String} {P : Type} [DecidableEq P] {pool : BlobPool P}
    (h : (blobMachine sha256 P fun _ => True).Reach (· = {}) (Spares sha256) pool) :
    Present sha256 pool.run.shared :=
  (runs_kept (blob_runs (fun r _ => r.keeps sha256) h) fun _ _ _ _ => id).world.present

/-! ## Schedules -/

section Schedules

variable {P : Type} [DecidableEq P] {sha256 : Bytes → String} {admits : BlobRequest → Prop}

/-- Nothing stored, nobody at work. -/
def idleBlobs (P : Type) : BlobPool P := ⟨⟨{}, []⟩, fun _ => .ret (.ok ())⟩

def blobSchedule (sha256 : Bytes → String) (admits : BlobRequest → Prop)
    (ms : List (Move P BlobEnv { r // admits r })) : BlobPool P :=
  ms.foldl (blobMachine sha256 P admits).move (idleBlobs P)

theorem reach_blobSchedule {cond : P → BlobCall → BlobEnv → BlobRun P → Prop}
    {ms : List (Move P BlobEnv { r // admits r })} (hm : (blobMachine sha256 P admits).Meets cond (idleBlobs P) ms) :
    (blobMachine sha256 P admits).Reach (· = {}) cond (blobSchedule sha256 admits ms) := by
  have h0 : (blobMachine sha256 P admits).Reach (· = {}) cond (idleBlobs P) := .start ⟨⟨rfl, rfl⟩, fun _ => rfl⟩
  exact Machine.reach_moves h0 hm

/-- `n` calls of `p` at time `t`. -/
def blobCalls (p : P) (t : Time) (existing : Bool) (n : Nat) : List (Move P BlobEnv { r // admits r }) :=
  List.replicate n (.call p { clock := t, existing })

end Schedules

/-- A digest, for the one content the schedules below store, `a`. -/
def sha256OfA (_ : Bytes) : String := "ca978112ca1bbdcafac231b39a23dc4da786eff8147c4e72b9807785afee48bb"

abbrev AnyBlobMove := Move Bool BlobEnv { _r : BlobRequest // True }

/-- One process puts `a` for a source that exists already. -/
def putsA (t : Time) : List AnyBlobMove :=
  .start true ⟨.acquire [0x61] none 1, trivial⟩ :: blobCalls true t true 13

/-- The other starts to collect, much later, up to its first deletion. -/
def collects : List AnyBlobMove :=
  .start false ⟨.collectGarbage ⟨maxBackupWindow + 1, by decide⟩, trivial⟩ ::
    blobCalls false (2 * maxBackupWindow) true 6

/-- The first acquires `a` for a new source. -/
def acquiresA : List AnyBlobMove :=
  .start true ⟨.acquire [0x61] none 2, trivial⟩ :: blobCalls true (2 * maxBackupWindow) false 10

instance {w : BlobWorld} {row} : Decidable (HasFile sha256OfA w row) := by unfold HasFile; infer_instance

instance {w : BlobWorld} : Decidable (Present sha256OfA w) := by unfold Present; infer_instance

/-- `a` is collected, and acquired again. -/
theorem references_present_again :
    Present sha256OfA (blobSchedule sha256OfA (fun _ => True)
      (putsA 0 ++ collects ++ blobCalls false 0 true 1 ++ acquiresA ++ blobCalls true 0 false 3)).run.shared :=
  references_present (reach_blobSchedule (by decide +kernel))

/-- `a` is acquired again between the scan that finds it unreferenced and its deletion. -/
theorem collects_referenced : ¬ ∀ (sha256 : Bytes → String) (pool : BlobPool Bool),
    (blobMachine sha256 Bool fun _ => True).Reach (· = {}) (fun _ _ _ _ => True) pool →
      Present sha256 pool.run.shared := by
  intro h
  have hp := h sha256OfA (blobSchedule sha256OfA (fun _ => True)
    (putsA 0 ++ collects ++ acquiresA ++ blobCalls false 0 true 1)) (reach_blobSchedule Machine.meets_true)
  revert hp
  decide +kernel

/-! ## Crashes -/

/-- The same file after a crash: its bytes, if they were synced. -/
def SameFile (f f' : ObjectFile) : Prop :=
  f'.contentSha256 = f.contentSha256 ∧ (f.synced → f'.content = f.content)

/-- The directory that holds the object is found after a crash. -/
def BucketDurable (w : BlobWorld) (contentSha256 : String) : Prop :=
  ∃ b ∈ w.buckets, b.name = bucketOf contentSha256 ∧ b.entrySynced

/-- What a crash in `w` may leave. An entry made by `link` or `mkdir` is volatile
until its directory is synced; nothing is asked of temporaries. -/
structure Crash (w w' : BlobWorld) : Prop where
  blobObjects : w'.blobObjects = w.blobObjects
  blobReferences : w'.blobReferences = w.blobReferences
  kept : ∀ f ∈ w.objects, f.entrySynced → BucketDurable w f.contentSha256 → ∃ f' ∈ w'.objects, SameFile f f'
  made : ∀ f' ∈ w'.objects, ∃ f ∈ w.objects, SameFile f f'

section Safety

variable (sha256 : Bytes → String)

/-- Every finalized row has its complete object; any other object is complete and unreferenced. -/
def CrashSafe (w : BlobWorld) : Prop :=
  (∀ row ∈ w.blobObjects, row.state = .finalized → HasFile sha256 w row) ∧
  ∀ f ∈ w.objects, sha256 f.content = f.contentSha256 ∧
    ((∃ row ∈ w.blobObjects, row.contentSha256 = f.contentSha256 ∧ row.state = .finalized) ∨
      ∀ ref ∈ w.blobReferences, ∀ row ∈ w.blobObjects, row.id = ref.blobId → row.contentSha256 ≠ f.contentSha256)

/-- The object's entry and its bucket's are durable. -/
def Durable (w : BlobWorld) (contentSha256 : String) : Prop :=
  (∀ f ∈ w.objects, f.contentSha256 = contentSha256 → f.entrySynced) ∧ BucketDurable w contentSha256

/-- The process found the object there at its first look. -/
def Stage.foundFinal : Stage → Bool
  | .placed _ found _ _ => found
  | _ => false

variable {P : Type} [DecidableEq P]

/-- Who found an object there commits it only once it is durable. -/
def AwaitsDurable : P → BlobCall → BlobEnv → BlobRun P → Prop
  | p, .commitFinalized _ sha .., _, r => (stage sha256 (own p r.trace)).foundFinal → Durable r.shared sha
  | _, _, _, _ => True

instance {w : BlobWorld} {sha : String} : Decidable (BucketDurable w sha) := by unfold BucketDurable; infer_instance

instance {w : BlobWorld} {sha : String} : Decidable (Durable w sha) := by unfold Durable; infer_instance

instance {p c env} {r : BlobRun P} : Decidable (AwaitsDurable sha256 p c env r) := by
  rcases c with ⟨⟩ <;> dsimp only [AwaitsDurable] <;> infer_instance

/-! ## Puts alone -/

/-- A put, for its own sake or for an acquisition. -/
def BlobRequest.puts : BlobRequest → Prop
  | .put .. | .acquire .. => True
  | _ => False

instance : DecidablePred BlobRequest.puts := fun r => by unfold BlobRequest.puts; split <;> infer_instance

/-- The calls of a put and of an acquisition. -/
def BlobCall.ofPut : BlobCall → Prop
  | .unlinkFinal _ | .listTemporaries | .listFinals | .allObjects | .referenceCounts => False
  | .purgeMark .. | .purgeCommit _ | .purgeDelete _ => False
  | _ => True

variable {sha256}

open BlobProgram (Keeps)

theorem requireIdentical_ofPut {sha size} : (requireIdentical sha256 sha size).Keeps fun _ c => c.ofPut := by
  refine .bind (.perform fun _ => trivial) fun content => ?_
  cases content with
  | none => exact .throw _
  | some content =>
    dsimp only
    split
    · exact .throw _
    · exact .pure _

theorem validateTemporary_ofPut {temp sha size} :
    (validateTemporary sha256 temp sha size).Keeps fun _ c => c.ofPut := by
  refine .bind (.perform fun _ => trivial) fun content => ?_
  cases content with
  | none => exact .throw _
  | some content =>
    dsimp only
    split
    · exact .throw _
    · exact .pure _

theorem finalize_ofPut {temp sha size} : (finalize sha256 temp sha size).Keeps fun _ c => c.ofPut := by
  refine .bind (.perform fun _ => trivial) ?_
  rintro (_ | _)
  · refine .bind (.perform fun _ => trivial) fun _ => .bind (.perform fun _ => trivial) ?_
    have hsync : Keeps (fun _ c => c.ofPut) (do (BlobCall.fsyncBucket sha).perform; BlobCall.fsyncObjectsDir.perform) :=
      .bind (.perform fun _ => trivial) fun _ => .perform fun _ => trivial
    rintro (_ | _ | _)
    · exact hsync
    · exact .bind requireIdentical_ofPut fun _ => hsync
    · exact .throw _
  · exact requireIdentical_ofPut

theorem put_ofPut {site data contentType kind id} :
    (put sha256 site data contentType kind id).Keeps fun _ c => c.ofPut := by
  have hcleanup (temp : Nat) : Keeps (fun _ c => c.ofPut)
      (do (BlobCall.unlinkTemporary temp).perform; BlobCall.fsyncTmpDir.perform) :=
    .bind (.perform fun _ => trivial) fun _ => .perform fun _ => trivial
  refine .bind (.bind (.perform fun _ => trivial) fun (_ : Nat) => .bind (.perform fun _ => trivial) fun _ => .pure _)
    fun (temp, _, _) => .bind (.bind (.tryCatch ?_ fun _ => .bind (hcleanup temp) fun _ => .throw _)
      fun _ => .bind (hcleanup temp) fun _ => .pure _) fun _ => .bind (.perform fun _ => trivial) fun _ =>
        .bind (.perform fun _ => trivial) fun res => ?_
  · exact .bind validateTemporary_ofPut fun _ => finalize_ofPut
  · cases res with
    | ok blob => exact .pure _
    | error e => exact .throw _

theorem BlobRequest.puts_ofPut {r : BlobRequest} (h : r.puts) : (r.program sha256).Keeps fun _ c => c.ofPut := by
  cases r with
  | put => exact .bind put_ofPut fun _ => .pure _
  | acquire =>
    refine .bind (.bind put_ofPut fun _ => .bind (.perform fun _ => trivial) fun res => ?_) fun _ => .pure _
    cases res with
    | ok => exact .pure _
    | error e => exact .throw _
  | collectGarbage => exact h.elim
  | erase => exact h.elim

/-! ## What is committed is durable -/

/-- The object of a row is there, of its size, and durable. -/
def DurableFile (w : BlobWorld) (row : BlobObject) : Prop :=
  (∃ f ∈ w.objects, f.contentSha256 = row.contentSha256 ∧ f.content.length = row.sizeBytes ∧ f.entrySynced) ∧
  BucketDurable w row.contentSha256

variable {w w' : BlobWorld}

theorem DurableFile.steady {row : BlobObject} (h : DurableFile w row) (hs : Steady w w') : DurableFile w' row := by
  obtain ⟨⟨f, hf, hname, hlen, hentry⟩, b, hb, hbname, hbsync⟩ := h
  obtain ⟨f', hf', hname', hcontent, hkept⟩ := hs.objects f hf
  obtain ⟨b', hb', hbname', hbkept⟩ := hs.buckets b hb
  exact ⟨⟨f', hf', hname'.trans hname, by rw [hcontent, hlen], hkept hentry⟩,
    b', hb', hbname'.trans hbname, hbkept hbsync⟩

/-- Only a commit touches the rows. -/
theorem exec_blobObjects {env : BlobEnv} {c : BlobCall} (hp : c.ofPut)
    (hc : ∀ site sha size now contentType kind id, c ≠ .commitFinalized site sha size now contentType kind id) :
    (c.exec env w).2.blobObjects = w.blobObjects := by
  cases c with
  | commitFinalized site sha size now contentType kind id => exact (hc _ _ _ _ _ _ _ rfl).elim
  | unlinkFinal | purgeCommit | purgeDelete => exact hp.elim
  | mkdirBucket sha => simp only [BlobCall.exec]; split <;> rfl
  | link temporary sha => simp only [BlobCall.exec, BlobWorld.link]; split <;> rfl
  | acquire blob versionId =>
    simp only [BlobCall.exec, BlobWorld.acquire]
    split
    · rfl
    · split <;> rfl
  | _ => rfl

/-- What a run of puts keeps. -/
structure PutKept (sha256 : Bytes → String) (r : BlobRun P) : Prop where
  kept : Kept sha256 r
  durable : ∀ row ∈ r.shared.blobObjects, row.state = .finalized → DurableFile r.shared row

variable {r : BlobRun P}

/-- The rules of a run of puts. -/
def PutSafe (sha256 : Bytes → String) (p : P) (c : BlobCall) (env : BlobEnv) (r : BlobRun P) : Prop :=
  AwaitsDurable sha256 p c env r ∧ BlobFollows sha256 (own p r.trace) c ∧ c.ofPut

theorem PutSafe.safe {p : P} {c : BlobCall} {env : BlobEnv} (h : PutSafe sha256 p c env r) :
    Safe sha256 p c env r := by
  refine ⟨?_, h.2.1⟩
  have hp := h.2.2
  cases c with
  | unlinkFinal | purgeCommit => exact hp.elim
  | _ => trivial

/-- The object a process commits is durable: it has synced it, or waited. -/
theorem durable_at_commit {p : P} {env : BlobEnv} {site sha size now contentType kind id} (hk : Kept sha256 r)
    (h : PutSafe sha256 p (.commitFinalized site sha size now contentType kind id) env r) :
    (∃ f ∈ r.shared.objects, f.contentSha256 = sha ∧ f.content.length = size ∧ f.entrySynced) ∧
      BucketDurable r.shared sha := by
  obtain ⟨hawaits, ⟨data, found, bucket, root, hst, rfl, rfl, hdone⟩, -⟩ := h
  have hs := hk.stages p
  simp only [AwaitsDurable] at hawaits
  rw [hst] at hs hawaits
  obtain ⟨⟨f, hf, hname, hlen, hentry⟩, hroot⟩ := hs
  rcases hdone with rfl | ⟨rfl, rfl⟩
  · obtain ⟨hall, hbucket⟩ := hawaits rfl
    exact ⟨⟨f, hf, hname, hlen, hall f hf hname⟩, hbucket⟩
  · exact ⟨⟨f, hf, hname, hlen, hentry rfl⟩, hroot rfl⟩

theorem exec_durable {p : P} {c : BlobCall} {env : BlobEnv} (hk : PutKept sha256 r) (h : PutSafe sha256 p c env r) :
    ∀ row ∈ (c.exec env r.shared).2.blobObjects, row.state = .finalized → DurableFile (c.exec env r.shared).2 row := by
  have hs : Steady r.shared (c.exec env r.shared).2 := by
    refine exec_steady hk.kept.world ?_ ?_
    · rintro sha rfl; exact h.2.2.elim
    · rintro marked rfl; exact h.2.2.elim
  intro row hrow hfin
  by_cases hc : ∃ site sha size now contentType kind id, c = .commitFinalized site sha size now contentType kind id
  · obtain ⟨site, sha, size, now, contentType, kind, id, rfl⟩ := hc
    have hcommit := durable_at_commit hk.kept h
    simp only [BlobCall.exec, BlobWorld.commitFinalized] at hs hrow ⊢
    split at hrow <;> rename_i he <;> simp only [he] at hs ⊢
    · exact hk.durable row hrow hfin
    have hr := finalizedRow_ok hk.kept.world he
    -- the reference, if there is one, changes no row
    have hold : row = _ ∨ row ∈ r.shared.blobObjects := hr.made row (by split at hrow <;> exact hrow)
    refine DurableFile.steady (w := r.shared) ?_ hs
    rcases hold with rfl | hold
    · simpa only [DurableFile, hr.named, hr.sized] using hcommit
    · exact hk.durable row hold hfin
  · rw [exec_blobObjects h.2.2 fun _ _ _ _ _ _ _ he => hc ⟨_, _, _, _, _, _, _, he⟩] at hrow
    exact (hk.durable row hrow hfin).steady hs

theorem runs_putKept (h : BlobRuns (· = {}) (PutSafe sha256) r) : PutKept sha256 r := by
  have hkept {r : BlobRun P} (h : BlobRuns (· = {}) (PutSafe sha256) r) : Kept sha256 r :=
    runs_kept h fun _ _ _ _ => PutSafe.safe
  refine Reach.invariant (I := PutKept sha256) ?_ ?_ h
  · rintro r ⟨hw, ht⟩
    exact ⟨hkept (.start ⟨hw, ht⟩), by rw [hw]; simp⟩
  · rintro r r' hr hk ⟨p, c, env, hc⟩
    exact ⟨hkept (.next hr (.call p c env hc)), exec_durable hk hc⟩

/-- **A crash of a kept state is safe.** -/
theorem PutKept.crash (hk : PutKept sha256 r) (hc : Crash r.shared w') : CrashSafe sha256 w' := by
  have hw := hk.kept.world
  refine ⟨fun row hrow hfin => ?_, fun f' hf' => ?_⟩
  · obtain ⟨⟨f, hf, hname, hlen, hentry⟩, hbucket⟩ := hk.durable row (hc.blobObjects ▸ hrow) hfin
    obtain ⟨f', hf', hname', hcontent⟩ := hc.kept f hf hentry (hname ▸ hbucket)
    have hcontent := hcontent (hw.synced f hf)
    exact ⟨f', hf', hname'.trans hname, by rw [hcontent, hw.addressed f hf, hname], by rw [hcontent, hlen]⟩
  · obtain ⟨f, hf, hname, hcontent⟩ := hc.made f' hf'
    refine ⟨by rw [hcontent (hw.synced f hf), hw.addressed f hf, hname], ?_⟩
    by_cases hrow : ∃ row ∈ w'.blobObjects, row.contentSha256 = f'.contentSha256 ∧ row.state = .finalized
    · exact .inl hrow
    -- a reference would point to a finalized row of that digest
    · refine .inr fun ref href row hmem hid hsha => hrow ?_
      obtain ⟨row', hrow', hid', hfin, -⟩ := hw.present ref (hc.blobReferences ▸ href)
      obtain rfl : row' = row := List.inj_on_of_nodup_map hw.keyed hrow' (hc.blobObjects ▸ hmem) (hid'.trans hid.symm)
      exact ⟨row', hmem, hsha, hfin⟩

end Safety

/-- **Puts are crash consistent**, any number of them, of the same bytes or not, at
any point of any interleaving, as long as who found an object there commits it
only once it is durable. -/
theorem puts_crash_safe {sha256 : Bytes → String} {P : Type} [DecidableEq P] {pool : BlobPool P} {w' : BlobWorld}
    (h : (blobMachine sha256 P BlobRequest.puts).Reach (· = {}) (AwaitsDurable sha256) pool)
    (hc : Crash pool.run.shared w') : CrashSafe sha256 w' :=
  (runs_putKept (blob_runs (fun r hr => (r.keeps sha256).and (BlobRequest.puts_ofPut hr)) h)).crash hc

/-! ## Schedules -/

abbrev PutMove := Move Bool BlobEnv { r : BlobRequest // r.puts }

/-- A process puts `a`, up to its `n`-th call. -/
def putsACalls (p : Bool) (n : Nat) : List PutMove :=
  .start p ⟨.put [0x61] none none none, trivial⟩ :: blobCalls p 0 false n

/-- One puts `a` and syncs it; the other finds it there, and commits. -/
theorem puts_crash_safe_one_after_another :
    CrashSafe sha256OfA
      { (blobSchedule sha256OfA BlobRequest.puts (putsACalls true 8 ++ putsACalls false 9)).run.shared with
        temporaries := [] } :=
  have hlost (w : BlobWorld) : Crash w { w with temporaries := [] } :=
    ⟨rfl, rfl, fun f hf _ _ => ⟨f, hf, rfl, fun _ => rfl⟩, fun f hf => ⟨f, hf, rfl, fun _ => rfl⟩⟩
  puts_crash_safe (reach_blobSchedule (by decide +kernel)) (hlost _)

/-- One has linked `a`; the other finds it there, and commits; the crash takes the link. -/
theorem crash_loses_row : ¬ ∀ (sha256 : Bytes → String) (pool : BlobPool Bool) (w' : BlobWorld),
    (blobMachine sha256 Bool BlobRequest.puts).Reach (· = {}) (fun _ _ _ _ => True) pool →
      Crash pool.run.shared w' → CrashSafe sha256 w' := by
  intro h
  have hlost (pool : BlobPool Bool) (hreach : (blobMachine sha256OfA Bool BlobRequest.puts).Reach (· = {})
      (fun _ _ _ _ => True) pool) (hvolatile : ∀ f ∈ pool.run.shared.objects, ¬ f.entrySynced)
      (hcommitted : ∃ row ∈ pool.run.shared.blobObjects, row.state = .finalized) : False := by
    have hc : Crash pool.run.shared { pool.run.shared with objects := [] } :=
      ⟨rfl, rfl, fun f hf hentry _ => absurd hentry (hvolatile f hf), nofun⟩
    obtain ⟨row, hrow, hfin⟩ := hcommitted
    obtain ⟨f, hf, -⟩ := (h sha256OfA pool _ hreach hc).1 row hrow hfin
    cases hf
  exact hlost (blobSchedule sha256OfA BlobRequest.puts (putsACalls true 6 ++ putsACalls false 9))
    (reach_blobSchedule Machine.meets_true) (by decide +kernel) (by decide +kernel)

end MilpbookLM
