/-
One pass of the garbage collection with nobody else at work, over any files and any rows. A
pass is a filter: it drops the unreferenced objects and the temporaries of the safety
delay's age, leaves the rows, and its report counts what it dropped, what was too young to
drop, and the referenced rows whose object is missing or spoilt (`GcPass`). A second
pass at the same time drops nothing and counts the same (`collectGarbage_twice`).

"Referenced" is said of finalized rows only. A row in another state keeps no file
from being collected, and is no incident where its file is missing.
-/
import MilpbookLM.Blobs.Store
import MilpbookLM.Lib.Serial

namespace MilpbookLM

open Interleave Prog

/-- Alone at one time, the program comes to an outcome and a world that `Q` admits. -/
def BlobProgram.Ends {α : Type} (env : BlobEnv) (x : BlobProgram α) (Q : Except BlobError α → BlobWorld → Prop)
    (w : BlobWorld) : Prop :=
  Prog.Ends (fun c env w => BlobCall.exec env c w) env x.run Q w

namespace BlobProgram

variable {α β : Type} {env : BlobEnv} {w : BlobWorld}

theorem ends_call {c : BlobCall} {f : BlobAnswer c → BlobProgram β} {Q : Except BlobError β → BlobWorld → Prop} :
    (c.perform >>= f).Ends env Q w ↔ (f (c.exec env w).1).Ends env Q (c.exec env w).2 := Iff.rfl

theorem ends_pure {a : α} {Q : Except BlobError α → BlobWorld → Prop} :
    (pure a : BlobProgram α).Ends env Q w ↔ Q (.ok a) w := Iff.rfl

theorem Ends.mono {x : BlobProgram α} {Q Q' : Except BlobError α → BlobWorld → Prop} (h : x.Ends env Q w)
    (hQ : ∀ r w, Q r w → Q' r w) : x.Ends env Q' w := Prog.Ends.mono h hQ

theorem ends_bind {x : BlobProgram α} {f : α → BlobProgram β} {Q : Except BlobError β → BlobWorld → Prop} :
    (x >>= f).Ends env Q w ↔
      x.Ends env (fun r w => match r with | .ok a => (f a).Ends env Q w | .error e => Q (.error e) w) w :=
  Prog.ends_bind.trans ⟨fun h => Prog.Ends.mono h fun r _ hr => by cases r <;> exact hr,
    fun h => Prog.Ends.mono h fun r _ hr => by cases r <;> exact hr⟩

theorem ends_forM_cons {a : α} {as : List α} {f : α → BlobProgram PUnit}
    {Q : Except BlobError PUnit → BlobWorld → Prop} :
    BlobProgram.Ends env ((a :: as).forM f) Q w ↔ (f a).Ends env
      (fun r w => match r with | .ok _ => BlobProgram.Ends env (as.forM f) Q w | .error e => Q (.error e) w) w := by
  refine (ends_bind (x := f a) (f := fun _ => as.forM f)).trans ⟨fun h => h.mono fun r _ hr => ?_,
    fun h => h.mono fun r _ hr => ?_⟩ <;> cases r <;> exact hr

end BlobProgram

/-! ## What a pass may drop -/

namespace BlobWorld

variable (w : BlobWorld)

/-- A finalized row with a reference. -/
def referenced (row : BlobObject) : Bool := row.state = .finalized && w.blobReferences.any (·.blobId = row.id)

/-- No referenced row has the digest of the object. -/
def unreferenced (f : ObjectFile) : Bool :=
  !w.blobObjects.any fun row => row.contentSha256 = f.contentSha256 && w.referenced row

/-- What an object's age is reckoned from: the time its row was finalized, or its mtime. -/
def anchor (f : ObjectFile) : Time :=
  ((w.blobObjects.find? (·.contentSha256 = f.contentSha256)).bind fun row =>
    if row.state = .finalized then row.finalizedAt else none).getD f.mtime

/-- As old as the safety delay, or older. -/
def aged (delay now t : Time) : Bool := delay ≤ now - t

/-- What a pass drops. -/
def doomed (delay now : Time) (f : ObjectFile) : Bool := w.unreferenced f && aged delay now (w.anchor f)

/-- The object of the row is missing, or has another digest or size. -/
def spoilt (sha256 : Bytes → String) (row : BlobObject) : Bool :=
  match w.object? row.contentSha256 with
  | none => true
  | some f => sha256 f.content ≠ row.contentSha256 || f.content.length ≠ row.sizeBytes

/-- The objects but for what of them is durable. -/
def files : List (String × Bytes × Time) := w.objects.map fun f => (f.contentSha256, f.content, f.mtime)

/-- Names of files and digests of rows are unique. -/
structure Laid : Prop where
  temporaries : Table.Keyed (·.name) w.temporaries
  objects : Table.Keyed (·.contentSha256) w.objects
  rows : Table.Keyed (·.contentSha256) w.blobObjects

end BlobWorld

/-- What a pass at `now` makes of `w`, and what it reports. -/
structure GcPass (sha256 : Bytes → String) (delay now : Time) (w w' : BlobWorld) (report : GcReport) : Prop where
  objects : w'.files = (w.objects.filter fun f => !w.doomed delay now f).map fun f =>
    (f.contentSha256, f.content, f.mtime)
  temporaries : w'.temporaries = w.temporaries.filter fun t => !BlobWorld.aged delay now t.mtime
  rows : w'.blobObjects = w.blobObjects
  references : w'.blobReferences = w.blobReferences
  deletedFinals : report.deletedFinals = w.objects.countP (w.doomed delay now)
  sweptTemps : report.sweptTemps = w.temporaries.countP fun t => BlobWorld.aged delay now t.mtime
  pendingSafetyDelay : report.pendingSafetyDelay =
    w.temporaries.countP (fun t => !BlobWorld.aged delay now t.mtime) +
      w.objects.countP fun f => w.unreferenced f && !BlobWorld.aged delay now (w.anchor f)
  integrityIncidents : report.integrityIncidents =
    w.blobObjects.countP fun row => w.referenced row && w.spoilt sha256 row

/-! ## The scan -/

section Scan

variable {sha256 : Bytes → String} {env : BlobEnv} {w : BlobWorld}

/-- What `verify_content` raises. -/
def verifyError (sha256 : Bytes → String) (w : BlobWorld) (contentSha256 : String) (sizeBytes : Nat) :
    Option BlobError :=
  match w.object? contentSha256 with
  | none => some (.integrity s!"finalized object {contentSha256} is missing on disk")
  | some f =>
    if sha256 f.content ≠ contentSha256 || f.content.length ≠ sizeBytes then
      some (.integrity (s!"finalized object {contentSha256} failed its integrity check " ++
        s!"(expected {sizeBytes} bytes, found {f.content.length})"))
    else none

theorem verifyError_isSome {row : BlobObject} :
    (verifyError sha256 w row.contentSha256 row.sizeBytes).isSome = w.spoilt sha256 row := by
  unfold verifyError BlobWorld.spoilt
  cases w.object? row.contentSha256 with
  | none => rfl
  | some f =>
    simp only
    split <;> simp_all

theorem verifyContent_ends {contentSha256 : String} {sizeBytes : Nat} {Q : Except BlobError Unit → BlobWorld → Prop} :
    (verifyContent sha256 contentSha256 sizeBytes).Ends env Q w ↔
      Q (match verifyError sha256 w contentSha256 sizeBytes with | some e => .error e | none => .ok ()) w := by
  unfold verifyContent verifyError
  rw [BlobProgram.ends_call]
  simp only [BlobCall.exec]
  cases w.object? contentSha256 with
  | none => exact Iff.rfl
  | some f =>
    simp only [Option.map_some]
    split <;> exact Iff.rfl

/-- The findings of one referenced object. -/
def scanFindings (sha256 : Bytes → String) (w : BlobWorld) (obj : BlobObject) : List ReconciliationFinding :=
  match verifyError sha256 w obj.contentSha256 obj.sizeBytes with
  | none => []
  | some e => [{
      kind := .missingReferenced, blobId := some obj.id, contentSha256 := some obj.contentSha256
      storagePath := some obj.storagePath, finalizedAt := obj.finalizedAt, filePresent := true
      detail := s!"integrity scan failed: {e.text}" }]

theorem integrityScan_ends {obj : BlobObject} {Q : Except BlobError (List ReconciliationFinding) → BlobWorld → Prop} :
    (integrityScan sha256 obj).Ends env Q w ↔ Q (.ok (scanFindings sha256 w obj)) w := by
  unfold integrityScan BlobProgram.Ends
  rw [ends_tryCatch]
  refine BlobProgram.ends_bind.trans ?_
  rw [verifyContent_ends]
  unfold scanFindings
  cases verifyError sha256 w obj.contentSha256 obj.sizeBytes with
  | none => exact Iff.rfl
  | some e => exact Iff.rfl

/-- The findings of one object on disk. -/
def finalFindings (sha256 : Bytes → String) (w : BlobWorld) (f : ObjectFile) : List ReconciliationFinding :=
  match w.blobObjects.find? (·.contentSha256 = f.contentSha256) with
  | none => [{
      kind := .unreferencedFinal, blobId := none, contentSha256 := some f.contentSha256
      storagePath := none, finalizedAt := some f.mtime, filePresent := true
      detail := "finalized object on disk without a finalized record" }]
  | some obj =>
    if obj.state ≠ .finalized then [{
      kind := .unreferencedFinal, blobId := some obj.id, contentSha256 := some f.contentSha256
      storagePath := some obj.storagePath, finalizedAt := some f.mtime, filePresent := true
      detail := "finalized object on disk without a finalized record" }]
    else if w.blobReferences.any (·.blobId = obj.id) then scanFindings sha256 w obj
    else [{
      kind := .unreferencedFinal, blobId := some obj.id, contentSha256 := some f.contentSha256
      storagePath := some obj.storagePath, finalizedAt := some (obj.finalizedAt.getD f.mtime)
      filePresent := true, detail := "finalized object has no references" }]

/-- The counts of the references by their blob. -/
def BlobWorld.counts (w : BlobWorld) : List (Nat × Nat) :=
  (w.blobReferences.map (·.blobId)).dedup.map fun id => (id, w.blobReferences.countP (·.blobId = id))

theorem refCount_counts (id : Nat) : refCount w.counts id = w.blobReferences.countP (·.blobId = id) := by
  unfold refCount BlobWorld.counts
  by_cases h : id ∈ (w.blobReferences.map (·.blobId)).dedup
  · rw [List.lookup_graph _ h, Option.getD_some]
  · have hnone : ∀ p ∈ (w.blobReferences.map (·.blobId)).dedup.map fun id =>
        (id, w.blobReferences.countP (·.blobId = id)), (id != p.1) = true := by
      intro p hp
      obtain ⟨id', hid', rfl⟩ := List.mem_map.1 hp
      exact bne_iff_ne.2 fun he => h (he ▸ hid')
    rw [List.lookup_eq_none_iff.2 hnone, Option.getD_none, eq_comm, List.countP_eq_zero]
    intro ref href hid
    simp only [decide_eq_true_eq] at hid
    exact h (List.mem_dedup.2 (List.mem_map.2 ⟨ref, href, hid⟩))

theorem refCount_pos {id : Nat} : 0 < refCount w.counts id ↔ w.blobReferences.any (·.blobId = id) = true := by
  rw [refCount_counts, List.countP_pos_iff, List.any_eq_true]

theorem classifyFinal_ends {f : ObjectFile} {Q : Except BlobError (List ReconciliationFinding) → BlobWorld → Prop} :
    (classifyFinal sha256 w.blobObjects w.counts ⟨f.contentSha256, f.content.length, f.mtime⟩).Ends env Q w ↔
      Q (.ok (finalFindings sha256 w f)) w := by
  unfold classifyFinal finalFindings
  cases w.blobObjects.find? (·.contentSha256 = f.contentSha256) with
  | none => exact Iff.rfl
  | some obj =>
    simp only
    split
    · exact Iff.rfl
    · by_cases href : w.blobReferences.any (·.blobId = obj.id) = true
      · have hpos := refCount_pos.2 href
        rw [if_neg (by omega), if_pos href]
        exact integrityScan_ends
      · have hzero : refCount w.counts obj.id = 0 := Nat.eq_zero_of_not_pos (mt refCount_pos.1 href)
        rw [if_pos hzero, if_neg href]
        exact Iff.rfl

theorem classifyFinals_ends (fs : List ObjectFile)
    {Q : Except BlobError (List ReconciliationFinding) → BlobWorld → Prop} :
    (classifyFinals sha256 w.blobObjects w.counts (fs.map fun f => ⟨f.contentSha256, f.content.length, f.mtime⟩)).Ends
        env Q w ↔ Q (.ok (fs.flatMap (finalFindings sha256 w))) w := by
  induction fs generalizing Q with
  | nil => exact Iff.rfl
  | cons f fs ih =>
    simp only [List.map_cons, classifyFinals, List.flatMap_cons]
    rw [BlobProgram.ends_bind, classifyFinal_ends]
    refine BlobProgram.ends_bind.trans ?_
    rw [ih]
    exact Iff.rfl

/-- The rows that have no object. -/
def rowFindings (w : BlobWorld) : List ReconciliationFinding :=
  classifyRows w.blobObjects (w.objects.map fun f => ⟨f.contentSha256, f.content.length, f.mtime⟩) w.counts

/-- All findings of a scan. -/
def BlobWorld.findings (sha256 : Bytes → String) (w : BlobWorld) : List ReconciliationFinding :=
  classifyTemporaries (w.temporaries.map fun t => ⟨.temporary t.name, t.mtime⟩) ++
    w.objects.flatMap (finalFindings sha256 w) ++ rowFindings w

/-- **A scan changes nothing.** -/
theorem reconcileBlobs_ends {Q : Except BlobError ReconciliationReport → BlobWorld → Prop} :
    (reconcileBlobs sha256).Ends env Q w ↔ Q (.ok ⟨env.clock, w.findings sha256⟩) w := by
  unfold reconcileBlobs
  simp only [BlobProgram.ends_call, BlobCall.exec]
  rw [BlobProgram.ends_bind]
  exact classifyFinals_ends w.objects

end Scan

/-! ## The deletions -/

section Deletions

variable {env : BlobEnv} {w w' : BlobWorld} {delay now : Time}

theorem sweepTemporary_ends {t : TemporaryStats} {name : Nat} (hname : t.relativePath = .temporary name)
    {f : ReconciliationFinding} (hf : f.finalizedAt = some t.mtime) (hpath : f.storagePath = some t.relativePath)
    {Q : Except BlobError Unit → BlobWorld → Prop} :
    (sweepTemporary now delay f).Ends env Q w ↔
      Q (.ok ()) { w with temporaries := w.temporaries.filter fun s =>
        !(BlobWorld.aged delay now t.mtime && s.name = name) } := by
  unfold sweepTemporary gcEligible BlobWorld.aged
  simp only [hf, hpath, hname, deleteTemporary]
  by_cases hold : delay ≤ now - t.mtime
  · simp only [hold, decide_true, Bool.true_and]
    refine Iff.of_eq (congrArg (fun ts => Q (.ok ()) { w with temporaries := ts }) ?_)
    exact List.filter_congr fun s _ => by simp
  · simp only [hold, decide_false, Bool.false_and, Bool.not_false, List.filter_true, Bool.false_eq_true]
    exact Iff.rfl

/-- The sweep drops what is old of the temporaries found. -/
theorem sweep_ends (ts : List Temporary) {Q : Except BlobError PUnit → BlobWorld → Prop} :
    BlobProgram.Ends env ((classifyTemporaries (ts.map fun t => ⟨.temporary t.name, t.mtime⟩)).forM
        (sweepTemporary now delay)) Q w ↔
      Q (.ok ⟨⟩) { w with temporaries := w.temporaries.filter fun s =>
        !(ts.any fun t => BlobWorld.aged delay now t.mtime && s.name = t.name) } := by
  induction ts generalizing w Q with
  | nil => simp [classifyTemporaries, BlobProgram.ends_pure]
  | cons t ts ih =>
    simp only [classifyTemporaries, List.map_cons] at ih ⊢
    rw [BlobProgram.ends_forM_cons, sweepTemporary_ends (t := ⟨.temporary t.name, t.mtime⟩) rfl rfl rfl]
    simp only
    rw [ih]
    simp only [List.filter_filter, List.any_cons, Bool.not_or, Bool.and_comm]

/-- The worlds agree but for their objects. -/
structure FilesOnly (w w' : BlobWorld) : Prop where
  temporaries : w'.temporaries = w.temporaries
  rows : w'.blobObjects = w.blobObjects
  references : w'.blobReferences = w.blobReferences

/-- One deletion of an object. -/
theorem deleteFinal_ends {contentSha256 : String} :
    (deleteFinal contentSha256).Ends env (fun r w' => r = .ok () ∧
      w'.files = w.files.filter (fun f => f.1 ≠ contentSha256) ∧ FilesOnly w w') w := by
  have hdrop : ({ w with objects := w.objects.filter (·.contentSha256 ≠ contentSha256) } : BlobWorld).files =
      w.files.filter (fun f => f.1 ≠ contentSha256) := by
    simp [BlobWorld.files, List.filter_map, Function.comp_def]
  have hcalls : ∀ Q : Except BlobError Unit → BlobWorld → Prop, (deleteFinal contentSha256).Ends env Q w ↔
      BlobProgram.Ends env (if w.buckets.any (·.name = bucketOf contentSha256) then
          (BlobCall.fsyncBucket contentSha256).perform else pure ()) Q
        { w with objects := w.objects.filter (·.contentSha256 ≠ contentSha256) } := fun Q => Iff.rfl
  rw [hcalls]
  split
  · refine ⟨rfl, ?_, ⟨rfl, rfl, rfl⟩⟩
    rw [← hdrop]
    simp only [BlobWorld.files, BlobCall.exec, Table.update, List.map_map]
    refine List.map_congr_left fun f _ => ?_
    simp only [Function.comp]
    split <;> rfl
  · exact ⟨rfl, hdrop, ⟨rfl, rfl, rfl⟩⟩

/-- The object that a finding lets a pass delete. -/
def names (delay now : Time) (finding : ReconciliationFinding) (contentSha256 : String) : Bool :=
  finding.filePresent && gcEligible finding.finalizedAt now delay && finding.contentSha256 = some contentSha256

theorem collectFinal_ends (finding : ReconciliationFinding) :
    (collectFinal now delay finding).Ends env (fun r w' => r = .ok () ∧
      w'.files = w.files.filter (fun f => !names delay now finding f.1) ∧ FilesOnly w w') w := by
  unfold collectFinal names
  by_cases hact : (finding.filePresent && gcEligible finding.finalizedAt now delay) = true
  · simp only [hact, Bool.true_and]
    cases hsha : finding.contentSha256 with
    | none => exact ⟨rfl, by simp, ⟨rfl, rfl, rfl⟩⟩
    | some sha =>
      refine deleteFinal_ends.mono fun r w' h => ⟨h.1, h.2.1.trans ?_, h.2.2⟩
      exact List.filter_congr fun f _ => by simp [eq_comm]
  · simp only [Bool.not_eq_true] at hact
    simp only [hact, Bool.false_and]
    exact ⟨rfl, by simp, ⟨rfl, rfl, rfl⟩⟩

theorem collectFinals_ends (findings : List ReconciliationFinding) :
    BlobProgram.Ends env (findings.forM (collectFinal now delay)) (fun r w' => r = .ok ⟨⟩ ∧
      w'.files = w.files.filter (fun f => !findings.any fun finding => names delay now finding f.1) ∧
      FilesOnly w w') w := by
  induction findings generalizing w with
  | nil => exact ⟨rfl, by simp, ⟨rfl, rfl, rfl⟩⟩
  | cons finding findings ih =>
    rw [BlobProgram.ends_forM_cons]
    refine (collectFinal_ends finding).mono fun r w' h => ?_
    obtain ⟨rfl, hfiles, hbeside⟩ := h
    refine ih.mono fun r w'' h => ⟨h.1, ?_, ?_⟩
    · rw [h.2.1, hfiles, List.filter_filter]
      exact List.filter_congr fun f _ => by simp [Bool.and_comm]
    · exact ⟨h.2.2.temporaries.trans hbeside.temporaries, h.2.2.rows.trans hbeside.rows,
        h.2.2.references.trans hbeside.references⟩

end Deletions

/-! ## What a scan finds -/

/-- Each element with `q` makes one that `p` counts, and no other does. -/
theorem countP_flatMap_of {α β : Type} {l : List α} {g : α → List β} {p : β → Bool} {q : α → Bool}
    (h : ∀ a ∈ l, (g a).countP p = if q a then 1 else 0) : (l.flatMap g).countP p = l.countP q := by
  induction l with
  | nil => rfl
  | cons a l ih =>
    rw [List.flatMap_cons, List.countP_append, List.countP_cons, h a List.mem_cons_self,
      ih fun b hb => h b (List.mem_cons_of_mem _ hb), Nat.add_comm]

/-- Rows of two tables that stand for each other under their keys. -/
theorem countP_eq_of_keys {α β κ : Type} [DecidableEq κ] {key : α → κ} {key' : β → κ} {l : List α} {m : List β}
    {p : α → Bool} {q : β → Bool} (hl : (l.map key).Nodup) (hm : (m.map key').Nodup)
    (h : ∀ k, (∃ a ∈ l, p a = true ∧ key a = k) ↔ ∃ b ∈ m, q b = true ∧ key' b = k) : l.countP p = m.countP q := by
  have hperm : ((l.filter p).map key).Perm ((m.filter q).map key') := by
    refine (List.perm_ext_iff_of_nodup (hl.sublist (List.filter_sublist.map _))
      (hm.sublist (List.filter_sublist.map _))).2 fun k => ?_
    simpa [and_assoc] using h k
  simpa [List.countP_eq_length_filter] using hperm.length_eq

section Findings

variable {sha256 : Bytes → String} {w : BlobWorld} {delay now : Time}

/-- The one row of a digest. -/
theorem any_digest (hrows : Table.Keyed (·.contentSha256) w.blobObjects) {sha : String} {p : BlobObject → Bool}
    {obj : BlobObject} (hfind : w.blobObjects.find? (·.contentSha256 = sha) = some obj) :
    (w.blobObjects.any fun row => row.contentSha256 = sha && p row) = p obj := by
  have hsha : obj.contentSha256 = sha := by simpa using List.find?_some hfind
  have hmem := List.mem_of_find?_eq_some hfind
  rw [Bool.eq_iff_iff, List.any_eq_true]
  constructor
  · intro ⟨row, hrow, h⟩
    simp only [Bool.and_eq_true, decide_eq_true_eq] at h
    have heq : row = obj := List.inj_on_of_nodup_map hrows hrow hmem (h.1.trans hsha.symm)
    exact heq ▸ h.2
  · intro h
    exact ⟨obj, hmem, by simp [hsha, h]⟩

variable (sha256) in
/-- What a scan says of an object: unreferenced, with its anchor, or what the check of its
bytes says. -/
theorem finalFindings_cases (hrows : Table.Keyed (·.contentSha256) w.blobObjects) (f : ObjectFile) :
    (w.unreferenced f = true ∧ ∃ finding, finalFindings sha256 w f = [finding] ∧
      finding.kind = .unreferencedFinal ∧ finding.contentSha256 = some f.contentSha256 ∧
      finding.finalizedAt = some (w.anchor f) ∧ finding.filePresent = true) ∨
    (w.unreferenced f = false ∧ ∃ obj, w.blobObjects.find? (·.contentSha256 = f.contentSha256) = some obj ∧
      w.referenced obj = true ∧ finalFindings sha256 w f = scanFindings sha256 w obj) := by
  unfold finalFindings BlobWorld.anchor BlobWorld.unreferenced
  cases hfind : w.blobObjects.find? (·.contentSha256 = f.contentSha256) with
  | none =>
    have hnone : ∀ row ∈ w.blobObjects, row.contentSha256 ≠ f.contentSha256 := by simpa using hfind
    refine .inl ⟨?_, _, rfl, rfl, rfl, rfl, rfl⟩
    simp only [Bool.not_eq_true', List.any_eq_false]
    intro row hrow
    simp [hnone row hrow]
  | some obj =>
    rw [any_digest hrows hfind]
    by_cases hstate : obj.state = .finalized
    · cases href : w.blobReferences.any (·.blobId = obj.id) with
      | true =>
        simp only [BlobWorld.referenced, hstate, href, ne_eq, not_true_eq_false, if_false, if_true, decide_true,
          Bool.and_self]
        exact .inr ⟨rfl, obj, rfl, by simp [hstate, href], rfl⟩
      | false =>
        simp only [BlobWorld.referenced, hstate, href, ne_eq, not_true_eq_false, if_false, decide_true,
          Bool.and_false, Option.bind_some, if_true, Bool.false_eq_true]
        exact .inl ⟨rfl, _, rfl, rfl, rfl, rfl, rfl⟩
    · simp only [BlobWorld.referenced, hstate, ne_eq, not_false_eq_true, if_true, decide_false, Bool.false_and,
        Option.bind_some, if_false]
      exact .inl ⟨rfl, _, rfl, rfl, rfl, rfl, rfl⟩

variable (sha256 w) in
/-- What the check of a referenced object's bytes says. -/
theorem scanFindings_cases (obj : BlobObject) :
    (w.spoilt sha256 obj = false ∧ scanFindings sha256 w obj = []) ∨
    (w.spoilt sha256 obj = true ∧ ∃ finding, scanFindings sha256 w obj = [finding] ∧
      finding.kind = .missingReferenced) := by
  rw [← verifyError_isSome]
  unfold scanFindings
  cases verifyError sha256 w obj.contentSha256 obj.sizeBytes with
  | none => exact .inl ⟨rfl, rfl⟩
  | some e => exact .inr ⟨rfl, _, rfl, rfl⟩

/-- Findings of the object directory that `p` counts, where `p` counts what is present and unreferenced. -/
theorem countP_finals (hrows : Table.Keyed (·.contentSha256) w.blobObjects) (p : Option Time → Bool) :
    (w.objects.flatMap (finalFindings sha256 w)).countP
        (fun finding => finding.kind = .unreferencedFinal && finding.filePresent && p finding.finalizedAt) =
      w.objects.countP fun f => w.unreferenced f && p (some (w.anchor f)) := by
  refine countP_flatMap_of fun f _ => ?_
  rcases finalFindings_cases sha256 hrows f with
    ⟨hun, finding, heq, hkind, _, hanchor, hpresent⟩ | ⟨href, obj, _, _, heq⟩
  · simp [heq, hkind, hanchor, hpresent, hun]
  · rcases scanFindings_cases sha256 w obj with ⟨_, hnil⟩ | ⟨_, finding, hone, hkind⟩
    · simp [heq, hnil, href]
    · simp [heq, hone, hkind, href]

/-- The object under its digest. -/
theorem object?_of_mem (hobjects : Table.Keyed (·.contentSha256) w.objects) {f : ObjectFile} (hf : f ∈ w.objects) :
    w.object? f.contentSha256 = some f := by
  cases hfind : w.object? f.contentSha256 with
  | none => simpa using List.find?_eq_none.1 hfind f hf
  | some g =>
    have hsha : g.contentSha256 = f.contentSha256 := by simpa using List.find?_some hfind
    rw [List.inj_on_of_nodup_map hobjects (List.mem_of_find?_eq_some hfind) hf hsha]

/-- The incidents among the objects on disk are those of the rows that have one. -/
theorem countP_incidents (hlaid : w.Laid) :
    (w.objects.flatMap (finalFindings sha256 w)).countP (fun finding => finding.kind = .missingReferenced) =
      w.blobObjects.countP fun row =>
        w.referenced row && w.spoilt sha256 row && (w.object? row.contentSha256).isSome := by
  have hfiles : (w.objects.flatMap (finalFindings sha256 w)).countP
        (fun finding => finding.kind = .missingReferenced) =
      w.objects.countP fun f => w.blobObjects.any fun row =>
        row.contentSha256 = f.contentSha256 && (w.referenced row && w.spoilt sha256 row) := by
    refine countP_flatMap_of fun f _ => ?_
    rcases finalFindings_cases sha256 hlaid.rows f with
      ⟨hun, finding, heq, hkind, _⟩ | ⟨_, obj, hfind, href, heq⟩
    · have hnone : (w.blobObjects.any fun row =>
          row.contentSha256 = f.contentSha256 && (w.referenced row && w.spoilt sha256 row)) = false := by
        simp only [BlobWorld.unreferenced, Bool.not_eq_true', List.any_eq_false] at hun ⊢
        intro row hrow
        have := hun row hrow
        simp only [Bool.and_eq_true, not_and, decide_eq_true_eq] at this ⊢
        intro hsha href
        exact absurd href (this hsha)
      simp [heq, hkind, hnone]
    · rw [any_digest hlaid.rows hfind, href, Bool.true_and, heq]
      rcases scanFindings_cases sha256 w obj with ⟨hsound, hnil⟩ | ⟨hspoilt, finding, hone, hkind⟩
      · simp [hnil, hsound]
      · simp [hone, hkind, hspoilt]
  rw [hfiles]
  refine countP_eq_of_keys hlaid.objects hlaid.rows fun sha => ?_
  constructor
  · intro ⟨f, hf, hany, hsha⟩
    obtain ⟨row, hrow, h⟩ := List.any_eq_true.1 hany
    simp only [Bool.and_eq_true, decide_eq_true_eq] at h
    have hobject := object?_of_mem hlaid.objects hf
    exact ⟨row, hrow, by simp [h.2.1, h.2.2, h.1, hobject], h.1.trans hsha⟩
  · intro ⟨row, hrow, h, hsha⟩
    simp only [Bool.and_eq_true, Option.isSome_iff_exists] at h
    obtain ⟨⟨href, hspoilt⟩, f, hobject⟩ := h
    have hf : f.contentSha256 = row.contentSha256 := by simpa using List.find?_some hobject
    exact ⟨f, List.mem_of_find?_eq_some hobject, List.any_eq_true.2 ⟨row, hrow, by simp [hf, href, hspoilt]⟩,
      hf.trans hsha⟩

/-- The findings among the rows: none is of a file, and those that are incidents are the
referenced rows without an object. -/
theorem rowFindings_absent :
    ∀ finding ∈ rowFindings w, finding.filePresent = false ∧ finding.kind ≠ .orphanTemporary := by
  intro finding hmem
  simp only [rowFindings, classifyRows, List.mem_map] at hmem
  obtain ⟨row, _, rfl⟩ := hmem
  split <;> simp

theorem countP_rows : (rowFindings w).countP (fun finding => finding.kind = .missingReferenced) =
    w.blobObjects.countP fun row => w.referenced row && (w.object? row.contentSha256).isNone := by
  rw [rowFindings, classifyRows, List.countP_map, List.countP_filter]
  refine List.countP_congr fun row _ => ?_
  have hfile : ((w.objects.map fun f => (⟨f.contentSha256, f.content.length, f.mtime⟩ : StoredObjectStats)).any
      (·.contentSha256 = row.contentSha256)) = (w.object? row.contentSha256).isSome := by
    rw [Bool.eq_iff_iff, BlobWorld.object?, List.find?_isSome, List.any_map, List.any_eq_true]
    rfl
  simp only [Function.comp, hfile, BlobWorld.referenced]
  cases href : w.blobReferences.any (·.blobId = row.id) with
  | true =>
    have hpos := refCount_pos.2 href
    simp [hpos]
  | false =>
    have hzero : ¬ 0 < refCount w.counts row.id := fun hpos => by simp [refCount_pos.1 hpos] at href
    simp [hzero]

/-- **The incidents of a scan** are the referenced rows whose object is missing or spoilt. -/
theorem countP_missing (hlaid : w.Laid) :
    (w.findings sha256).countP (fun finding => finding.kind = .missingReferenced) =
      w.blobObjects.countP fun row => w.referenced row && w.spoilt sha256 row := by
  have htemps : (classifyTemporaries (w.temporaries.map fun t => ⟨.temporary t.name, t.mtime⟩)).countP
      (fun finding => finding.kind = .missingReferenced) = 0 := by
    simp [classifyTemporaries, List.countP_eq_zero]
  rw [BlobWorld.findings, List.countP_append, List.countP_append, htemps, countP_incidents hlaid, countP_rows,
    Nat.zero_add]
  have hsplit : ∀ rows : List BlobObject,
      rows.countP (fun row => w.referenced row && w.spoilt sha256 row && (w.object? row.contentSha256).isSome) +
        rows.countP (fun row => w.referenced row && (w.object? row.contentSha256).isNone) =
      rows.countP fun row => w.referenced row && w.spoilt sha256 row := by
    intro rows
    induction rows with
    | nil => rfl
    | cons row rows ih =>
      simp only [List.countP_cons, ← ih]
      cases hobject : w.object? row.contentSha256 with
      | none =>
        have hspoilt : w.spoilt sha256 row = true := by simp [BlobWorld.spoilt, hobject]
        simp [hspoilt]
        omega
      | some f =>
        simp
        omega
  exact hsplit _

theorem classifyTemporaries_kind {ts : List TemporaryStats} :
    ∀ finding ∈ classifyTemporaries ts, finding.kind = .orphanTemporary := by
  intro finding hmem
  simp only [classifyTemporaries, List.mem_map] at hmem
  obtain ⟨t, _, rfl⟩ := hmem
  rfl

/-- A finding of the object directory is of an unreferenced object, or an incident. -/
theorem mem_finals (hrows : Table.Keyed (·.contentSha256) w.blobObjects) {finding : ReconciliationFinding}
    (hmem : finding ∈ w.objects.flatMap (finalFindings sha256 w)) : finding.kind = .missingReferenced ∨
      finding.kind = .unreferencedFinal ∧ ∃ f ∈ w.objects, w.unreferenced f = true ∧
        finding.contentSha256 = some f.contentSha256 ∧ finding.finalizedAt = some (w.anchor f) := by
  obtain ⟨f, hf, hmem⟩ := List.mem_flatMap.1 hmem
  rcases finalFindings_cases sha256 hrows f with
    ⟨hun, g, heq, hkind, hsha, hanchor, _⟩ | ⟨_, obj, _, _, heq⟩
  · obtain rfl : finding = g := by simpa [heq] using hmem
    exact .inr ⟨hkind, f, hf, hun, hsha, hanchor⟩
  · rcases scanFindings_cases sha256 w obj with ⟨_, hnil⟩ | ⟨_, g, hone, hkind⟩
    · simp [heq, hnil] at hmem
    · obtain rfl : finding = g := by simpa [heq, hone] using hmem
      exact .inl hkind

/-- A scan's temporaries are its findings of that kind. -/
theorem findings_temporaries (hlaid : w.Laid) :
    (w.findings sha256).filter (fun finding => finding.kind = .orphanTemporary) =
      classifyTemporaries (w.temporaries.map fun t => ⟨.temporary t.name, t.mtime⟩) := by
  have hfinals : (w.objects.flatMap (finalFindings sha256 w)).filter
      (fun finding => finding.kind = .orphanTemporary) = [] := by
    refine List.filter_eq_nil_iff.2 fun finding hmem => ?_
    rcases mem_finals hlaid.rows hmem with hkind | ⟨hkind, _⟩ <;> simp [hkind]
  have hrows : (rowFindings w).filter (fun finding => finding.kind = .orphanTemporary) = [] :=
    List.filter_eq_nil_iff.2 fun finding hmem => by simp [(rowFindings_absent finding hmem).2]
  rw [BlobWorld.findings, List.filter_append, List.filter_append, hfinals, hrows, List.append_nil, List.append_nil]
  exact List.filter_eq_self.2 fun finding hmem => by simp [classifyTemporaries_kind finding hmem]

/-- Findings that are unreferenced and present are of objects on disk. -/
theorem countP_unreferenced (hlaid : w.Laid) (p : Option Time → Bool) :
    (w.findings sha256).countP
        (fun finding => finding.kind = .unreferencedFinal && finding.filePresent && p finding.finalizedAt) =
      w.objects.countP fun f => w.unreferenced f && p (some (w.anchor f)) := by
  have htemps : (classifyTemporaries (w.temporaries.map fun t => ⟨.temporary t.name, t.mtime⟩)).countP
      (fun finding => finding.kind = .unreferencedFinal && finding.filePresent && p finding.finalizedAt) = 0 :=
    List.countP_eq_zero.2 fun finding hmem => by simp [classifyTemporaries_kind finding hmem]
  have hrows : (rowFindings w).countP
      (fun finding => finding.kind = .unreferencedFinal && finding.filePresent && p finding.finalizedAt) = 0 :=
    List.countP_eq_zero.2 fun finding hmem => by simp [(rowFindings_absent finding hmem).1]
  rw [BlobWorld.findings, List.countP_append, List.countP_append, htemps, hrows, countP_finals hlaid.rows, Nat.zero_add,
    Nat.add_zero]

theorem countP_present (hlaid : w.Laid) (p : Option Time → Bool) :
    (((w.findings sha256).filter fun finding => finding.kind = .unreferencedFinal).filter (·.filePresent)).countP
        (fun finding => p finding.finalizedAt) =
      w.objects.countP fun f => w.unreferenced f && p (some (w.anchor f)) := by
  rw [← countP_unreferenced hlaid, List.countP_filter, List.countP_filter]
  refine List.countP_congr fun finding _ => ?_
  simp only [Bool.and_eq_true]
  exact ⟨fun h => ⟨⟨h.2, h.1.2⟩, h.1.1⟩, fun h => ⟨⟨h.2, h.1.2⟩, h.1.1⟩⟩

/-- What the findings let a pass delete is what is doomed. -/
theorem names_iff_doomed (hlaid : w.Laid) {f : ObjectFile} (hf : f ∈ w.objects) :
    (((w.findings sha256).filter fun finding => finding.kind = .unreferencedFinal).any fun finding =>
      names delay now finding f.contentSha256) = w.doomed delay now f := by
  rw [Bool.eq_iff_iff, List.any_eq_true]
  constructor
  · intro ⟨finding, hmem, hnames⟩
    simp only [List.mem_filter, BlobWorld.findings, List.mem_append, decide_eq_true_eq] at hmem
    simp only [names, Bool.and_eq_true, decide_eq_true_eq] at hnames
    obtain ⟨⟨hpresent, hage⟩, hsha⟩ := hnames
    rcases hmem with ⟨(hmem | hmem) | hmem, hkind⟩
    · rw [classifyTemporaries_kind finding hmem] at hkind
      cases hkind
    · rcases mem_finals hlaid.rows hmem with hmissing | ⟨_, g, hg, hun, hsha', hanchor⟩
      · rw [hmissing] at hkind
        cases hkind
      · have hgf : g = f := List.inj_on_of_nodup_map hlaid.objects hg hf
          (Option.some.inj (hsha'.symm.trans hsha))
        subst hgf
        rw [hanchor] at hage
        simp only [BlobWorld.doomed, hun, Bool.true_and]
        exact hage
    · rw [(rowFindings_absent finding hmem).1] at hpresent
      cases hpresent
  · intro hdoomed
    simp only [BlobWorld.doomed, Bool.and_eq_true] at hdoomed
    rcases finalFindings_cases sha256 hlaid.rows f with
      ⟨_, finding, heq, hkind, hsha, hanchor, hpresent⟩ | ⟨href, _⟩
    · have hmem : finding ∈ w.objects.flatMap (finalFindings sha256 w) :=
        List.mem_flatMap.2 ⟨f, hf, by simp [heq]⟩
      refine ⟨finding, by simp [BlobWorld.findings, hmem, hkind], ?_⟩
      simp only [names, hpresent, hsha, hanchor, decide_true, Bool.and_true, Bool.true_and]
      exact hdoomed.2
    · rw [href] at hdoomed
      cases hdoomed.1

end Findings

/-! ## The pass -/

section Pass

variable {sha256 : Bytes → String} {env : BlobEnv} {w w' : BlobWorld} {delay : Time}

/-- **A pass drops what it may, and reports what it did.** -/
theorem collectGarbage_pass (hlaid : w.Laid) :
    (collectBlobGarbage sha256 delay).Ends env
      (fun r w' => ∃ report, r = .ok report ∧ GcPass sha256 delay env.clock w w' report) w := by
  have htemporaries : w.temporaries.filter (fun s => !(w.temporaries.any fun t =>
      BlobWorld.aged delay env.clock t.mtime && s.name = t.name)) =
      w.temporaries.filter fun t => !BlobWorld.aged delay env.clock t.mtime := by
    refine List.filter_congr fun s hs => ?_
    congr 1
    rw [Bool.eq_iff_iff, List.any_eq_true]
    constructor
    · intro ⟨t, ht, h⟩
      simp only [Bool.and_eq_true, decide_eq_true_eq] at h
      rw [List.inj_on_of_nodup_map hlaid.temporaries hs ht h.2]
      exact h.1
    · intro h
      exact ⟨s, hs, by simp [h]⟩
  unfold collectBlobGarbage
  rw [BlobProgram.ends_bind, reconcileBlobs_ends]
  simp only [ReconciliationReport.findingsOf]
  rw [BlobProgram.ends_call]
  simp only [BlobCall.exec]
  rw [findings_temporaries hlaid, BlobProgram.ends_bind, sweep_ends]
  simp only
  rw [BlobProgram.ends_bind]
  refine (collectFinals_ends _).mono fun r w' h => ?_
  obtain ⟨rfl, hfiles, hbeside⟩ := h
  refine ⟨_, rfl, {
    objects := ?_
    temporaries := hbeside.temporaries.trans htemporaries
    rows := hbeside.rows
    references := hbeside.references
    deletedFinals := countP_present hlaid fun anchor => gcEligible anchor env.clock delay
    sweptTemps := ?_
    pendingSafetyDelay := ?_
    integrityIncidents := ?_ }⟩
  · rw [hfiles]
    simp only [BlobWorld.files, List.filter_map]
    refine congrArg _ (List.filter_congr fun f hf => ?_)
    simp only [Function.comp, names_iff_doomed hlaid hf]
  · simp [classifyTemporaries, List.countP_map, Function.comp_def, gcEligible, BlobWorld.aged]
  · refine congrArg₂ (· + ·) ?_ (countP_present hlaid fun anchor => !gcEligible anchor env.clock delay)
    simp [classifyTemporaries, List.countP_map, Function.comp_def, gcEligible, BlobWorld.aged]
  · exact List.countP_eq_length_filter.symm.trans (countP_missing hlaid)

/-! ## A second pass -/

/-- What an object is compared by. -/
def ObjectFile.file (f : ObjectFile) : String × Bytes × Time := (f.contentSha256, f.content, f.mtime)

theorem countP_of_map_eq {α β : Type} {g : α → β} {p q : α → Bool} (hpq : ∀ a b, g a = g b → p a = q b) {l m : List α}
    (h : l.map g = m.map g) : l.countP p = m.countP q := by
  induction l generalizing m with
  | nil => simp [List.map_eq_nil_iff.1 h.symm]
  | cons a l ih =>
    cases m with
    | nil => simp at h
    | cons b m =>
      simp only [List.map_cons, List.cons.injEq] at h
      rw [List.countP_cons, List.countP_cons, ih h.2, hpq a b h.1]

namespace GcPass

variable {now : Time} {report : GcReport}

theorem referenced (h : GcPass sha256 delay now w w' report) (row : BlobObject) :
    w'.referenced row = w.referenced row := by
  simp [BlobWorld.referenced, h.references]

theorem unreferenced (h : GcPass sha256 delay now w w' report) {f g : ObjectFile} (hfile : f.file = g.file) :
    w'.unreferenced f = w.unreferenced g := by
  simp only [ObjectFile.file, Prod.mk.injEq] at hfile
  simp [BlobWorld.unreferenced, h.rows, h.referenced, hfile.1]

theorem anchor (h : GcPass sha256 delay now w w' report) {f g : ObjectFile} (hfile : f.file = g.file) :
    w'.anchor f = w.anchor g := by
  simp only [ObjectFile.file, Prod.mk.injEq] at hfile
  simp [BlobWorld.anchor, h.rows, hfile]

theorem laid (h : GcPass sha256 delay now w w' report) (hlaid : w.Laid) : w'.Laid where
  temporaries := by
    rw [Table.Keyed, h.temporaries]
    exact hlaid.temporaries.sublist (List.filter_sublist.map _)
  objects := by
    have hdigests : w'.objects.map (·.contentSha256) = w'.files.map (·.1) := by
      simp [BlobWorld.files, Function.comp_def]
    rw [Table.Keyed, hdigests, h.objects, List.map_map]
    exact hlaid.objects.sublist (List.filter_sublist.map _)
  rows := h.rows ▸ hlaid.rows

/-- Of what a pass left, nothing is doomed. -/
theorem doomed (h : GcPass sha256 delay now w w' report) : w'.objects.countP (w'.doomed delay now) = 0 := by
  rw [countP_of_map_eq (g := ObjectFile.file) (q := w.doomed delay now) (fun f g hfile => by
    simp [BlobWorld.doomed, h.unreferenced hfile, h.anchor hfile]) h.objects]
  simp [List.countP_filter]

/-- What is too young stays. -/
theorem young (h : GcPass sha256 delay now w w' report) :
    w'.objects.countP (fun f => w'.unreferenced f && !BlobWorld.aged delay now (w'.anchor f)) =
      w.objects.countP fun f => w.unreferenced f && !BlobWorld.aged delay now (w.anchor f) := by
  rw [countP_of_map_eq (g := ObjectFile.file)
    (q := fun f => w.unreferenced f && !BlobWorld.aged delay now (w.anchor f)) (fun f g hfile => by
    simp [h.unreferenced hfile, h.anchor hfile]) h.objects, List.countP_filter]
  refine List.countP_congr fun f _ => ?_
  cases hage : BlobWorld.aged delay now (w.anchor f) <;> simp [BlobWorld.doomed, hage]

/-- What is wrong with a row's object is read off the files. -/
theorem spoilt_files (w : BlobWorld) (row : BlobObject) : w.spoilt sha256 row =
    match w.files.find? (·.1 = row.contentSha256) with
    | none => true
    | some f => sha256 f.2.1 ≠ row.contentSha256 || f.2.1.length ≠ row.sizeBytes := by
  rw [BlobWorld.files, List.find?_map, BlobWorld.spoilt, BlobWorld.object?]
  simp only [Function.comp_def]
  cases w.objects.find? (·.contentSha256 = row.contentSha256) <;> rfl

/-- A referenced row keeps its object. -/
theorem spoilt (h : GcPass sha256 delay now w w' report) {row : BlobObject} (hrow : row ∈ w.blobObjects)
    (href : w.referenced row = true) : w'.spoilt sha256 row = w.spoilt sha256 row := by
  have hkept : ∀ f : ObjectFile, decide ((!w.doomed delay now f) = true ∧
      decide (f.contentSha256 = row.contentSha256) = true) = decide (f.contentSha256 = row.contentSha256) := by
    intro f
    by_cases hsha : f.contentSha256 = row.contentSha256
    · have hany : (w.blobObjects.any fun r => r.contentSha256 = f.contentSha256 && w.referenced r) = true :=
        List.any_eq_true.2 ⟨row, hrow, by simp [hsha, href]⟩
      simp [BlobWorld.doomed, BlobWorld.unreferenced, hany]
    · simp [hsha]
  rw [spoilt_files, spoilt_files, h.objects, List.find?_map, List.find?_filter, BlobWorld.files, List.find?_map]
  simp only [Function.comp_def, hkept]

end GcPass

/-- **A second pass at the same time** drops nothing and counts the same. -/
theorem collectGarbage_twice (hlaid : w.Laid) {env' : BlobEnv} (htime : env'.clock = env.clock) :
    (collectBlobGarbage sha256 delay).Ends env (fun r w' => ∃ report, r = .ok report ∧
      GcPass sha256 delay env.clock w w' report ∧
      (collectBlobGarbage sha256 delay).Ends env' (fun r' w'' => ∃ report', r' = .ok report' ∧
        w''.files = w'.files ∧ w''.temporaries = w'.temporaries ∧ w''.blobObjects = w'.blobObjects ∧
        w''.blobReferences = w'.blobReferences ∧ report'.deletedFinals = 0 ∧ report'.sweptTemps = 0 ∧
        report'.pendingSafetyDelay = report.pendingSafetyDelay ∧
        report'.integrityIncidents = report.integrityIncidents) w') w := by
  refine (collectGarbage_pass hlaid).mono fun r w' h => ?_
  obtain ⟨report, rfl, h⟩ := h
  refine ⟨report, rfl, h, (collectGarbage_pass (h.laid hlaid)).mono fun r' w'' h' => ?_⟩
  obtain ⟨report', rfl, h'⟩ := h'
  rw [htime] at h'
  have hswept : ∀ t ∈ w'.temporaries, BlobWorld.aged delay env.clock t.mtime = false := by
    intro t ht
    rw [h.temporaries] at ht
    simpa using (List.mem_filter.1 ht).2
  refine ⟨report', rfl, ?_, ?_, h'.rows, h'.references, ?_, ?_, ?_, ?_⟩
  · rw [h'.objects, BlobWorld.files]
    refine congrArg _ (List.filter_eq_self.2 fun f hf => ?_)
    have := List.countP_eq_zero.1 h.doomed f hf
    simpa using this
  · rw [h'.temporaries]
    exact List.filter_eq_self.2 fun t ht => by simp [hswept t ht]
  · rw [h'.deletedFinals, h.doomed]
  · rw [h'.sweptTemps]
    exact List.countP_eq_zero.2 fun t ht => by simp [hswept t ht]
  · rw [h'.pendingSafetyDelay, h.pendingSafetyDelay, h.young, h.temporaries, List.countP_filter]
    simp
  · rw [h'.integrityIncidents, h.integrityIncidents, h.rows]
    refine List.countP_congr fun row hrow => ?_
    rw [h.referenced]
    cases href : w.referenced row with
    | false => simp
    | true => rw [h.spoilt hrow href]

end Pass

/-! ## At the delay, and outside it -/

/-- A temporary written at time 0, and a purged row whose file is gone and that has a reference. -/
def purgedReferenced : BlobWorld where
  temporaries := [{ name := 0, content := [], mtime := 0 }]
  nextTemporary := 1
  blobObjects := [{ id := 0, contentSha256 := "aa", sizeBytes := 1, storagePath := .object "aa", state := .purged }]
  nextBlob := 1
  blobReferences := [⟨0, "source_version", 1#128⟩]

theorem purgedReferenced_laid : purgedReferenced.Laid where
  temporaries := by decide
  objects := by decide
  rows := by decide

/-- The least delay that outlives a backup. -/
def leastDelay : Time := 24 * 3600 * 1000000 + 1

/-- A digest for the worlds without objects. -/
def anyDigest (_ : Bytes) : String := "aa"

theorem collectGarbage_twice_purged :
    (collectBlobGarbage anyDigest leastDelay).Ends ⟨leastDelay, false⟩ (fun r w' => ∃ report, r = .ok report ∧
      GcPass anyDigest leastDelay leastDelay purgedReferenced w' report ∧
      (collectBlobGarbage anyDigest leastDelay).Ends ⟨leastDelay, false⟩ (fun r' w'' => ∃ report', r' = .ok report' ∧
        w''.files = w'.files ∧ w''.temporaries = w'.temporaries ∧ w''.blobObjects = w'.blobObjects ∧
        w''.blobReferences = w'.blobReferences ∧ report'.deletedFinals = 0 ∧ report'.sweptTemps = 0 ∧
        report'.pendingSafetyDelay = report.pendingSafetyDelay ∧
        report'.integrityIncidents = report.integrityIncidents) w') purgedReferenced :=
  collectGarbage_twice purgedReferenced_laid rfl

/-- **At the delay, and with a purged row**: the temporary is exactly as old as the delay, not
older, and is swept; the row has a reference and no file, and is no incident. -/
theorem purgedReferenced_pass :
    purgedReferenced.temporaries.countP (fun t => leastDelay < leastDelay - t.mtime) = 0 ∧
    (purgedReferenced.blobObjects.countP fun row => purgedReferenced.blobReferences.any (·.blobId = row.id) &&
      purgedReferenced.spoilt anyDigest row) = 1 ∧
    (collectBlobGarbage anyDigest leastDelay).Ends ⟨leastDelay, false⟩ (fun r _ => ∃ report, r = .ok report ∧
      report.sweptTemps = 1 ∧ report.integrityIncidents = 0) purgedReferenced := by
  refine ⟨by decide, rfl, (collectGarbage_pass purgedReferenced_laid).mono fun r w' h => ?_⟩
  obtain ⟨report, rfl, h⟩ := h
  exact ⟨report, rfl, h.sweptTemps.trans (by decide), h.integrityIncidents.trans rfl⟩

end MilpbookLM
