/-
How the store's programs call. A process's own calls say how far it is with a put
(`stage`): the temporary written and synced, the object in place, found there or
linked and synced, the row committed. `BlobFollows` says what a call relies on:
only a synced temporary is linked, under its digest; a row is committed for an
object in place; a reference is added for the row just committed. Every program
follows it (`BlobRequest.keeps`), so every run of any number of them does
(`blob_runs`).
-/
import MilpbookLM.Blobs.Store

namespace MilpbookLM

open Interleave

/-- The calls of one process, the latest first. -/
abbrev BlobHistory := List (Σ c, BlobAnswer c)

/-- How far a process is with a put. -/
inductive Stage
  | idle
  | staged (temp : Nat) (data : Bytes) (synced found : Bool)
  /-- The object is there; `found` when the first look found it, `bucket` and
  `root` once the two directories have been synced since. -/
  | placed (data : Bytes) (found bucket root : Bool)
  /-- Committed for an acquisition, its reference still to come. -/
  | committed (blob : BlobObject)

section Stages

variable (sha256 : Bytes → String)

/-- The stage after one more call. -/
def Stage.advance : (Σ c, BlobAnswer c) → Stage → Stage
  | ⟨.writeTemporary data, name⟩, _ => .staged name data false false
  | ⟨.fsyncTemporary name, _⟩, .staged temp data synced found => .staged temp data (synced || name = temp) found
  | ⟨.finalExists _, found⟩, .staged temp data synced _ => .staged temp data synced found
  | ⟨.link .., .linked⟩, .staged _ data _ found => .placed data found false false
  | ⟨.readFinal _, some content⟩, .staged temp data synced found =>
    if sha256 content = sha256 data ∧ content.length = data.length then .placed data found false false
    else .staged temp data synced found
  | ⟨.fsyncBucket sha, _⟩, .placed data found bucket root =>
    .placed data found (bucket || sha = sha256 data) root
  | ⟨.fsyncObjectsDir, _⟩, .placed data found bucket _ => .placed data found bucket true
  | ⟨.commitFinalized .acquisition .., .ok blob⟩, _ => .committed blob
  | ⟨.commitFinalized .., _⟩, _ => .idle
  | _, .committed _ => .idle
  | _, s => s

def stage (t : BlobHistory) : Stage := t.foldr (Stage.advance sha256) .idle

@[simp] theorem stage_cons (ev : Σ c, BlobAnswer c) (t : BlobHistory) :
    stage sha256 (ev :: t) = Stage.advance sha256 ev (stage sha256 t) := rfl

section Advance

variable {temp name : Nat} {data : Bytes} {sha : String} {synced found bucket root : Bool} {s : Stage}

@[simp] theorem advance_writeTemporary :
    Stage.advance sha256 ⟨.writeTemporary data, name⟩ s = .staged name data false false := by
  cases s <;> rfl

@[simp] theorem advance_fsyncTemporary {answer} : Stage.advance sha256 ⟨.fsyncTemporary name, answer⟩ (.staged temp data synced found) =
    .staged temp data (synced || name = temp) found := rfl

@[simp] theorem advance_readTemporary {answer} : Stage.advance sha256 ⟨.readTemporary name, answer⟩ (.staged temp data synced found) =
    .staged temp data synced found := rfl

@[simp] theorem advance_finalExists {answer : Bool} :
    Stage.advance sha256 ⟨.finalExists sha, answer⟩ (.staged temp data synced found) = .staged temp data synced answer := rfl

@[simp] theorem advance_mkdirBucket {answer} : Stage.advance sha256 ⟨.mkdirBucket sha, answer⟩ (.staged temp data synced found) =
    .staged temp data synced found := rfl

@[simp] theorem advance_linked : Stage.advance sha256 ⟨.link name sha, .linked⟩ (.staged temp data synced found) =
    .placed data found false false := rfl

@[simp] theorem advance_fileExists : Stage.advance sha256 ⟨.link name sha, .fileExists⟩ (.staged temp data synced found) =
    .staged temp data synced found := rfl

@[simp] theorem advance_fsyncBucket {answer} : Stage.advance sha256 ⟨.fsyncBucket sha, answer⟩ (.placed data found bucket root) =
    .placed data found (bucket || sha = sha256 data) root := rfl

@[simp] theorem advance_fsyncObjectsDir {answer} :
    Stage.advance sha256 ⟨.fsyncObjectsDir, answer⟩ (.placed data found bucket root) = .placed data found bucket true := rfl

@[simp] theorem advance_unlinkTemporary {answer} : Stage.advance sha256 ⟨.unlinkTemporary name, answer⟩ (.placed data found bucket root) =
    .placed data found bucket root := rfl

@[simp] theorem advance_fsyncTmpDir {answer} :
    Stage.advance sha256 ⟨.fsyncTmpDir, answer⟩ (.placed data found bucket root) = .placed data found bucket root := rfl

@[simp] theorem advance_now {answer} :
    Stage.advance sha256 ⟨.now, answer⟩ (.placed data found bucket root) = .placed data found bucket root := rfl

end Advance

/-- What a call relies on. -/
def BlobFollows (t : BlobHistory) : BlobCall → Prop
  | .link temp sha => ∃ data found, stage sha256 t = .staged temp data true found ∧ sha = sha256 data
  | .commitFinalized _ sha size .. => ∃ data found bucket root, stage sha256 t = .placed data found bucket root ∧
      sha = sha256 data ∧ size = data.length ∧ (found = true ∨ bucket = true ∧ root = true)
  | .acquire blob _ => stage sha256 t = .committed blob
  | _ => True

/-- What holds along a program of the store. -/
abbrev BlobProgram.Along {α : Type} (x : BlobProgram α) (Q : Except BlobError α → BlobHistory → Prop)
    (t : BlobHistory) : Prop :=
  Prog.Along (fun _ _ => True) (BlobFollows sha256) x.run Q t

end Stages

section Programs

variable {sha256 : Bytes → String} {t : BlobHistory} {α β : Type}

/-- One call, and then the rest. -/
theorem perform_along {c : BlobCall} {f : BlobAnswer c → BlobProgram α} {Q : Except BlobError α → BlobHistory → Prop}
    (hc : BlobFollows sha256 t c) (hf : ∀ a, (f a).Along sha256 Q (⟨c, a⟩ :: t)) :
    (c.perform >>= f).Along sha256 Q t :=
  ⟨hc, fun a _ => hf a⟩

/-! ## Put -/

/-- A cleanup that never raises ends a program as the program would have ended. -/
theorem tryFinally_along {x : BlobProgram α} {cleanup : BlobProgram Unit} {R Q : Except BlobError α → BlobHistory → Prop}
    (hx : x.Along sha256 R t)
    (hclean : ∀ res t, R res t → cleanup.Along sha256 (fun done t => done = .ok () ∧ Q res t) t) :
    (BlobProgram.tryFinally x cleanup).Along sha256 Q t := by
  refine Prog.Along.seq (Prog.Along.guarded (hx.mono fun res t hres => ?_))
  cases res with
  | ok a =>
    refine Prog.Along.seq ((hclean _ t hres).mono ?_)
    rintro _ t ⟨rfl, hq⟩
    exact hq
  | error e =>
    refine Prog.Along.seq ((hclean _ t hres).mono ?_)
    rintro _ t ⟨rfl, hq⟩
    exact hq

theorem requireIdentical_along {temp data synced found} (h : stage sha256 t = .staged temp data synced found) :
    (requireIdentical sha256 (sha256 data) data.length).Along sha256
      (fun res t => res = .ok () → stage sha256 t = .placed data found false false) t := by
  refine perform_along trivial fun content => ?_
  cases content with
  | none => rintro ⟨⟩
  | some content =>
    dsimp only
    split
    · rintro ⟨⟩
    · next hid =>
      intro _
      simp only [Bool.or_eq_true, decide_eq_true_eq, not_or, ne_eq, not_not] at hid
      rw [stage_cons, h]
      exact if_pos hid

theorem finalize_along {temp data found₀} (h : stage sha256 t = .staged temp data true found₀) :
    (finalize sha256 temp (sha256 data) data.length).Along sha256
      (fun res t => res = .ok () → ∃ found bucket root, stage sha256 t = .placed data found bucket root ∧
        (found = true ∨ bucket = true ∧ root = true)) t := by
  -- what comes after the object is in place
  have hsync : ∀ t, (∃ found, stage sha256 t = .placed data found false false) →
      BlobProgram.Along sha256 (do (BlobCall.fsyncBucket (sha256 data)).perform; BlobCall.fsyncObjectsDir.perform)
        (fun res t => res = .ok () → ∃ found bucket root, stage sha256 t = .placed data found bucket root ∧
          (found = true ∨ bucket = true ∧ root = true)) t := by
    rintro t ⟨found, hp⟩
    refine perform_along trivial fun _ => perform_along trivial fun _ _ => ⟨found, true, true, ?_, .inr ⟨rfl, rfl⟩⟩
    simp [hp]
  refine perform_along trivial ?_
  rintro (_ | _)
  · refine perform_along trivial fun made => perform_along ⟨data, false, by simp [h], rfl⟩ ?_
    rintro (_ | _ | _)
    · exact hsync _ ⟨false, by simp [h]⟩
    · have hstaged : stage sha256 (⟨.link temp (sha256 data), .fileExists⟩ :: ⟨.mkdirBucket (sha256 data), made⟩ ::
          ⟨.finalExists (sha256 data), false⟩ :: t) = .staged temp data true false := by
        simp [h]
      refine Prog.Along.seq ((requireIdentical_along hstaged).mono fun res t hres => ?_)
      cases res with
      | ok => exact hsync t ⟨false, hres rfl⟩
      | error => rintro ⟨⟩
    · rintro ⟨⟩
  · have hstaged : stage sha256 (⟨.finalExists (sha256 data), true⟩ :: t) = .staged temp data true true := by
      simp [h]
    refine (requireIdentical_along hstaged).mono fun res t hres hok => ?_
    exact ⟨true, false, false, hres hok, .inl rfl⟩

theorem writeTemporary_along {data : Bytes} :
    (writeTemporary sha256 data).Along sha256 (fun res t => ∃ temp, res = .ok (temp, sha256 data, data.length) ∧
      stage sha256 t = .staged temp data true false) t := by
  refine perform_along trivial fun (temp : Nat) => perform_along trivial fun _ => ⟨temp, rfl, ?_⟩
  simp

theorem validateTemporary_along {name temp sha size data synced found}
    (h : stage sha256 t = .staged temp data synced found) :
    (validateTemporary sha256 name sha size).Along sha256
      (fun _ t => stage sha256 t = .staged temp data synced found) t := by
  refine perform_along trivial fun content => ?_
  have hkeep : stage sha256 (⟨.readTemporary name, content⟩ :: t) = .staged temp data synced found := by
    simp [h]
  cases content with
  | none => exact hkeep
  | some content =>
    dsimp only
    split
    · exact hkeep
    · exact hkeep

/-- **A put follows the rules**, and one of an acquisition ends with its row committed. -/
theorem put_along {site data contentType kind id} :
    (put sha256 site data contentType kind id).Along sha256
      (fun res t => site = .acquisition → ∀ blob, res = .ok blob → stage sha256 t = .committed blob) t := by
  refine Prog.Along.seq (writeTemporary_along.mono ?_)
  rintro _ t ⟨temp, rfl, hst⟩
  -- what the body of the `try` leaves, and the cleanup keeps
  let R (res : Except BlobError Unit) (t : BlobHistory) : Prop :=
    res = .ok () → ∃ found bucket root, stage sha256 t = .placed data found bucket root ∧
      (found = true ∨ bucket = true ∧ root = true)
  refine Prog.Along.seq ((tryFinally_along (R := R) (Q := R) ?_ ?_).mono fun res t hres => ?_)
  · refine Prog.Along.seq ((validateTemporary_along hst).mono fun res t hst => ?_)
    cases res with
    | ok => exact finalize_along hst
    | error e => rintro ⟨⟩
  · intro res t hres
    refine perform_along trivial fun _ => perform_along trivial fun _ => ⟨rfl, fun hok => ?_⟩
    obtain ⟨found, bucket, root, hp, hdone⟩ := hres hok
    exact ⟨found, bucket, root, by simp [hp], hdone⟩
  · cases res with
    | error e => rintro - blob ⟨⟩
    | ok =>
      obtain ⟨found, bucket, root, hp, hdone⟩ := hres rfl
      refine perform_along trivial fun now => perform_along ?_ fun res => ?_
      · exact ⟨data, found, bucket, root, by simp [hp], rfl, rfl, hdone⟩
      · cases res with
        | ok blob =>
          rintro rfl _ ⟨rfl⟩
          rfl
        | error e => rintro - blob ⟨⟩

/-! ## The other programs -/

/-- The program keeps to the rules `ok` wherever it is started. -/
def BlobProgram.Keeps (ok : BlobHistory → BlobCall → Prop) (x : BlobProgram α) : Prop :=
  ∀ t, Prog.Along (fun _ _ => True) ok x.run (fun _ _ => True) t

namespace BlobProgram.Keeps

variable {ok ok' : BlobHistory → BlobCall → Prop}

theorem pure (a : α) : (Pure.pure a : BlobProgram α).Keeps ok := fun _ => trivial

theorem throw (e : BlobError) : (MonadExcept.throw e : BlobProgram α).Keeps ok := fun _ => trivial

theorem perform {c : BlobCall} (h : ∀ t, ok t c) : c.perform.Keeps ok := fun t => ⟨h t, fun _ _ => trivial⟩

theorem bind {x : BlobProgram α} {f : α → BlobProgram β} (hx : x.Keeps ok) (hf : ∀ a, (f a).Keeps ok) :
    (x >>= f).Keeps ok := fun t =>
  Prog.Along.seq ((hx t).mono fun res t _ => match res with | .ok a => hf a t | .error _ => trivial)

theorem tryCatch {x : BlobProgram α} {f : BlobError → BlobProgram α} (hx : x.Keeps ok) (hf : ∀ e, (f e).Keeps ok) :
    (MonadExcept.tryCatch x f).Keeps ok := fun t =>
  Prog.Along.guarded ((hx t).mono fun res t _ => match res with | .ok _ => trivial | .error e => hf e t)

theorem forM {xs : List β} {f : β → BlobProgram PUnit} (hf : ∀ x, (f x).Keeps ok) : (xs.forM f).Keeps ok :=
  fun _ => Prog.Along.forM (fun _ => True) trivial
    (fun x _ t _ => (hf x t).mono fun res _ _ => by cases res <;> trivial) fun _ _ => trivial

theorem and {x : BlobProgram α} (h : x.Keeps ok) (h' : x.Keeps ok') : x.Keeps fun t c => ok t c ∧ ok' t c := fun t =>
  ((h t).and (h' t)).mono fun _ _ _ => trivial

end BlobProgram.Keeps

open BlobProgram (Keeps)

theorem acquireSource_keeps {data contentType versionId} :
    (acquireSource sha256 data contentType versionId).Keeps (BlobFollows sha256) := by
  refine fun t => Prog.Along.seq (put_along.mono fun res t hres => ?_)
  cases res with
  | error e => trivial
  | ok blob =>
    refine perform_along (hres rfl blob rfl) fun res => ?_
    cases res <;> trivial

theorem deleteFinal_keeps {sha : String} : (deleteFinal sha).Keeps (BlobFollows sha256) := by
  refine .bind (.perform fun _ => trivial) fun _ => .bind (.perform fun _ => trivial) ?_
  rintro (_ | _)
  · exact .pure _
  · exact .perform fun _ => trivial

theorem deleteTemporary_keeps {path : StorePath} : (deleteTemporary path).Keeps (BlobFollows sha256) := by
  cases path with
  | temporary name => exact .bind (.perform fun _ => trivial) fun _ => .perform fun _ => trivial
  | object sha => exact .throw _

theorem verifyContent_keeps {sha size} : (verifyContent sha256 sha size).Keeps (BlobFollows sha256) := by
  refine .bind (.perform fun _ => trivial) fun content => ?_
  cases content with
  | none => exact .throw _
  | some content =>
    dsimp only
    split
    · exact .throw _
    · exact .pure _

theorem classifyFinals_keeps {objects refCounts finals} :
    (classifyFinals sha256 objects refCounts finals).Keeps (BlobFollows sha256) := by
  induction finals with
  | nil => exact .pure _
  | cons stats finals ih =>
    refine .bind ?_ fun findings => .bind ih fun rest => .pure _
    unfold classifyFinal
    split
    · exact .pure _
    · split
      · exact .pure _
      · split
        · exact .pure _
        · exact .tryCatch (.bind verifyContent_keeps fun _ => .pure _) fun _ => .pure _

theorem reconcileBlobs_keeps : (reconcileBlobs sha256).Keeps (BlobFollows sha256) :=
  .bind (.perform fun _ => trivial) fun _ => .bind (.perform fun _ => trivial) fun _ =>
    .bind (.perform fun _ => trivial) fun _ => .bind (.perform fun _ => trivial) fun _ =>
      .bind classifyFinals_keeps fun _ => .bind (.perform fun _ => trivial) fun _ => .pure _

theorem sweepTemporary_keeps {now delay finding} : (sweepTemporary now delay finding).Keeps (BlobFollows sha256) := by
  unfold sweepTemporary
  split
  · cases finding.storagePath with
    | none => exact .pure _
    | some path => exact deleteTemporary_keeps
  · exact .pure _

theorem collectFinal_keeps {now delay finding} : (collectFinal now delay finding).Keeps (BlobFollows sha256) := by
  unfold collectFinal
  split
  · cases finding.contentSha256 with
    | none => exact .pure _
    | some sha => exact deleteFinal_keeps
  · exact .pure _

theorem collectBlobGarbage_keeps {delay} : (collectBlobGarbage sha256 delay).Keeps (BlobFollows sha256) :=
  .bind reconcileBlobs_keeps fun _ => .bind (.perform fun _ => trivial) fun _ =>
    .bind (.forM fun _ => sweepTemporary_keeps) fun _ => .bind (.forM fun _ => collectFinal_keeps) fun _ => .pure _

theorem eraseBlobs_keeps {versionIds artifactVersionIds} :
    (eraseBlobs versionIds artifactVersionIds).Keeps (BlobFollows sha256) :=
  .bind (.perform fun _ => trivial) fun _ => .bind (.perform fun _ => trivial) fun _ =>
    .bind (.forM fun _ => deleteFinal_keeps) fun _ => .perform fun _ => trivial

end Programs

/-! ## Any number of them -/

def maxBackupWindow : Time := 24 * 3600 * 1000000

/-- What a process is started for. A garbage collector cannot be wired with a
safety delay that a backup may outlive. -/
inductive BlobRequest
  | put (data : Bytes) (contentType referrerKind : Option String) (referrerId : Option Uuid)
  | acquire (data : Bytes) (contentType : Option String) (versionId : Uuid)
  | collectGarbage (safetyDelay : { d : Time // maxBackupWindow < d })
  | erase (versionIds artifactVersionIds : List Uuid)

def BlobRequest.program (sha256 : Bytes → String) : BlobRequest → BlobProgram Unit
  | .put data contentType kind id => do let _ ← MilpbookLM.put sha256 .other data contentType kind id
  | .acquire data contentType versionId => do let _ ← acquireSource sha256 data contentType versionId
  | .collectGarbage delay => do let _ ← collectBlobGarbage sha256 delay
  | .erase versionIds artifactVersionIds => eraseBlobs versionIds artifactVersionIds

theorem BlobRequest.keeps (sha256 : Bytes → String) (r : BlobRequest) :
    (r.program sha256).Keeps (BlobFollows sha256) := by
  cases r with
  | put => exact .bind (fun t => put_along.mono fun _ _ _ => trivial) fun _ => .pure _
  | acquire => exact .bind acquireSource_keeps fun _ => .pure _
  | collectGarbage => exact .bind collectBlobGarbage_keeps fun _ => .pure _
  | erase => exact eraseBlobs_keeps

section Machine

variable {P : Type} [DecidableEq P]

abbrev BlobRun (P : Type) := Run P BlobCall BlobAnswer BlobWorld

abbrev BlobPool (P : Type) := Pool P BlobCall BlobAnswer BlobError BlobWorld

/-- Processes that run the requests `admits` allows, one after another. -/
def blobMachine (sha256 : Bytes → String) (P : Type) (admits : BlobRequest → Prop) :
    Machine P BlobCall BlobAnswer BlobError BlobWorld BlobEnv { r // admits r } where
  exec c env := c.exec env
  start _ r := (r.1.program sha256).run

/-- The runs of blob calls that meet `cond`. -/
abbrev BlobRuns (init : BlobWorld → Prop) (cond : P → BlobCall → BlobEnv → BlobRun P → Prop) : BlobRun P → Prop :=
  Runs (fun c env => BlobCall.exec env c) init cond

/-- **Every run of a pool keeps to the rules** that all its programs keep to. -/
theorem blob_runs {sha256 : Bytes → String} {admits : BlobRequest → Prop} {init : BlobWorld → Prop}
    {cond : P → BlobCall → BlobEnv → BlobRun P → Prop} {ok : BlobHistory → BlobCall → Prop} {pool : BlobPool P}
    (hok : ∀ r, admits r → (r.program sha256).Keeps ok) (h : (blobMachine sha256 P admits).Reach init cond pool) :
    BlobRuns init (fun p c env r => cond p c env r ∧ ok (own p r.trace) c) pool.run :=
  have halong : ∀ p r t, Prog.Along (fun _ _ => True) ok ((blobMachine sha256 P admits).start p r)
      (fun _ _ => True) t := fun _ r t => hok r.1 r.2 t
  (Machine.runs_along (fun _ _ _ _ _ _ _ => trivial) (fun _ => trivial) (fun p r t _ => halong p r t) h).1

end Machine

end MilpbookLM
