/-
The parse job of an acquisition. `AcquireSource` enqueues it under a key that names the
source version its call was given, with a payload made of that version and of the call's own
web capture. The catalog gives one version to many calls, so the key is used again, and the
job is reused only when the payload is the same (`parse_job_conflict_iff`).
-/
import MilpbookLM.Jobs.Idempotency
import MilpbookLM.Sources.Identity

namespace MilpbookLM

open Interleave

/-! ## Requests -/

structure WebCaptureMetadata where
  requestedUrl : String
  finalUrl : String
  capturedAt : String
  statusCode : Int
  contentSha256 : String
  contentType : String
  redirectChain : List String
  headers : List (String × String)
  deriving DecidableEq

/-- A call of `AcquireSource`, with the capture its origin is of and the context of its request. -/
structure AcquireRequest where
  command : AcquireSourceCommand
  webCapture : Option WebCaptureMetadata := none
  captured : command.requestedUrl = webCapture.map (·.requestedUrl)
  requestId : Option String := none
  traceId : Option String := none

namespace AcquireRequest

/-- `str(view.blob_id)`. -/
def blobText : Option Nat → String
  | some id => Uuid.str (BitVec.ofNat 128 id)
  | none => "None"

/-- What `_publish_job` adds for a web capture. -/
def capturePayload : Option WebCaptureMetadata → Dict
  | none => []
  | some capture =>
    [("web_final_url", .str capture.finalUrl), ("web_captured_at", .str capture.capturedAt),
      ("web_capture", .obj
        [("requested_url", .str capture.requestedUrl), ("final_url", .str capture.finalUrl),
          ("captured_at", .str capture.capturedAt), ("status_code", .int capture.statusCode),
          ("content_sha256", .str capture.contentSha256), ("content_type", .str capture.contentType),
          ("redirect_chain", .arr (capture.redirectChain.map .str)),
          ("headers", .arr (capture.headers.map fun header => .arr [.str header.1, .str header.2]))])]

def payload (r : AcquireRequest) (view : SourceView) : Dict :=
  [("source_id", .str view.sourceId.str), ("source_version_id", .str view.sourceVersionId.str),
    ("blob_id", .str (blobText view.blobId)), ("content_sha256", .str view.contentSha256),
    ("importer_version", .str importerVersion)] ++ capturePayload r.webCapture

/-- `_publish_job`. -/
def publishJob (r : AcquireRequest) (view : SourceView) : EnqueueRequest where
  kind := "ingestion.parse"
  payload := r.payload view
  actor := { userId := r.command.actorId, requestId := r.requestId, traceId := r.traceId }
  capacityClass := .ingestionIndexing
  notebookId := some r.command.notebookId
  capability := some "source_mutate"
  idempotencyKey := some ("parse:" ++ view.sourceVersionId.str ++ ":canonical-v1")

/-- The scoped key of the job. -/
def scope (r : AcquireRequest) : String :=
  idempotencyScope { userId := r.command.actorId, requestId := r.requestId, traceId := r.traceId } "ingestion.parse"
    (some r.command.notebookId)

def key (view : SourceView) : String := "parse:" ++ view.sourceVersionId.str ++ ":canonical-v1"

theorem scope_inj {r r' : AcquireRequest} (h : r.scope = r'.scope) :
    r.command.actorId = r'.command.actorId ∧ r.command.notebookId = r'.command.notebookId := by
  obtain ⟨-, huser, hnotebook⟩ := idempotencyScope_inj h
  exact ⟨huser, Option.some.inj hnotebook⟩

theorem key_inj {view view' : SourceView} (h : key view = key view') : view.sourceVersionId = view'.sourceVersionId := by
  have h := congrArg String.toList h
  simp only [key, String.toList_append, List.append_assoc, List.append_cancel_left_eq, List.append_cancel_right_eq] at h
  exact Uuid.str_inj (String.toList_injective h)

end AcquireRequest

/-! ## Runs -/

/-- The sources, the jobs, what the calls of `AcquireSource` go on with, and what was published. -/
structure ParseWorld (T : Type) where
  acquisition : AcquisitionWorld T := {}
  jobs : JobDb := {}
  requests : T → Option AcquireRequest := fun _ => none
  returned : T → Option (AcquireRequest × SourceView) := fun _ => none
  published : List (AcquireRequest × SourceView) := []

namespace ParseWorld

variable {T : Type} [DecidableEq T] (sha256 : Bytes → String) (rt : Runtime) (h : Hashing) (w : ParseWorld T)

/-- The catalog's select for a call, or its refresh. -/
def acquire (t : T) (request : AcquireRequest) (blob : BlobObject) (versionId : Uuid) : ParseWorld T :=
  match (AcquisitionCall.acquire t request.command blob versionId).exec sha256 rt w.acquisition with
  | (.source view _, acquisition) =>
    { w with acquisition, returned := Function.update w.returned t (some (request, view)) }
  | (.waits, acquisition) => { w with acquisition, requests := Function.update w.requests t (some request) }
  | (_, acquisition) => { w with acquisition }

/-- The catalog's inserts for the call that waits for them. -/
def insert (t : T) (sourceId versionId : Uuid) (request : AcquireRequest) : ParseWorld T :=
  match (AcquisitionCall.insert t sourceId versionId).exec sha256 rt w.acquisition with
  | (.source view _, acquisition) =>
    { w with
      acquisition, requests := Function.update w.requests t none
      returned := Function.update w.returned t (some (request, view)) }
  | (_, acquisition) => { w with acquisition, requests := Function.update w.requests t none }

/-- The call ends, wherever it is. -/
def abort (t : T) : ParseWorld T :=
  { w with
    acquisition := w.acquisition.setTxn t none, requests := Function.update w.requests t none
    returned := Function.update w.returned t none }

/-- `_publish_job` for what was returned to `t`. -/
def enqueue (env : Env) (request : AcquireRequest) (view : SourceView) (job : JobRecord) :
    Except JobError ((JobRecord × Bool) × JobDb) :=
  PgJobRepository.enqueue env job ((request.publishJob view).requestHash h) (request.publishJob view).scope
    (request.publishJob view).idempotencyKey w.jobs

def publish (t : T) (env : Env) (request : AcquireRequest) (view : SourceView) (job : JobRecord) : ParseWorld T :=
  match w.enqueue h env request view job with
  | .error _ => { w with returned := Function.update w.returned t none }
  | .ok (_, jobs) =>
    { w with jobs, returned := Function.update w.returned t none, published := (request, view) :: w.published }

end ParseWorld

/-- The scope is of a parse job. -/
def ParseScope (scope : String) : Prop := ∃ r : AcquireRequest, scope = r.scope

/-- One call of an `AcquireSource`, or what others do: to sources, or to jobs and to the keys of other jobs. -/
inductive ParseStep {T : Type} [DecidableEq T] (sha256 : Bytes → String) (rt : Runtime) (h : Hashing) (w : ParseWorld T) :
    ParseWorld T → Prop
  | acquire (t : T) (request : AcquireRequest) (blob : BlobObject) (versionId : Uuid) :
      (AcquisitionCall.acquire t request.command blob versionId).Enabled w.acquisition →
      ParseStep sha256 rt h w (w.acquire sha256 rt t request blob versionId)
  | insert (t : T) (sourceId versionId : Uuid) (request : AcquireRequest) :
      (AcquisitionCall.insert t sourceId versionId).Enabled w.acquisition → w.requests t = some request →
      ParseStep sha256 rt h w (w.insert sha256 rt t sourceId versionId request)
  | publish (t : T) (env : Env) (request : AcquireRequest) (view : SourceView) (job : JobRecord) :
      w.returned t = some (request, view) → (request.publishJob view).Builds h job →
      ParseStep sha256 rt h w (w.publish h t env request view job)
  | sources (c : AcquisitionCall T) : c.Enabled w.acquisition → (∀ t, c ≠ .abort t) →
      (∀ t sourceId versionId, c = .insert t sourceId versionId → w.requests t = none) →
      ParseStep sha256 rt h w { w with acquisition := (c.exec sha256 rt w.acquisition).2 }
  | abort (t : T) : ParseStep sha256 rt h w (w.abort t)
  | jobs (db : JobDb) : (∀ k, ParseScope k.scope → (k ∈ db.idempotencyKeys ↔ k ∈ w.jobs.idempotencyKeys)) →
      ParseStep sha256 rt h w { w with jobs := db }

/-! ## Views of one version -/

namespace AcquisitionWorld

variable {T : Type} {w w' : AcquisitionWorld T}

/-- The version was as the view says, unless it has lost its blob since. -/
def Recorded (w : AcquisitionWorld T) (view : SourceView) : Prop :=
  ∃ v ∈ w.catalog.versionIdentities, v.id = view.sourceVersionId ∧ v.sourceId = view.sourceId ∧
    (v.originalBlobId.isSome → view.blobId = v.originalBlobId ∧ view.contentSha256 = v.contentSha256)

/-- Two views of one version, unless one is of it without its blob. -/
def Consistent (view view' : SourceView) : Prop :=
  view.sourceVersionId = view'.sourceVersionId → view.sourceId = view'.sourceId ∧
    (view.blobId.isSome → view'.blobId.isSome → view.blobId = view'.blobId ∧ view.contentSha256 = view'.contentSha256)

/-- **What is recorded stays so**: a version loses its blob, and gets no other. -/
theorem Recorded.change [DecidableEq T] {sha256 : Bytes → String} {refreshes : Uuid → BlobObject → Prop} {view : SourceView}
    (hrec : w.Recorded view) (hc : Change sha256 refreshes w w') : w'.Recorded view := by
  obtain ⟨v, hv, hid, hsource, hblob⟩ := hrec
  cases hc with
  | frame hsame => exact ⟨v, hsame.2.1 ▸ hv, hid, hsource, hblob⟩
  | lock t i => exact ⟨v, hv, hid, hsource, hblob⟩
  | handOver row data hsources hversions => exact ⟨v, hversions ▸ hv, hid, hsource, hblob⟩
  | inserted t i s v' _ _ _ _ _ hversioned =>
    exact ⟨v, hversioned.versions ▸ List.mem_append_left _ hv, hid, hsource, hblob⟩
  | refreshed blob v' _ _ _ _ hversioned =>
    exact ⟨v, hversioned.versions ▸ List.mem_append_left _ hv, hid, hsource, hblob⟩
  | erased versionIds artifactVersionIds _ hversions =>
    refine ⟨v.erased versionIds, hversions ▸ List.mem_map_of_mem hv, VersionIdentity.erased_id.trans hid,
      VersionIdentity.erased_sourceId.trans hsource, fun hsome => ?_⟩
    obtain ⟨b, hb⟩ := Option.isSome_iff_exists.1 hsome
    rw [(VersionIdentity.erased_some hb).2] at hsome ⊢
    exact hblob hsome
  | dropped blobIds _ hversions =>
    refine ⟨v.dropped blobIds, hversions ▸ List.mem_map_of_mem hv, VersionIdentity.dropped_id.trans hid,
      VersionIdentity.dropped_sourceId.trans hsource, fun hsome => ?_⟩
    obtain ⟨b, hb⟩ := Option.isSome_iff_exists.1 hsome
    rw [(VersionIdentity.dropped_some hb).2] at hsome ⊢
    exact hblob hsome

/-- A view of a version that is there. -/
theorem recorded_of {s : Source} {v : CatalogVersion} (hv : v ∈ w.catalog.versions) (hid : v.sourceId = s.id) :
    w.Recorded (.of s v) :=
  ⟨v.identity, List.mem_map_of_mem hv, rfl, hid, fun _ => ⟨rfl, rfl⟩⟩

/-- It agrees with what was recorded of the version before. -/
theorem Recorded.consistent (hkeyed : w.Referred) {view : SourceView} (hrec : w.Recorded view) {s : Source} {v : CatalogVersion}
    (hv : v ∈ w.catalog.versions) (hid : v.sourceId = s.id) : Consistent view (.of s v) := by
  intro hsame
  obtain ⟨v', hv', hid', hsource, hblob⟩ := hrec
  obtain rfl : v' = v.identity := List.inj_on_of_nodup_map hkeyed.keyed hv' (List.mem_map_of_mem hv) (hid'.trans hsame)
  exact ⟨hsource.symm.trans hid, fun _ hsome => hblob hsome⟩

/-- What a call returns is a view of what is there then. -/
theorem exec_source [DecidableEq T] {sha256 : Bytes → String} {rt : Runtime} {c : AcquisitionCall T} {view : SourceView} {created : Bool}
    (h : c.exec sha256 rt w = (.source view created, w')) :
    ∃ s, ∃ v ∈ w'.catalog.versions, v.sourceId = s.id ∧ view = .of s v := by
  have hview : ∀ {p}, w'.catalog.selectView p = some view → ∃ s, ∃ v ∈ w'.catalog.versions, v.sourceId = s.id ∧ view = .of s v := by
    intro p hp
    obtain ⟨s, -, v, hv, -, hid, rfl, -⟩ := Catalog.selectView_some hp
    exact ⟨s, v, hv, hid, rfl⟩
  cases c with
  | put t data contentType referrer now =>
    simp only [AcquisitionCall.exec, put] at h
    repeat' split at h
    all_goals cases h
  | insertBlob t now =>
    simp only [AcquisitionCall.exec, insertBlob] at h
    repeat' split at h
    all_goals cases h
  | acquire t command blob versionId =>
    simp only [AcquisitionCall.exec, acquire] at h
    split at h
    · simp only [refresh] at h
      repeat' split at h
      all_goals cases h
      exact hview ‹_›
    · cases h
    · simp only [select] at h
      split at h
      · cases h
        exact hview ‹_›
      · cases h
  | acquireUnavailable t command url reason =>
    simp only [AcquisitionCall.exec, acquireUnavailable, select] at h
    split at h
    · cases h
      exact hview ‹_›
    · cases h
  | insert t sourceId versionId =>
    simp only [AcquisitionCall.exec, insert] at h
    repeat' split at h
    all_goals cases h
    exact hview ‹_›
  | abort t => cases h
  | erase t sourceId => cases h
  | eraseDerivatives t artifactVersionIds =>
    simp only [AcquisitionCall.exec, eraseDerivatives] at h
    split at h <;> cases h
  | eraseObjects t =>
    simp only [AcquisitionCall.exec, eraseObjects] at h
    split at h <;> cases h
  | other call =>
    simp only [AcquisitionCall.exec] at h
    split at h <;> cases h

end AcquisitionWorld

/-! ## The keys -/

namespace PgJobRepository

variable {env : Env} {job : JobRecord} {requestHash scope key : String} {db db' : JobDb} {res : JobRecord × Bool}

/-- The key under the name, as a claim reads it. -/
def keyNamed (db : JobDb) (scope key : String) : Option IdempotencyKey :=
  db.idempotencyKeys.find? fun k => k.scope = scope && k.key = key

theorem keyNamed_some {k : IdempotencyKey} (h : keyNamed db scope key = some k) :
    k ∈ db.idempotencyKeys ∧ k.scope = scope ∧ k.key = key := by
  refine ⟨List.mem_of_find?_eq_some h, ?_⟩
  simpa using List.find?_some h

theorem enqueue_ok (h : enqueue env job requestHash (some scope) (some key) db = .ok (res, db')) :
    keyNamed db scope key = none ∧ db'.idempotencyKeys = db.idempotencyKeys ++ [⟨env.newKeyId, scope, key, requestHash⟩] ∨
      (∃ k, keyNamed db scope key = some k ∧ k.requestHash = requestHash) ∧ db'.idempotencyKeys = db.idempotencyKeys := by
  obtain ⟨⟨keyId, db₁⟩, hclaim, h⟩ := Except.bind_ok_iff.1 h
  have hkeys : db'.idempotencyKeys = db₁.idempotencyKeys := by
    dsimp only at h
    split at h
    · rw [JobRow.jobFromRow_eq] at h
      cases h
      rfl
    · obtain ⟨⟨row, db₂⟩, hinsert, h⟩ := Except.bind_ok_iff.1 h
      dsimp only at h
      rw [JobRow.jobFromRow_eq] at h
      cases h
      unfold insertJob at hinsert
      split at hinsert
      · cases hinsert
      · cases hinsert
        rfl
  rw [hkeys]
  simp only [claimIdempotency] at hclaim
  split at hclaim
  · next hnone =>
    obtain ⟨db₂, hinsert, hclaim⟩ := Except.bind_ok_iff.1 hclaim
    cases hclaim
    unfold insertKey at hinsert
    split at hinsert
    · cases hinsert
    · cases hinsert
      exact .inl ⟨hnone, rfl⟩
  · next k hsome =>
    split at hclaim
    · cases hclaim
    · next hhash =>
      cases hclaim
      exact .inr ⟨⟨k, hsome, not_not.1 hhash⟩, rfl⟩

/-- Where nothing is there, nothing fails. -/
theorem enqueue_empty (env : Env) (job : JobRecord) (requestHash scope key : String) :
    ∃ res db, enqueue env job requestHash (some scope) (some key) {} = .ok (res, db) := by
  simp [enqueue, claimIdempotency, insertKey, insertJob, jobForKey, JobDb.job?, Table.lookup, JobRow.jobFromRow_eq, bind, Except.bind, pure,
    Except.pure]

/-- After the claim only a constraint may fail. -/
theorem enqueue_error {e : JobError} {scope key : Option String} (h : enqueue env job requestHash scope key db = .error e) :
    claimIdempotency env requestHash scope key db = .error e ∨ ∃ name, e = .database name := by
  cases hclaim : claimIdempotency env requestHash scope key db with
  | error e' =>
    simp only [enqueue, hclaim, bind, Except.bind] at h
    cases h
    exact .inl rfl
  | ok claimed =>
    obtain ⟨keyId, db₁⟩ := claimed
    simp only [enqueue, hclaim, bind, Except.bind, JobRow.jobFromRow_eq] at h
    split at h
    · cases h
    · unfold insertJob at h
      split at h
      · next hinsert =>
        split at hinsert
        · cases hinsert
          cases h
          exact .inr ⟨_, rfl⟩
        · cases hinsert
      · cases h

/-- A conflict is a key whose request was another. -/
theorem enqueue_conflict_iff :
    (∃ key' scope', enqueue env job requestHash (some scope) (some key) db = .error (.idempotencyConflict key' scope')) ↔
      ∃ k, keyNamed db scope key = some k ∧ k.requestHash ≠ requestHash := by
  constructor
  · rintro ⟨key', scope', h⟩
    rcases enqueue_error h with hclaim | ⟨name, hname⟩
    · simp only [claimIdempotency, bind, Except.bind] at hclaim
      split at hclaim
      · unfold insertKey at hclaim
        split at hclaim
        · next hinsert =>
          split at hinsert <;> cases hinsert
          cases hclaim
        · cases hclaim
      · next k hsome =>
        split at hclaim
        · next hhash => exact ⟨k, hsome, hhash⟩
        · cases hclaim
    · cases hname
  · rintro ⟨k, hsome, hhash⟩
    refine ⟨key, scope, ?_⟩
    unfold keyNamed at hsome
    simp [enqueue, claimIdempotency, hsome, hhash, bind, Except.bind]

end PgJobRepository

/-! ## What is known of the jobs that were enqueued -/

namespace ParseWorld

variable {T : Type} {w w' : ParseWorld T} {h : Hashing} {sha256 : Bytes → String}

/-- The catalog has returned the view: to a call that goes on with it, or to one that has enqueued its job. -/
def Seen (w : ParseWorld T) (view : SourceView) : Prop :=
  (∃ t request, w.returned t = some (request, view)) ∨ ∃ request, (request, view) ∈ w.published

/-- What was returned of a version still says what it says. -/
structure Viewed (sha256 : Bytes → String) (w : ParseWorld T) : Prop where
  sound : w.acquisition.Sound sha256
  recorded : ∀ view, w.Seen view → w.acquisition.Recorded view
  consistent : ∀ view view', w.Seen view → w.Seen view' → AcquisitionWorld.Consistent view view'

/-- The key is of the job of the call. -/
def Keys (h : Hashing) (k : IdempotencyKey) (e : AcquireRequest × SourceView) : Prop :=
  k.scope = e.1.scope ∧ k.key = AcquireRequest.key e.2 ∧ k.requestHash = (e.1.publishJob e.2).requestHash h

/-- The keys of parse jobs are those of the jobs that were enqueued. -/
structure Keyed (h : Hashing) (w : ParseWorld T) : Prop where
  keyed : ∀ e ∈ w.published, ∃ k ∈ w.jobs.idempotencyKeys, Keys h k e
  known : ∀ k ∈ w.jobs.idempotencyKeys, ParseScope k.scope → ∃ e ∈ w.published, Keys h k e
  unique : ∀ k ∈ w.jobs.idempotencyKeys, ∀ k' ∈ w.jobs.idempotencyKeys, ParseScope k.scope →
    k.scope = k'.scope → k.key = k'.key → k = k'

theorem consistent_symm {view view' : SourceView} (hc : AcquisitionWorld.Consistent view view') :
    AcquisitionWorld.Consistent view' view := by
  intro hsame
  obtain ⟨hsource, hblob⟩ := hc hsame.symm
  refine ⟨hsource.symm, fun h₁ h₂ => ?_⟩
  obtain ⟨hid, hdigest⟩ := hblob h₂ h₁
  exact ⟨hid.symm, hdigest.symm⟩

/-- A call on the sources, of whose answers the calls go on with views only. -/
theorem Viewed.sources [DecidableEq T] (hw : w.Viewed sha256) (rt : Runtime) {c : AcquisitionCall T} (hen : c.Enabled w.acquisition)
    (hacq : w'.acquisition = (c.exec sha256 rt w.acquisition).2) (hpub : w'.published = w.published)
    (hret : ∀ t request view, w'.returned t = some (request, view) →
      w.returned t = some (request, view) ∨ ∃ created, (c.exec sha256 rt w.acquisition).1 = .source view created) :
    w'.Viewed sha256 := by
  have hc := AcquisitionWorld.exec_change sha256 rt hen
  have hsound : w'.acquisition.Sound sha256 :=
    hacq ▸ ⟨hw.sound.distinct.change hc, hw.sound.stored.change hc, hw.sound.referred.change hw.sound.stored hc⟩
  -- A view is one of before, or the one that is returned now, of a version that is there.
  have hnew : ∀ view, w'.Seen view →
      w.Seen view ∨ ∃ s, ∃ v ∈ w'.acquisition.catalog.versions, v.sourceId = s.id ∧ view = .of s v := by
    rintro view (⟨t, request, ht⟩ | ⟨request, hmem⟩)
    · rcases hret t request view ht with hold | ⟨created, hcreated⟩
      · exact .inl (.inl ⟨t, request, hold⟩)
      · have hexec : c.exec sha256 rt w.acquisition = (.source view created, w'.acquisition) := Prod.ext hcreated hacq.symm
        exact .inr (AcquisitionWorld.exec_source hexec)
    · exact .inl (.inr ⟨request, hpub ▸ hmem⟩)
  have hrecorded : ∀ view, w.Seen view → w'.acquisition.Recorded view := fun view hview =>
    hacq ▸ (hw.recorded view hview).change hc
  refine ⟨hsound, fun view hview => ?_, fun view view' hview hview' => ?_⟩
  · rcases hnew view hview with hold | ⟨s, v, hv, hid, rfl⟩
    · exact hrecorded view hold
    · exact AcquisitionWorld.recorded_of hv hid
  · rcases hnew view' hview' with hold' | ⟨s, v, hv, hid, rfl⟩
    · rcases hnew view hview with hold | ⟨s, v, hv, hid, rfl⟩
      · exact hw.consistent view view' hold hold'
      · exact consistent_symm ((hrecorded view' hold').consistent hsound.referred hv hid)
    · rcases hnew view hview with hold | ⟨s', v', hv', hid', rfl⟩
      · exact (hrecorded view hold).consistent hsound.referred hv hid
      · exact (AcquisitionWorld.recorded_of hv' hid').consistent hsound.referred hv hid

/-- What is seen no more changes nothing. -/
theorem Viewed.mono (hw : w.Viewed sha256) (hacq : w'.acquisition = w.acquisition) (hseen : ∀ view, w'.Seen view → w.Seen view) :
    w'.Viewed sha256 :=
  ⟨hacq ▸ hw.sound, fun view hview => hacq ▸ hw.recorded view (hseen view hview),
    fun view view' hview hview' => hw.consistent view view' (hseen view hview) (hseen view' hview')⟩

/-- The jobs of others. -/
theorem Keyed.jobs (hw : w.Keyed h) (hkeys : ∀ k, ParseScope k.scope → (k ∈ w'.jobs.idempotencyKeys ↔ k ∈ w.jobs.idempotencyKeys))
    (hpub : w'.published = w.published) : w'.Keyed h := by
  refine ⟨fun e he => ?_, fun k hk hscope => ?_, fun k hk k' hk' hscope hsame => ?_⟩
  · obtain ⟨k, hk, hkeyed⟩ := hw.keyed e (hpub ▸ he)
    exact ⟨k, (hkeys k ⟨e.1, hkeyed.1⟩).2 hk, hkeyed⟩
  · exact hpub ▸ hw.known k ((hkeys k hscope).1 hk) hscope
  · exact hw.unique k ((hkeys k hscope).1 hk) k' ((hkeys k' (hsame ▸ hscope)).1 hk') hscope hsame

/-- A job that is enqueued, or found. -/
theorem Keyed.publish (hw : w.Keyed h) (request : AcquireRequest) (view : SourceView)
    (hpub : w'.published = (request, view) :: w.published)
    (hkeys : PgJobRepository.keyNamed w.jobs request.scope (AcquireRequest.key view) = none ∧
        (∃ id, w'.jobs.idempotencyKeys = w.jobs.idempotencyKeys ++
          [⟨id, request.scope, AcquireRequest.key view, (request.publishJob view).requestHash h⟩]) ∨
      (∃ k, PgJobRepository.keyNamed w.jobs request.scope (AcquireRequest.key view) = some k ∧
        k.requestHash = (request.publishJob view).requestHash h) ∧ w'.jobs.idempotencyKeys = w.jobs.idempotencyKeys) :
    w'.Keyed h := by
  rcases hkeys with ⟨hnone, id, hkeys⟩ | ⟨⟨k₀, hsome, hhash⟩, hkeys⟩
  · have hfree : ∀ k ∈ w.jobs.idempotencyKeys, k.scope = request.scope → k.key ≠ AcquireRequest.key view := by
      simpa [PgJobRepository.keyNamed] using hnone
    refine ⟨fun e he => ?_, fun k hk hscope => ?_, ?_⟩
    · rw [hpub] at he
      rcases List.mem_cons.1 he with rfl | he
      · exact ⟨_, hkeys ▸ List.mem_append_right _ (List.mem_singleton.2 rfl), rfl, rfl, rfl⟩
      · obtain ⟨k, hk, hkeyed⟩ := hw.keyed e he
        exact ⟨k, hkeys ▸ List.mem_append_left _ hk, hkeyed⟩
    · rw [hkeys] at hk
      rcases List.mem_append.1 hk with hk | hk
      · obtain ⟨e, he, hkeyed⟩ := hw.known k hk hscope
        exact ⟨e, hpub ▸ List.mem_cons_of_mem _ he, hkeyed⟩
      · obtain rfl := List.mem_singleton.1 hk
        exact ⟨(request, view), hpub ▸ List.mem_cons_self, rfl, rfl, rfl⟩
    · intro k hk k' hk' hscope hsame hkey
      rw [hkeys] at hk hk'
      rcases List.mem_append.1 hk with hk | hk <;> rcases List.mem_append.1 hk' with hk' | hk'
      · exact hw.unique k hk k' hk' hscope hsame hkey
      · obtain rfl := List.mem_singleton.1 hk'
        exact absurd hkey (hfree k hk hsame)
      · obtain rfl := List.mem_singleton.1 hk
        exact absurd hkey.symm (hfree k' hk' hsame.symm)
      · rw [List.mem_singleton.1 hk, List.mem_singleton.1 hk']
  · obtain ⟨hmem, hscope₀, hkey₀⟩ := PgJobRepository.keyNamed_some hsome
    refine ⟨fun e he => ?_, fun k hk hscope => ?_, hkeys ▸ hw.unique⟩
    · rw [hpub] at he
      rcases List.mem_cons.1 he with rfl | he
      · exact ⟨k₀, hkeys ▸ hmem, hscope₀, hkey₀, hhash⟩
      · exact hkeys ▸ hw.keyed e he
    · obtain ⟨e, he, hkeyed⟩ := hw.known k (hkeys ▸ hk) hscope
      exact ⟨e, hpub ▸ List.mem_cons_of_mem _ he, hkeyed⟩

/-! ## Runs from nothing -/

/-- No source is there, no parse job, and no call. -/
structure Start (w : ParseWorld T) : Prop where
  acquisition : w.acquisition.Empty
  keys : ∀ k ∈ w.jobs.idempotencyKeys, ¬ ParseScope k.scope
  requests : ∀ t, w.requests t = none
  returned : ∀ t, w.returned t = none
  published : w.published = []

variable [DecidableEq T] {rt : Runtime}

omit [DecidableEq T] in
theorem Start.tracked (hw : w.Start) : w.Viewed sha256 ∧ w.Keyed h := by
  have hseen : ∀ view, ¬ w.Seen view := by
    rintro view (⟨t, request, ht⟩ | ⟨request, hmem⟩)
    · rw [hw.returned] at ht
      cases ht
    · rw [hw.published] at hmem
      cases hmem
  refine ⟨⟨AcquisitionWorld.sound_empty hw.acquisition, fun view hview => absurd hview (hseen view),
    fun view _ hview => absurd hview (hseen view)⟩, ⟨?_, ?_, ?_⟩⟩
  · intro e he
    rw [hw.published] at he
    cases he
  · exact fun k hk hscope => absurd hscope (hw.keys k hk)
  · exact fun k hk _ _ hscope => absurd hscope (hw.keys k hk)

theorem update_returned {returned : T → Option (AcquireRequest × SourceView)} {t t' : T} {new e}
    (ht : Function.update returned t new t' = some e) : returned t' = some e ∨ new = some e := by
  by_cases heq : t' = t
  · subst heq
    exact .inr (by simpa using ht)
  · exact .inl (by simpa [heq] using ht)

theorem Viewed.acquire (hw : w.Viewed sha256) {t : T} {request : AcquireRequest} {blob : BlobObject} {versionId : Uuid}
    (hen : (AcquisitionCall.acquire t request.command blob versionId).Enabled w.acquisition) :
    (w.acquire sha256 rt t request blob versionId).Viewed sha256 := by
  unfold ParseWorld.acquire
  split
  · next view created acquisition hexec =>
    refine hw.sources rt hen (congrArg Prod.snd hexec).symm rfl fun t' request' view' ht' => ?_
    rcases update_returned ht' with hold | hnew
    · exact .inl hold
    · cases hnew
      exact .inr ⟨created, congrArg Prod.fst hexec⟩
  · next acquisition hexec => exact hw.sources rt hen (congrArg Prod.snd hexec).symm rfl fun _ _ _ ht' => .inl ht'
  · next acquisition hexec => exact hw.sources rt hen (congrArg Prod.snd hexec).symm rfl fun _ _ _ ht' => .inl ht'

theorem Viewed.insert (hw : w.Viewed sha256) {t : T} {sourceId versionId : Uuid} {request : AcquireRequest}
    (hen : (AcquisitionCall.insert t sourceId versionId).Enabled w.acquisition) :
    (w.insert sha256 rt t sourceId versionId request).Viewed sha256 := by
  unfold ParseWorld.insert
  split
  · next view created acquisition hexec =>
    refine hw.sources rt hen (congrArg Prod.snd hexec).symm rfl fun t' request' view' ht' => ?_
    rcases update_returned ht' with hold | hnew
    · exact .inl hold
    · cases hnew
      exact .inr ⟨created, congrArg Prod.fst hexec⟩
  · next acquisition hexec => exact hw.sources rt hen (congrArg Prod.snd hexec).symm rfl fun _ _ _ ht' => .inl ht'

theorem Viewed.publish (hw : w.Viewed sha256) {t : T} {env : Env} {request : AcquireRequest} {view : SourceView} {job : JobRecord}
    (ht : w.returned t = some (request, view)) : (w.publish h t env request view job).Viewed sha256 := by
  unfold ParseWorld.publish
  split
  · refine hw.mono rfl ?_
    rintro view' (⟨t', request', ht'⟩ | hpublished)
    · rcases update_returned ht' with hold | hnew
      · exact .inl ⟨t', request', hold⟩
      · cases hnew
    · exact .inr hpublished
  · refine hw.mono rfl ?_
    rintro view' (⟨t', request', ht'⟩ | ⟨request', hmem⟩)
    · rcases update_returned ht' with hold | hnew
      · exact .inl ⟨t', request', hold⟩
      · cases hnew
    · rcases List.mem_cons.1 hmem with heq | hmem
      · cases heq
        exact .inl ⟨t, request, ht⟩
      · exact .inr ⟨request', hmem⟩

omit [DecidableEq T] in
/-- What publishes nothing and leaves the jobs. -/
theorem Keyed.mono (hw : w.Keyed h) (hjobs : w'.jobs = w.jobs) (hpub : w'.published = w.published) : w'.Keyed h :=
  hw.jobs (fun _ _ => by rw [hjobs]) hpub

theorem Keyed.publishes (hw : w.Keyed h) {t : T} {env : Env} {request : AcquireRequest} {view : SourceView} {job : JobRecord} :
    (w.publish h t env request view job).Keyed h := by
  unfold ParseWorld.publish
  split
  · exact hw.mono rfl rfl
  · next res jobs hok =>
    refine hw.publish request view rfl ?_
    rcases PgJobRepository.enqueue_ok hok with ⟨hnone, hkeys⟩ | hsome
    · exact .inl ⟨hnone, _, hkeys⟩
    · exact .inr hsome

/-- **Every step keeps both.** -/
theorem tracked_step (hviewed : w.Viewed sha256) (hkeyed : w.Keyed h) (hst : ParseStep sha256 rt h w w') :
    w'.Viewed sha256 ∧ w'.Keyed h := by
  cases hst with
  | acquire t request blob versionId hen =>
    refine ⟨hviewed.acquire hen, ?_⟩
    unfold acquire
    split <;> exact hkeyed.mono rfl rfl
  | insert t sourceId versionId request hen hrequest =>
    refine ⟨hviewed.insert hen, ?_⟩
    unfold insert
    split <;> exact hkeyed.mono rfl rfl
  | publish t env request view job ht hbuilds => exact ⟨hviewed.publish ht, hkeyed.publishes⟩
  | sources c hen => exact ⟨hviewed.sources rt hen rfl rfl fun _ _ _ ht => .inl ht, hkeyed.mono rfl rfl⟩
  | abort t =>
    refine ⟨hviewed.sources rt (c := .abort t) trivial rfl rfl fun t' request view ht' => ?_, hkeyed.mono rfl rfl⟩
    rcases update_returned ht' with hold | hnew
    · exact .inl hold
    · cases hnew
  | jobs db hkeys => exact ⟨hviewed.mono rfl fun _ hview => hview, hkeyed.jobs hkeys rfl⟩

theorem tracked_reach (hw : Reach Start (ParseStep sha256 rt h) w) : w.Viewed sha256 ∧ w.Keyed h := by
  refine Reach.invariant (I := fun w => w.Viewed sha256 ∧ w.Keyed h) (fun w hs => ?_) (fun w w' _ hi hst => ?_) hw
  · exact hs.tracked
  · exact tracked_step hi.1 hi.2 hst

omit [DecidableEq T] in
/-- **A publish conflicts with the job of another payload**, and with no other. -/
theorem Keyed.conflict_iff (hw : w.Keyed h) (env : Env) (request : AcquireRequest) (view : SourceView) (job : JobRecord) :
    (∃ key scope, w.enqueue h env request view job = .error (.idempotencyConflict key scope)) ↔
      ∃ e ∈ w.published, e.1.scope = request.scope ∧ e.2.sourceVersionId = view.sourceVersionId ∧
        (e.1.publishJob e.2).requestHash h ≠ (request.publishJob view).requestHash h := by
  refine PgJobRepository.enqueue_conflict_iff.trans ⟨?_, ?_⟩
  · rintro ⟨k, hsome, hhash⟩
    obtain ⟨hmem, hscope, hkey⟩ := PgJobRepository.keyNamed_some hsome
    obtain ⟨e, he, hscope', hkey', hhash'⟩ := hw.known k hmem ⟨request, hscope⟩
    refine ⟨e, he, hscope'.symm.trans hscope, AcquireRequest.key_inj (hkey'.symm.trans hkey), ?_⟩
    rwa [← hhash']
  · rintro ⟨e, he, hscope, hversion, hhash⟩
    obtain ⟨k, hmem, hscope', hkey', hhash'⟩ := hw.keyed e he
    have hkey : k.key = AcquireRequest.key view := by rw [hkey', AcquireRequest.key, AcquireRequest.key, hversion]
    cases hsome : PgJobRepository.keyNamed w.jobs request.scope (AcquireRequest.key view) with
    | none =>
      have hfree : ∀ k ∈ w.jobs.idempotencyKeys, k.scope = request.scope → k.key ≠ AcquireRequest.key view := by
        simpa [PgJobRepository.keyNamed] using hsome
      exact absurd hkey (hfree k hmem (hscope'.trans hscope))
    | some k' =>
      obtain ⟨hmem', hscope'', hkey''⟩ := PgJobRepository.keyNamed_some hsome
      obtain rfl : k' = k := hw.unique k' hmem' k hmem ⟨request, hscope''⟩
        (hscope''.trans (hscope'.trans hscope).symm) (hkey''.trans hkey.symm)
      exact ⟨k', hsome, by rwa [hhash']⟩

end ParseWorld

/-! ## When two payloads are one -/

namespace AcquireRequest

theorem capturePayload_inj {c c' : Option WebCaptureMetadata} (h : capturePayload c = capturePayload c') : c = c' := by
  cases c with
  | none =>
    cases c' with
    | none => rfl
    | some capture => cases h
  | some capture =>
    cases c' with
    | none => cases h
    | some capture' =>
      obtain ⟨requestedUrl, finalUrl, capturedAt, statusCode, contentSha256, contentType, redirectChain, headers⟩ := capture
      obtain ⟨requestedUrl', finalUrl', capturedAt', statusCode', contentSha256', contentType', redirectChain', headers'⟩ := capture'
      simp only [capturePayload, List.cons.injEq, Prod.mk.injEq, Json.str.injEq, Json.int.injEq, Json.obj.injEq, Json.arr.injEq,
        true_and, and_true] at h
      obtain ⟨rfl, rfl, rfl, -, -, rfl, rfl, rfl, hchain, hheaders⟩ := h
      obtain rfl : redirectChain = redirectChain' := List.map_injective_iff.2 (fun _ _ => Json.str.inj) hchain
      obtain rfl : headers = headers' := by
        refine List.map_injective_iff.2 (fun a b hab => ?_) hheaders
        simpa [Prod.ext_iff] using hab
      rfl

end AcquireRequest

/-- The calls were given one capture, or none, and what the version says of its bytes has not changed between them. -/
def SameInput (e e' : AcquireRequest × SourceView) : Prop :=
  e.1.webCapture = e'.1.webCapture ∧ AcquireRequest.blobText e.2.blobId = AcquireRequest.blobText e'.2.blobId ∧
    e.2.contentSha256 = e'.2.contentSha256

/-- Two payloads of one version are one when the calls were given the same. -/
theorem payload_eq_iff (e e' : AcquireRequest × SourceView) (hsource : e.2.sourceId = e'.2.sourceId)
    (hversion : e.2.sourceVersionId = e'.2.sourceVersionId) : e.1.payload e.2 = e'.1.payload e'.2 ↔ SameInput e e' := by
  simp only [AcquireRequest.payload, hsource, hversion, SameInput, List.cons_append, List.nil_append, List.cons.injEq, Prod.mk.injEq,
    Json.str.injEq, true_and]
  constructor
  · intro ⟨hblob, hdigest, hcapture⟩
    exact ⟨AcquireRequest.capturePayload_inj hcapture, hblob, hdigest⟩
  · intro ⟨hcapture, hblob, hdigest⟩
    exact ⟨hblob, hdigest, congrArg _ hcapture⟩

variable {T : Type} [DecidableEq T]

/-- **The parse job of a version conflicts when the call was given something else** than one that enqueued it, in every
run; and what the views of one version say is the same as long as it has its blob. The hash is asked to tell the
payloads apart. -/
theorem parse_job_conflict_iff (sha256 : Bytes → String) (rt : Runtime) (h : Hashing) :
    ∀ w : ParseWorld T, Reach ParseWorld.Start (ParseStep sha256 rt h) w →
      ∀ t request view, w.returned t = some (request, view) → ∀ env job, (request.publishJob view).Builds h job →
        (∀ e ∈ w.published, (e.1.publishJob e.2).requestHash h = (request.publishJob view).requestHash h →
          e.1.payload e.2 = request.payload view) →
        ((∀ key scope, w.enqueue h env request view job ≠ .error (.idempotencyConflict key scope)) ↔
          ∀ e ∈ w.published, e.2.sourceVersionId = view.sourceVersionId → e.1.command.actorId = request.command.actorId →
            e.1.command.notebookId = request.command.notebookId → SameInput e (request, view)) ∧
          ∀ e ∈ w.published, AcquisitionWorld.Consistent e.2 view := by
  intro w hw t request view ht env job _ htells
  obtain ⟨hviewed, hkeyed⟩ := ParseWorld.tracked_reach hw
  have hconsistent : ∀ e ∈ w.published, AcquisitionWorld.Consistent e.2 view := fun e he =>
    hviewed.consistent e.2 view (.inr ⟨e.1, he⟩) (.inl ⟨t, request, ht⟩)
  have hconflict := hkeyed.conflict_iff env request view job
  refine ⟨⟨fun hnever e he hversion huser hnotebook => ?_, fun hsame key scope hraised => ?_⟩, hconsistent⟩
  · have hscope : e.1.scope = request.scope := by simp [AcquireRequest.scope, idempotencyScope, huser, hnotebook]
    have hhash : (e.1.publishJob e.2).requestHash h = (request.publishJob view).requestHash h := by
      by_contra hne
      obtain ⟨key, scope, hraised⟩ := hconflict.2 ⟨e, he, hscope, hversion, hne⟩
      exact hnever key scope hraised
    exact (payload_eq_iff e (request, view) (hconsistent e he hversion).1 hversion).1 (htells e he hhash)
  · obtain ⟨e, he, hscope, hversion, hhash⟩ := hconflict.1 ⟨key, scope, hraised⟩
    obtain ⟨huser, hnotebook⟩ := AcquireRequest.scope_inj hscope
    have hpayload := (payload_eq_iff e (request, view) (hconsistent e he hversion).1 hversion).2
      (hsame e he hversion huser hnotebook)
    refine hhash ?_
    simp only [EnqueueRequest.requestHash, AcquireRequest.publishJob, hpayload]

/-! ## A page captured twice -/

def notesUrl : String := "https://example.org/notes"

/-- Notebook 2, member 9: a capture of the page at a time. -/
def capturedAt (time : String) : AcquireRequest where
  command := { notebookId := 2, actorId := 9, displayTitle := "Notes", originKind := "web_url", requestedUrl := some notesUrl }
  webCapture := some ⟨notesUrl, notesUrl, time, 200, helloDigest, "text/plain", [], []⟩
  captured := rfl

def pageSource : Source := ⟨5, 2, .plainText, "web_url:" ++ notesUrl, "Notes", .active, none⟩

def pageVersion : CatalogVersion := ⟨⟨6, 5, some 0, helloDigest, some 5⟩, 1, .activating, none⟩

/-- Source 5 is of the page. -/
def pageAcquired : AcquisitionWorld Nat where
  catalog :=
    { sources := [pageSource]
      versions := [pageVersion]
      blobReferences := [⟨0, "source_version", 6⟩]
      memberships := [⟨2, 9⟩] }
  blobObjects := [helloFile]
  nextBlob := 1
  handed := [helloFile]

/-- It tells payloads apart by the time of their capture. -/
def captureHashing : Hashing where
  dumps
    | .obj [_, _, (_, .obj payload)] => match payload.lookup "web_captured_at" with
      | some (.str time) => time
      | _ => ""
    | _ => ""
  sha256 := id

/-- The page is captured, its job enqueued, and the page captured again. -/
theorem captured_again (time : String) : ∃ w : ParseWorld Nat,
    Reach ParseWorld.Start (ParseStep (fun _ => helloDigest) sampleRuntime captureHashing) w ∧
      w.returned 0 = some (capturedAt time, .of pageSource pageVersion) ∧
      w.published = [(capturedAt "2026-01-05T09:00:00Z", .of pageSource pageVersion)] := by
  have h₀ : Reach ParseWorld.Start (ParseStep (fun _ => helloDigest) sampleRuntime captureHashing) ({} : ParseWorld Nat) :=
    .start ⟨rfl, fun _ hk => (List.not_mem_nil hk).elim, fun _ => rfl, fun _ => rfl, rfl⟩
  have h₁ := h₀.next (.sources (.put 0 hello (some "text/plain") none 0) rfl (fun _ hk => by cases hk) fun _ _ _ hk => by cases hk)
  have h₂ := h₁.next (.sources (.insertBlob 0 0) ⟨hello, some "text/plain", none, rfl⟩ (fun _ hk => by cases hk)
    fun _ _ _ hk => by cases hk)
  have h₃ := h₂.next (.sources (.other (.administer [⟨2, 9⟩] [])) trivial (fun _ hk => by cases hk)
    fun _ _ _ hk => by cases hk)
  have hstored : Reach ParseWorld.Start (ParseStep (fun _ => helloDigest) sampleRuntime captureHashing)
      ({ acquisition := storedHello } : ParseWorld Nat) := by
    convert h₃ using 1
    simp [storedHello, AcquisitionCall.exec, AcquisitionWorld.put, AcquisitionWorld.insertBlob, AcquisitionWorld.setTxn,
      AcquisitionWorld.handOver, AcquisitionWorld.newBlob, SourceCall.exec, helloFile, hello]
  -- The first capture finds no source of the page and inserts one.
  let first := capturedAt "2026-01-05T09:00:00Z"
  let insertion := Insertion.acquired first.command helloFile .plainText
  have h₄ := hstored.next (.acquire 0 first helloFile 7 ⟨rfl, List.mem_singleton.2 rfl, (fun hk => by cases hk),
    fun _ _ _ hk => by cases hk⟩)
  have hacquire : (AcquisitionCall.acquire 0 first.command helloFile 7).exec (fun _ => helloDigest) sampleRuntime storedHello =
      (.waits, storedHello.setTxn 0 (some (.inserting insertion))) := by
    have hnone : storedHello.catalog.selectView (Catalog.hasOrigin insertion.notebookId insertion.origin) = none := selectView_nil rfl
    show storedHello.select 0 insertion = _
    simp only [AcquisitionWorld.select, hnone]
  simp only [ParseWorld.acquire, hacquire] at h₄
  have h₅ := h₄.next (.insert 0 5 6 first ⟨insertion, rfl⟩ rfl)
  have hinsert : (AcquisitionCall.insert 0 5 6).exec (fun _ => helloDigest) sampleRuntime
      (storedHello.setTxn 0 (some (.inserting insertion))) =
        (.source (.of pageSource pageVersion) true, pageAcquired) := by
    have hview : pageAcquired.catalog.selectView (·.id = 5) = some (.of pageSource pageVersion) := selectView_one rfl rfl
    have hok : insertion.insert storedHello.catalog 5 6 = .ok pageAcquired.catalog := rfl
    have hinserted := AcquisitionWorld.insert_source (w := storedHello.setTxn 0 (some (.inserting insertion))) (t := 0)
      rfl hok rfl hview
    simp only [AcquisitionCall.exec, hinserted]
    simp [AcquisitionWorld.setTxn, storedHello, pageAcquired]
  simp only [ParseWorld.insert, hinsert] at h₅
  -- Its job is enqueued; the second capture finds the source.
  have h₆ := h₅.next (.publish 0 (.fixed 1 1) first (.of pageSource pageVersion)
    ((first.publishJob (.of pageSource pageVersion)).job captureHashing 1) rfl ⟨1, .inl rfl⟩)
  obtain ⟨res, jobs, hjob⟩ := PgJobRepository.enqueue_empty (.fixed 1 1)
    ((first.publishJob (.of pageSource pageVersion)).job captureHashing 1)
    ((first.publishJob (.of pageSource pageVersion)).requestHash captureHashing) first.scope
    (AcquireRequest.key (.of pageSource pageVersion))
  have henqueue : ∀ w : ParseWorld Nat, w.jobs = {} → w.enqueue captureHashing (.fixed 1 1) first (.of pageSource pageVersion)
      ((first.publishJob (.of pageSource pageVersion)).job captureHashing 1) = .ok (res, jobs) := by
    intro w hempty
    simp only [ParseWorld.enqueue, hempty]
    exact hjob
  simp only [ParseWorld.publish, henqueue] at h₆
  have hagain : (AcquisitionCall.acquire 0 (capturedAt time).command helloFile 7).exec (fun _ => helloDigest) sampleRuntime
      pageAcquired = (.source (.of pageSource pageVersion) false, pageAcquired) := by
    let insertion := Insertion.acquired (capturedAt time).command helloFile .plainText
    have hview : pageAcquired.catalog.selectView (Catalog.hasOrigin insertion.notebookId insertion.origin) =
        some (.of pageSource pageVersion) := selectView_one rfl rfl
    show pageAcquired.select 0 insertion = _
    simp only [AcquisitionWorld.select, hview]
  have h₇ := h₆.next (.acquire 0 (capturedAt time) helloFile 7 ⟨rfl, List.mem_singleton.2 rfl, (fun hk => by cases hk),
    fun _ _ _ hk => by cases hk⟩)
  simp only [ParseWorld.acquire, hagain] at h₇
  exact ⟨_, h₇, by simp, rfl⟩

/-- At one time the second capture finds its job, -/
theorem parse_job_conflict_iff_again : ∃ w : ParseWorld Nat,
    w.returned 0 = some (capturedAt "2026-01-05T09:00:00Z", .of pageSource pageVersion) ∧ ∀ key scope,
      w.enqueue captureHashing (.fixed 2 2) (capturedAt "2026-01-05T09:00:00Z") (.of pageSource pageVersion)
        (((capturedAt "2026-01-05T09:00:00Z").publishJob (.of pageSource pageVersion)).job captureHashing 2) ≠
          .error (.idempotencyConflict key scope) := by
  obtain ⟨w, hw, hreturned, hpublished⟩ := captured_again "2026-01-05T09:00:00Z"
  refine ⟨w, hreturned, ((parse_job_conflict_iff _ _ _ w hw 0 _ _ hreturned _ _ ⟨2, .inl rfl⟩ ?_).1.2 ?_)⟩
  · intro e he _
    rw [hpublished] at he
    rw [List.mem_singleton.1 he]
  · intro e he _ _ _
    rw [hpublished] at he
    rw [List.mem_singleton.1 he]
    exact ⟨rfl, rfl, rfl⟩

/-- and at another it conflicts with it. -/
theorem second_capture_conflicts : ¬ ∀ (sha256 : Bytes → String) (rt : Runtime) (h : Hashing),
    ∀ w : ParseWorld Nat, Reach ParseWorld.Start (ParseStep sha256 rt h) w →
      ∀ t request view, w.returned t = some (request, view) → ∀ env job, (request.publishJob view).Builds h job →
        ∀ key scope, w.enqueue h env request view job ≠ .error (.idempotencyConflict key scope) := by
  intro hnever
  obtain ⟨w, hw, hreturned, hpublished⟩ := captured_again "2026-01-05T10:00:00Z"
  have hscope : ∀ time, (capturedAt time).scope = idempotencyScope { userId := 9 } "ingestion.parse" (some 2) := fun _ => rfl
  have hhash : ∀ time, ((capturedAt time).publishJob (.of pageSource pageVersion)).requestHash captureHashing = time := fun _ => rfl
  have hconflict := (ParseWorld.tracked_reach hw).2.conflict_iff (.fixed 2 2) (capturedAt "2026-01-05T10:00:00Z")
    (.of pageSource pageVersion) (((capturedAt "2026-01-05T10:00:00Z").publishJob (.of pageSource pageVersion)).job captureHashing 2)
  obtain ⟨key, scope, hraised⟩ := hconflict.2 ⟨(capturedAt "2026-01-05T09:00:00Z", .of pageSource pageVersion),
    hpublished ▸ List.mem_singleton.2 rfl, by rw [hscope, hscope], rfl, by rw [hhash, hhash]; decide⟩
  exact hnever _ _ _ w hw 0 _ _ hreturned (.fixed 2 2) _ ⟨2, .inl rfl⟩ key scope hraised

end MilpbookLM
