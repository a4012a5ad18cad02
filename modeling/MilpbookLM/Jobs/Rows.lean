/-
Rows of the jobs table: the six physical statuses, the payload column that
carries every field without a column of its own (`packPayload`), and reading a
row back as a record (`jobFromRow`).

A row carries the proof that its payload was packed from some record: the
column is written by `packPayload` alone, so reading a row back never fails
(`JobRow.jobFromRow_eq`), and what was packed is what is read
(`jobFromRow_packed`).
-/
import MilpbookLM.Domain.Jobs

namespace MilpbookLM

/-- `jobs.status`, as its check constraint lists the values. -/
inductive JobStatus
  | queued | leased | running | succeeded | failed | cancelled
  deriving DecidableEq

/-- `JobState(status)`. -/
def JobStatus.state : JobStatus → JobState
  | queued => .queued
  | leased => .leased
  | running => .running
  | succeeded => .succeeded
  | failed => .failed
  | cancelled => .cancelled

/-- In flight: a worker holds the job. -/
def JobStatus.inFlight : JobStatus → Bool
  | leased | running => true
  | _ => false

def JobStatus.terminal (s : JobStatus) : Bool := s.state.terminal

/-- The physical status of a logical state. -/
def physicalStatus : JobState → JobStatus
  | .waitingCapacity | .waitingExternal | .retryScheduled => .queued
  | .queued => .queued
  | .leased => .leased
  | .running => .running
  | .succeeded => .succeeded
  | .failed => .failed
  | .cancelled => .cancelled

@[simp] theorem physicalStatus_terminal (s : JobState) : (physicalStatus s).terminal = s.terminal := by
  cases s <;> rfl

theorem JobStatus.inFlight_not_terminal {s : JobStatus} (h : s.inFlight = true) : s.terminal = false := by
  cases s <;> first | rfl | cases h

def packProgress (p : JobProgress) : Dict :=
  [("phase", .str p.phase), ("fraction", (p.fraction.map Json.float).getD .null), ("status", .ofStr? p.status)]

/-- The payload column of a record. -/
def packPayload (job : JobRecord) : Dict :=
  [("params", .obj job.payload),
    ("request_id", .ofStr? job.requestId),
    ("trace_id", .ofStr? job.traceId),
    ("priority", .int job.priority),
    ("payload_schema_version", .int job.payloadSchemaVersion),
    ("payload_hash", .str job.payloadHashValue),
    ("capability", .ofStr? job.capability),
    ("notebook_id", .ofStr? (job.notebookId.map Uuid.str)),
    ("progress", .ofDict? (job.progress.map packProgress)),
    ("checkpoint", .ofDict? job.checkpoint),
    ("result_ref", .ofStr? job.resultRef),
    ("error_code", .ofStr? job.errorCode),
    ("waiting_reason", .ofStr? job.waitingReason),
    ("cancel_reason", .ofStr? job.cancelReason)]

structure JobRow where
  id : Uuid
  queue : CapacityClass
  kind : String
  payload : Dict
  status : JobStatus
  leaseOwner : Option String
  leaseExpiresAt : Option Time
  attempts : Nat
  maxAttempts : Nat
  idempotencyKeyId : Option Uuid
  requestedByUserId : Option Uuid
  revision : Nat
  enqueuedAt : Time
  startedAt : Option Time
  finishedAt : Option Time
  createdAt : Time
  updatedAt : Time
  /-- Only `packPayload` writes the column. -/
  packed : ∃ job, payload = packPayload job

/-- The logical state of a physical status and its marker. -/
def unpackLogicalState (status : JobStatus) (waitingReason : Option String) : JobState :=
  match status, waitingReason with
  | .queued, some reason => (reasonStates.lookup reason).getD status.state
  | _, _ => status.state

def unpackProgress : Json → Except JobError (Option JobProgress)
  | .obj raw =>
    match raw.find? (·.1 == "phase") with
    | some (_, phase) =>
      .ok (some
        { phase := phase.text
          fraction := (Dict.get raw "fraction").float?
          status := match Dict.get raw "status" with
            | .null => none
            | value => some value.text })
    | none => .error (.keyError "phase")
  | _ => .ok none

def unpackNotebookId (raw : Json) : Except JobError (Option Uuid) :=
  if raw.truthy then
    match Uuid.parse raw.text with
    | some id => .ok (some id)
    | none => .error (.valueError "badly formed hexadecimal UUID string")
  else .ok none

/-- The record of a row: the payload unpacked, the state re-expanded. -/
def jobFromRow (row : JobRow) : Except JobError JobRecord := do
  let raw := row.payload
  let reason := (raw.get "waiting_reason").str?
  let progress ← unpackProgress (raw.get "progress")
  let notebookId ← unpackNotebookId (raw.get "notebook_id")
  return {
    id := row.id
    kind := row.kind
    queue := row.queue
    payload := (raw.get "params").dict?.getD []
    payloadSchemaVersion := (raw.get "payload_schema_version").int?.getD 1
    payloadHashValue := if (raw.get "payload_hash").truthy then (raw.get "payload_hash").text else ""
    actorUserId := row.requestedByUserId
    requestId := (raw.get "request_id").str?
    traceId := (raw.get "trace_id").str?
    notebookId
    capability := (raw.get "capability").str?
    priority := (raw.get "priority").int?.getD 0
    state := unpackLogicalState row.status reason
    attempts := row.attempts
    maxAttempts := row.maxAttempts
    leaseOwner := row.leaseOwner
    leaseExpiresAt := row.leaseExpiresAt
    waitingReason := reason
    progress
    checkpoint := (raw.get "checkpoint").dict?
    resultRef := (raw.get "result_ref").str?
    errorCode := (raw.get "error_code").str?
    cancelReason := (raw.get "cancel_reason").str?
    revision := row.revision
    enqueuedAt := some row.enqueuedAt
    startedAt := row.startedAt
    finishedAt := row.finishedAt
    createdAt := some row.createdAt
    updatedAt := some row.updatedAt }

/-- The marker matters to queued rows only. -/
theorem unpackLogicalState_of_ne {status : JobStatus} (h : status ≠ .queued) (reason : Option String) :
    unpackLogicalState status reason = status.state := by
  cases status <;> first | exact absurd rfl h | rfl

theorem unpackProgress_pack (p : Option JobProgress) :
    unpackProgress (.ofDict? (p.map packProgress)) = .ok p := by
  rcases p with _ | ⟨phase, _ | fraction, _ | status⟩ <;> rfl

theorem unpackNotebookId_pack (id : Option Uuid) : unpackNotebookId (.ofStr? (id.map Uuid.str)) = .ok id := by
  cases id with
  | none => rfl
  | some u =>
    have hne : u.str ≠ "" := fun h => by
      have := Uuid.parse_str u
      rw [h] at this; cases this
    simp [unpackNotebookId, Json.ofStr?, Json.truthy, Json.text, hne, Uuid.parse_str]

/-- **What was packed is what is read.** -/
theorem jobFromRow_packed {row : JobRow} {job : JobRecord} (h : row.payload = packPayload job) :
    jobFromRow row = .ok
      { job with
        id := row.id, kind := row.kind, queue := row.queue, actorUserId := row.requestedByUserId
        state := unpackLogicalState row.status job.waitingReason
        attempts := row.attempts, maxAttempts := row.maxAttempts
        leaseOwner := row.leaseOwner, leaseExpiresAt := row.leaseExpiresAt
        idempotencyScope := none, idempotencyKey := none, cancelledAt := none
        revision := row.revision, enqueuedAt := some row.enqueuedAt
        startedAt := row.startedAt, finishedAt := row.finishedAt
        createdAt := some row.createdAt, updatedAt := some row.updatedAt } := by
  have hp : row.payload.get "progress" = .ofDict? (job.progress.map packProgress) := by rw [h]; rfl
  have hn : row.payload.get "notebook_id" = .ofStr? (job.notebookId.map Uuid.str) := by rw [h]; rfl
  have hh : (if (Json.str job.payloadHashValue).truthy then (Json.str job.payloadHashValue).text else "")
      = job.payloadHashValue := by
    by_cases he : job.payloadHashValue = "" <;> simp [Json.truthy, Json.text, he]
  simp only [jobFromRow, hp, hn, unpackProgress_pack, unpackNotebookId_pack, bind, Except.bind, pure,
    Except.pure, Except.ok.injEq]
  have hg : ∀ k, row.payload.get k = (packPayload job).get k := fun k => by rw [h]
  simp only [hg]
  have g1 : (packPayload job).get "waiting_reason" = .ofStr? job.waitingReason := rfl
  have g2 : (packPayload job).get "params" = .obj job.payload := rfl
  have g3 : (packPayload job).get "payload_schema_version" = .int job.payloadSchemaVersion := rfl
  have g4 : (packPayload job).get "payload_hash" = .str job.payloadHashValue := rfl
  have g5 : (packPayload job).get "request_id" = .ofStr? job.requestId := rfl
  have g6 : (packPayload job).get "trace_id" = .ofStr? job.traceId := rfl
  have g7 : (packPayload job).get "capability" = .ofStr? job.capability := rfl
  have g8 : (packPayload job).get "priority" = .int job.priority := rfl
  have g9 : (packPayload job).get "checkpoint" = .ofDict? job.checkpoint := rfl
  have g10 : (packPayload job).get "result_ref" = .ofStr? job.resultRef := rfl
  have g11 : (packPayload job).get "error_code" = .ofStr? job.errorCode := rfl
  have g12 : (packPayload job).get "cancel_reason" = .ofStr? job.cancelReason := rfl
  simp only [g1, g2, g3, g4, g5, g6, g7, g8, g9, g10, g11, g12, hh, Json.str?_ofStr?, Json.dict?_ofDict?,
    Json.int?, Json.dict?_obj, Option.getD_some]

namespace JobRow

theorem exists_record (row : JobRow) : ∃ job, jobFromRow row = .ok job := by
  obtain ⟨job, h⟩ := row.packed
  exact ⟨_, jobFromRow_packed h⟩

/-- The record `jobFromRow` reads. -/
def record (row : JobRow) : JobRecord :=
  match h : jobFromRow row with
  | .ok job => job
  | .error e => absurd h (by obtain ⟨job, hj⟩ := row.exists_record; simp [hj])

theorem jobFromRow_eq (row : JobRow) : jobFromRow row = .ok row.record := by
  unfold record
  split
  · assumption
  next h => obtain ⟨job, hj⟩ := row.exists_record; simp [hj] at h

/-- The logical state of the row. -/
def logicalState (row : JobRow) : JobState :=
  unpackLogicalState row.status (row.payload.get "waiting_reason").str?

def inFlight (row : JobRow) : Bool := row.status.inFlight

/-- The checkpoint stored in the row. -/
def checkpoint (row : JobRow) : Option Dict := (row.payload.get "checkpoint").dict?

variable {row : JobRow}

theorem record_of_packed {job : JobRecord} (h : row.payload = packPayload job) :
    row.record =
      { job with
        id := row.id, kind := row.kind, queue := row.queue, actorUserId := row.requestedByUserId
        state := unpackLogicalState row.status job.waitingReason
        attempts := row.attempts, maxAttempts := row.maxAttempts
        leaseOwner := row.leaseOwner, leaseExpiresAt := row.leaseExpiresAt
        idempotencyScope := none, idempotencyKey := none, cancelledAt := none
        revision := row.revision, enqueuedAt := some row.enqueuedAt
        startedAt := row.startedAt, finishedAt := row.finishedAt
        createdAt := some row.createdAt, updatedAt := some row.updatedAt } :=
  Except.ok.inj ((jobFromRow_eq row).symm.trans (jobFromRow_packed h))

theorem logicalState_of_packed {job : JobRecord} (h : row.payload = packPayload job) :
    row.logicalState = unpackLogicalState row.status job.waitingReason := by
  rw [logicalState, h, show (packPayload job).get "waiting_reason" = .ofStr? job.waitingReason from rfl,
    Json.str?_ofStr?]

theorem checkpoint_of_packed {job : JobRecord} (h : row.payload = packPayload job) :
    row.checkpoint = job.checkpoint := by
  rw [checkpoint, h, show (packPayload job).get "checkpoint" = .ofDict? job.checkpoint from rfl,
    Json.dict?_ofDict?]

@[simp] theorem record_id : row.record.id = row.id := by
  obtain ⟨job, h⟩ := row.packed; rw [record_of_packed h]

@[simp] theorem record_queue : row.record.queue = row.queue := by
  obtain ⟨job, h⟩ := row.packed; rw [record_of_packed h]

@[simp] theorem record_state : row.record.state = row.logicalState := by
  obtain ⟨job, h⟩ := row.packed; rw [record_of_packed h, logicalState_of_packed h]

@[simp] theorem record_attempts : row.record.attempts = row.attempts := by
  obtain ⟨job, h⟩ := row.packed; rw [record_of_packed h]

@[simp] theorem record_maxAttempts : row.record.maxAttempts = row.maxAttempts := by
  obtain ⟨job, h⟩ := row.packed; rw [record_of_packed h]

@[simp] theorem record_leaseOwner : row.record.leaseOwner = row.leaseOwner := by
  obtain ⟨job, h⟩ := row.packed; rw [record_of_packed h]

@[simp] theorem record_revision : row.record.revision = row.revision := by
  obtain ⟨job, h⟩ := row.packed; rw [record_of_packed h]

@[simp] theorem record_checkpoint : row.record.checkpoint = row.checkpoint := by
  obtain ⟨job, h⟩ := row.packed; rw [record_of_packed h, checkpoint_of_packed h]

theorem mapM_jobFromRow (rows : List JobRow) : rows.mapM jobFromRow = .ok (rows.map record) := by
  induction rows with
  | nil => rfl
  | cons row rows ih => simp [List.mapM_cons, jobFromRow_eq, ih, bind, Except.bind, pure, Except.pure]

/-- The status of a row is the physical status of its logical state. -/
theorem physicalStatus_logicalState (row : JobRow) : physicalStatus row.logicalState = row.status := by
  have h : ∀ reason, physicalStatus ((reasonStates.lookup reason).getD .queued) = .queued := by
    intro reason
    simp only [reasonStates, waitingReasons, List.map_cons, List.map_nil, List.lookup_cons, List.lookup_nil]
    repeat' split
    all_goals rfl
  unfold logicalState unpackLogicalState
  split
  next hs _ => rw [hs]; exact h _
  next => cases row.status <;> rfl

end JobRow

/-- Packing a record moved to `new` and storing its physical status stores
`new`: the marker is the one that re-expands to it. -/
theorem unpackLogicalState_physicalStatus (new : JobState) :
    unpackLogicalState (physicalStatus new) (if new.pending then waitingReasons.lookup new else none) = new := by
  cases new <;> rfl

/-! ## Records read earlier -/

/-- `job` was read from `row`, or from the same row at an earlier revision. -/
structure ReadFrom (row : JobRow) (job : JobRecord) : Prop where
  id : job.id = row.id
  revision : job.revision ≤ row.revision
  state : job.revision = row.revision → job.state = row.logicalState
  checkpoint : job.revision = row.revision → job.checkpoint = row.checkpoint
  leaseOwner : job.revision = row.revision → row.inFlight = true → job.leaseOwner = row.leaseOwner

theorem readFrom_record (row : JobRow) : ReadFrom row row.record where
  id := by simp
  revision := by simp
  state _ := by simp
  checkpoint _ := by simp
  leaseOwner _ _ := by simp

/-- A record moved by a transition and the row it was stored in. -/
theorem readFrom_moved {now job new u updated} {row : JobRow} (h : applyTransition now job new u = .ok updated)
    (hid : updated.id = row.id) (hrev : updated.revision = row.revision)
    (hp : row.payload = packPayload updated) (hs : row.status = physicalStatus new)
    (ho : row.inFlight = true → updated.leaseOwner = row.leaseOwner) : ReadFrom row updated := by
  obtain ⟨-, -, hst, -, -, -, -, -, hw⟩ := applyTransition_ok h
  refine ⟨hid, hrev.le, fun _ => ?_, fun _ => (JobRow.checkpoint_of_packed hp).symm, fun _ => ho⟩
  rw [JobRow.logicalState_of_packed hp, hs, hw, unpackLogicalState_physicalStatus, hst]

/-- A row with a later revision, or with nothing changed that a record shows. -/
theorem ReadFrom.later {row row' : JobRow} {job} (h : ReadFrom row job) (hid : row'.id = row.id)
    (hrev : row.revision < row'.revision ∨ row'.revision = row.revision ∧ row'.logicalState = row.logicalState ∧
      row'.checkpoint = row.checkpoint ∧ row'.inFlight = row.inFlight ∧ row'.leaseOwner = row.leaseOwner) :
    ReadFrom row' job := by
  rcases hrev with hlt | ⟨hrev, hst, hc, hf, ho⟩
  · have hne : job.revision ≠ row'.revision := by have := h.revision; omega
    exact ⟨h.id.trans hid.symm, by have := h.revision; omega, fun he => absurd he hne, fun he => absurd he hne,
      fun he => absurd he hne⟩
  · refine ⟨h.id.trans hid.symm, hrev ▸ h.revision, fun he => ?_, fun he => ?_, fun he hf' => ?_⟩
    · rw [hst]; exact h.state (he.trans hrev)
    · rw [hc]; exact h.checkpoint (he.trans hrev)
    · rw [ho]; exact h.leaseOwner (he.trans hrev) (hf ▸ hf')

end MilpbookLM
