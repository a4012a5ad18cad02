/-
The durable job state machine: states, the compare-and-swap transition table,
the job record and `applyTransition`, which moves a record to a new state when
the table allows it from the state the record is in.

Times are microseconds. A record's `idempotency_scope` and `idempotency_key`
are left out: nothing in the job system sets or reads them.

Capacity budgets are per class: an installation-wide and a per-user cap on the
jobs in flight. An unknown class is a configuration error.
-/
import MilpbookLM.Base.Json
import MilpbookLM.Base.Uuid

namespace MilpbookLM

abbrev Time := Int

/-- What the job system raises. -/
inductive JobError
  /-- A state transition outside the table. -/
  | illegalJobTransition (msg : String)
  /-- A compare-and-swap transition lost: the job moved under a concurrent writer. -/
  | jobCasConflict (msg : String)
  /-- A scoped idempotency key was reused with a materially different request. -/
  | idempotencyConflict (key scope : String)
  /-- The targeted job is unknown to the repository. -/
  | jobNotFound (msg : String)
  /-- An event payload carries credential or source-text keys. -/
  | eventPayloadNotContentFree (msg : String)
  | valueError (msg : String)
  | keyError (key : String)
  /-- The database refused a statement (a constraint, a value out of range). -/
  | database (msg : String)
  deriving DecidableEq

inductive JobState
  | queued | leased | running | succeeded | failed | cancelled
  | waitingExternal | waitingCapacity | retryScheduled
  deriving DecidableEq

namespace JobState

def value : JobState → String
  | queued => "queued"
  | leased => "leased"
  | running => "running"
  | succeeded => "succeeded"
  | failed => "failed"
  | cancelled => "cancelled"
  | waitingExternal => "waiting_external"
  | waitingCapacity => "waiting_capacity"
  | retryScheduled => "retry_scheduled"

/-- In `TERMINAL_STATES`. -/
def terminal : JobState → Bool
  | succeeded | failed | cancelled => true
  | _ => false

/-- In `PENDING_STATES`. -/
def pending : JobState → Bool
  | waitingExternal | waitingCapacity | retryScheduled => true
  | _ => false

end JobState

open JobState

/-- The durable markers of the three pending states. -/
def waitingReasons : List (JobState × String) :=
  [(waitingCapacity, "capacity"), (waitingExternal, "external"), (retryScheduled, "retry_scheduled")]

def reasonStates : List (String × JobState) := waitingReasons.map fun (state, reason) => (reason, state)

/-- The compare-and-swap transition table: the states a state may become. -/
def transitions : JobState → List JobState
  | queued => [leased, cancelled, waitingCapacity, waitingExternal, retryScheduled]
  | leased => [running, queued, cancelled, failed]
  | running => [succeeded, failed, cancelled, queued, waitingExternal, waitingCapacity, retryScheduled]
  | waitingExternal => [running, queued, cancelled, failed]
  | waitingCapacity => [queued, cancelled]
  | retryScheduled => [queued, cancelled]
  | succeeded => []
  | failed => []
  | cancelled => []

/-- User-visible progress. -/
structure JobProgress where
  phase : String
  fraction : Option Rat := none
  status : Option String := none

inductive CapacityClass
  | interactiveText | ingestionIndexing | researchBrowser | execution | media
  deriving DecidableEq

def CapacityClass.value : CapacityClass → String
  | interactiveText => "interactive_text"
  | ingestionIndexing => "ingestion_indexing"
  | researchBrowser => "research_browser"
  | execution => "execution"
  | media => "media"

/-- One durable job. -/
structure JobRecord where
  id : Uuid
  kind : String
  queue : CapacityClass
  payload : Dict
  payloadSchemaVersion : Int := 1
  payloadHashValue : String := ""
  actorUserId : Option Uuid := none
  requestId : Option String := none
  traceId : Option String := none
  notebookId : Option Uuid := none
  capability : Option String := none
  priority : Int := 0
  state : JobState := .queued
  attempts : Nat := 0
  maxAttempts : Nat := 3
  leaseOwner : Option String := none
  leaseExpiresAt : Option Time := none
  idempotencyScope : Option String := none
  idempotencyKey : Option String := none
  cancelledAt : Option Time := none
  cancelReason : Option String := none
  progress : Option JobProgress := none
  checkpoint : Option Dict := none
  resultRef : Option String := none
  errorCode : Option String := none
  waitingReason : Option String := none
  revision : Nat := 0
  enqueuedAt : Option Time := none
  startedAt : Option Time := none
  finishedAt : Option Time := none
  createdAt : Option Time := none
  updatedAt : Option Time := none

/-- True when no further transition is possible. -/
def JobRecord.terminal (job : JobRecord) : Bool := job.state.terminal

/-- The side data of a transition (`**field_updates`): for each field, nothing
or its new value, and the keyword names that are no field of the record. (No caller
gives a new `id`; the state, the revision and the marker are the transition's own.) -/
structure FieldUpdates where
  kind : Option String := none
  queue : Option CapacityClass := none
  payload : Option Dict := none
  payloadSchemaVersion : Option Int := none
  payloadHashValue : Option String := none
  actorUserId : Option (Option Uuid) := none
  requestId : Option (Option String) := none
  traceId : Option (Option String) := none
  notebookId : Option (Option Uuid) := none
  capability : Option (Option String) := none
  priority : Option Int := none
  attempts : Option Nat := none
  maxAttempts : Option Nat := none
  leaseOwner : Option (Option String) := none
  leaseExpiresAt : Option (Option Time) := none
  idempotencyScope : Option (Option String) := none
  idempotencyKey : Option (Option String) := none
  cancelledAt : Option (Option Time) := none
  cancelReason : Option (Option String) := none
  progress : Option (Option JobProgress) := none
  checkpoint : Option (Option Dict) := none
  resultRef : Option (Option String) := none
  errorCode : Option (Option String) := none
  enqueuedAt : Option (Option Time) := none
  startedAt : Option (Option Time) := none
  finishedAt : Option (Option Time) := none
  createdAt : Option (Option Time) := none
  updatedAt : Option (Option Time) := none
  unknown : List String := []

/-- The job moved to `newState`, or the refusal of the transition table. -/
def applyTransition (now : Time) (job : JobRecord) (newState : JobState) (u : FieldUpdates) :
    Except JobError JobRecord :=
  if newState ∉ transitions job.state then
    .error (.illegalJobTransition s!"{job.state.value} -> {newState.value} is not a legal transition")
  else if u.unknown ≠ [] then
    .error (.illegalJobTransition
      ("unknown transition field(s): [" ++ ", ".intercalate ((u.unknown.insertionSort (· ≤ ·)).map
        fun name => "'" ++ name ++ "'") ++ "]"))
  else
    .ok { job with
      state := newState
      revision := job.revision + 1
      waitingReason := if newState.pending then waitingReasons.lookup newState else none
      kind := u.kind.getD job.kind
      queue := u.queue.getD job.queue
      payload := u.payload.getD job.payload
      payloadSchemaVersion := u.payloadSchemaVersion.getD job.payloadSchemaVersion
      payloadHashValue := u.payloadHashValue.getD job.payloadHashValue
      actorUserId := u.actorUserId.getD job.actorUserId
      requestId := u.requestId.getD job.requestId
      traceId := u.traceId.getD job.traceId
      notebookId := u.notebookId.getD job.notebookId
      capability := u.capability.getD job.capability
      priority := u.priority.getD job.priority
      attempts := u.attempts.getD job.attempts
      maxAttempts := u.maxAttempts.getD job.maxAttempts
      leaseOwner := u.leaseOwner.getD job.leaseOwner
      leaseExpiresAt := u.leaseExpiresAt.getD job.leaseExpiresAt
      idempotencyScope := u.idempotencyScope.getD job.idempotencyScope
      idempotencyKey := u.idempotencyKey.getD job.idempotencyKey
      cancelledAt := u.cancelledAt.getD (if newState = .cancelled then some now else job.cancelledAt)
      cancelReason := u.cancelReason.getD job.cancelReason
      progress := u.progress.getD job.progress
      checkpoint := u.checkpoint.getD job.checkpoint
      resultRef := u.resultRef.getD job.resultRef
      errorCode := u.errorCode.getD job.errorCode
      enqueuedAt := u.enqueuedAt.getD job.enqueuedAt
      createdAt := u.createdAt.getD job.createdAt
      updatedAt := u.updatedAt.getD job.updatedAt
      startedAt := u.startedAt.getD job.startedAt
      finishedAt := u.finishedAt.getD
        (if newState.terminal && job.finishedAt.isNone then some now else job.finishedAt) }

/-- What a transition that is not refused does. -/
theorem applyTransition_ok {now job new u updated} (h : applyTransition now job new u = .ok updated) :
    new ∈ transitions job.state ∧ updated.id = job.id ∧ updated.state = new ∧
      updated.revision = job.revision + 1 ∧ updated.attempts = u.attempts.getD job.attempts ∧
      updated.maxAttempts = u.maxAttempts.getD job.maxAttempts ∧ updated.leaseOwner = u.leaseOwner.getD job.leaseOwner ∧
      updated.checkpoint = u.checkpoint.getD job.checkpoint ∧
      updated.waitingReason = if new.pending then waitingReasons.lookup new else none := by
  unfold applyTransition at h
  split at h
  · cases h
  next hmem =>
    split at h
    · cases h
    · cases h; simpa using hmem

/-- Known fields and an edge of the table are all a transition needs. -/
theorem applyTransition_of_mem (now : Time) {job new u} (h : new ∈ transitions job.state) (hu : u.unknown = []) :
    ∃ updated, applyTransition now job new u = .ok updated := by
  simp [applyTransition, h, hu]

/-- Nothing leaves a terminal state. -/
theorem transitions_terminal {s new : JobState} (h : new ∈ transitions s) : s.terminal = false := by
  cases s <;> first | rfl | simp [transitions] at h

/-- Every state that is not terminal may be cancelled. -/
theorem cancelled_mem_transitions {s : JobState} (h : s.terminal = false) : cancelled ∈ transitions s := by
  cases s <;> simp [transitions, JobState.terminal] at h ⊢

/-! ## Capacity -/

structure ClassBudget where
  maxConcurrent : Int
  maxConcurrentPerUser : Int

structure CapacityPolicy where
  budgets : CapacityClass → Option ClassBudget

def CapacityPolicy.budget (policy : CapacityPolicy) (jobClass : CapacityClass) : Except JobError ClassBudget :=
  match policy.budgets jobClass with
  | some b => .ok b
  | none => .error (.valueError s!"no capacity budget configured for class {jobClass.value}")

def defaultCapacityPolicy : CapacityPolicy where
  budgets
    | .interactiveText => some ⟨4, 2⟩
    | .ingestionIndexing => some ⟨2, 2⟩
    | .researchBrowser => some ⟨2, 1⟩
    | .execution => some ⟨2, 1⟩
    | .media => some ⟨1, 1⟩

/-- True when the class has no dispatchable capacity left. -/
def capacitySaturated (b : ClassBudget) (inFlightClass inFlightUser : Nat) : Bool :=
  b.maxConcurrent ≤ inFlightClass || b.maxConcurrentPerUser ≤ inFlightUser

end MilpbookLM
