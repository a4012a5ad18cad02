/-
The PostgreSQL job repository: the jobs, job_attempts, outbox_events and
idempotency_keys tables, and every operation of `PgJobRepository` as a function
on them. An operation is one transaction: it answers and gives the tables it
commits, or raises, and then commits nothing.

What PostgreSQL and the clocks decide is in `Env`: `now()`, Python's clock,
fresh ids, and the plan of the claim query (`Plan`), whose order among equal
sort keys and whose join order SQL leaves open.
-/
import MilpbookLM.Domain.Jobs
import MilpbookLM.Domain.JobEvents
import MilpbookLM.Jobs.Rows
import MilpbookLM.Lib.Ranked
import MilpbookLM.Lib.Table

namespace MilpbookLM

/-! ## The tables -/

/-- `job_attempts.outcome`, as its check constraint lists the values. -/
inductive AttemptOutcome
  | running | succeeded | failed | timeout | cancelled
  deriving DecidableEq

/-- The outcome a state's value names. -/
def AttemptOutcome.ofState? : JobState → Option AttemptOutcome
  | .running => some .running
  | .succeeded => some .succeeded
  | .failed => some .failed
  | .cancelled => some .cancelled
  | _ => none

structure JobAttempt where
  jobId : Uuid
  attemptNumber : Nat
  workerId : Option String
  outcome : AttemptOutcome
  finishedAt : Option Time
  deriving DecidableEq

structure OutboxEvent where
  seq : Nat
  aggregateKind : String
  aggregateId : Uuid
  eventType : String
  payload : EventEnvelope

structure IdempotencyKey where
  id : Uuid
  scope : String
  key : String
  requestHash : String
  deriving DecidableEq

structure JobDb where
  jobs : List JobRow := []
  jobAttempts : List JobAttempt := []
  outboxEvents : List OutboxEvent := []
  idempotencyKeys : List IdempotencyKey := []
  nextSeq : Nat := 1

/-- SQL equality with a parameter: a null is equal to nothing. -/
def sqlEq {α : Type} [DecidableEq α] (a b : Option α) : Bool := a.isSome && a = b

/-- `now() + make_interval(secs => lease)`. -/
def leaseUntil (now : Time) (leaseSeconds : Int) : Time := now + leaseSeconds * 1000000

/-- `lease_owner IS NULL OR status IN ('leased', 'running')` (ck_jobs_lease_consistency). -/
def leaseConsistent (row : JobRow) : Bool := row.leaseOwner.isNone || row.inFlight

/-- `JobStatus` of a state's value; the others violate ck_jobs_status. -/
def JobStatus.ofState? (s : JobState) : Option JobStatus := if s.pending then none else some (physicalStatus s)

/-- `coalesce(max(attempt_number), 0)`. -/
def maxNumber (attempts : List JobAttempt) : Nat := (attempts.map (·.attemptNumber)).foldl max 0

namespace JobDb

def job? (db : JobDb) (id : Uuid) : Option JobRow := Table.lookup JobRow.id db.jobs id

/-- `UPDATE jobs SET f WHERE p`: the row count and the table, unless an updated
row breaks the lease constraint. -/
def updateJobs (p : JobRow → Bool) (f : JobRow → JobRow) (db : JobDb) : Except JobError (Nat × JobDb) :=
  if db.jobs.any fun row => p row && !leaseConsistent (f row) then
    .error (.database "ck_jobs_lease_consistency")
  else .ok (db.jobs.countP p, { db with jobs := Table.update p f db.jobs })

/-- The highest attempt number of a job, 0 when it has none. -/
def maxAttempt (db : JobDb) (id : Uuid) : Nat := maxNumber (db.jobAttempts.filter (·.jobId = id))

end JobDb

/-! ## The claim query -/

/-- `(payload->>'priority')::int`: null, a 32-bit integer, or an error of the cast. -/
def priorityColumn (row : JobRow) : Except JobError (Option Int) :=
  match row.payload.get "priority" with
  | .null => .ok none
  | .int n =>
    if -2147483648 ≤ n ∧ n ≤ 2147483647 then .ok (some n)
    else .error (.database s!"value \"{n}\" is out of range for type integer")
  | _ => .error (.database "invalid input syntax for type integer")

/-- The priority a row sorts by; null sorts last. -/
def sortPriority (row : JobRow) : Option Int := (priorityColumn row).toOption.join

/-- `ORDER BY (payload->>'priority')::int DESC NULLS LAST, enqueued_at ASC`. -/
def queueLe (a b : JobRow) : Bool :=
  match sortPriority a, sortPriority b with
  | some p, some q => q < p || (p = q && a.enqueuedAt ≤ b.enqueuedAt)
  | some _, none => true
  | none, some _ => false
  | none, none => a.enqueuedAt ≤ b.enqueuedAt

theorem queueLe_total (a b : JobRow) : queueLe a b = true ∨ queueLe b a = true := by
  have ht := Int.le_total a.enqueuedAt b.enqueuedAt
  unfold queueLe
  rcases sortPriority a with _ | p <;> rcases sortPriority b with _ | q <;> grind

theorem queueLe_trans (a b c : JobRow) (hab : queueLe a b = true) (hbc : queueLe b c = true) :
    queueLe a c = true := by
  have ht := @Int.le_trans a.enqueuedAt b.enqueuedAt c.enqueuedAt
  revert hab hbc
  unfold queueLe
  rcases sortPriority a with _ | p <;> rcases sortPriority b with _ | q <;> rcases sortPriority c with _ | r <;>
    grind

/-- What a query plan chooses: an order of the sorted rows, equal keys in any
order, and the order in which the join delivers the candidates. -/
structure Plan where
  sort : List JobRow → List JobRow
  sort_perm : ∀ rows, (sort rows).Perm rows
  sort_pairwise : ∀ rows, (sort rows).Pairwise fun a b => queueLe a b = true
  join : List JobRow → List JobRow
  join_perm : ∀ rows, (join rows).Perm rows

/-- The plan that sorts flagged rows first among equals, and joins the rows of `front` first. -/
def Plan.ranked (flag front : JobRow → Bool) : Plan where
  sort := Ranked.rank queueLe flag
  sort_perm := Ranked.rank_perm queueLe flag
  sort_pairwise rows := (Ranked.rank_pairwise queueLe_total queueLe_trans flag rows).imp Ranked.le_of_flagged
  join rows := rows.filter front ++ rows.filter fun row => !front row
  join_perm _ := List.filter_append_perm ..

/-- `_CLAIM_BATCH`. -/
def claimBatch : Nat := 50

/-- Queued rows of the class and a handled kind. -/
def claimable (q : CapacityClass) (kinds : List String) (row : JobRow) : Bool :=
  row.status = .queued && row.queue = q && kinds.contains row.kind

/-- `SELECT count(*) ... WHERE queue = :q AND status IN ('leased','running')`. -/
def countInFlight (q : CapacityClass) (rows : List JobRow) : Nat :=
  rows.countP fun row => row.queue = q && row.inFlight

/-- The same of one user; a null user owns no row. -/
def countInFlightForUser (q : CapacityClass) (user : Option Uuid) (rows : List JobRow) : Nat :=
  rows.countP fun row => row.queue = q && row.inFlight && sqlEq user row.requestedByUserId

/-- Both budget checks of the claim query, for the job `row`. -/
def fitsBudget (budget : ClassBudget) (q : CapacityClass) (rows : List JobRow) (row : JobRow) : Bool :=
  countInFlight q rows < budget.maxConcurrent &&
    countInFlightForUser q row.requestedByUserId rows < budget.maxConcurrentPerUser

/-- The CTE: the first `claimBatch` rows in queue order, rows locked elsewhere skipped. -/
def candidates (plan : Plan) (locked : Uuid → Bool) (q : CapacityClass) (kinds : List String)
    (rows : List JobRow) : Except JobError (List JobRow) := do
  let queued := rows.filter (claimable q kinds)
  let _ ← queued.mapM priorityColumn
  return ((plan.sort queued).filter fun row => !locked row.id).take claimBatch

/-- The claim query: the rows it locks and the one row it selects. -/
def claimSelect (plan : Plan) (locked : Uuid → Bool) (budget : ClassBudget) (q : CapacityClass)
    (kinds : List String) (rows : List JobRow) : Except JobError (List JobRow × Option JobRow) := do
  let locks ← candidates plan locked q kinds rows
  return (locks, (plan.join locks).find? (fitsBudget budget q rows))

/-! ## The repository -/

/-- What the environment of one call decides: the database's and Python's
clocks, the ids the database gives an inserted key and job, the uuid4 of an
event about a job, the plan of the claim query, and anything read outside the
job tables (`answer`). -/
structure Env where
  now : Time
  clock : Time
  newKeyId : Uuid
  newJobId : Uuid
  eventId : Uuid → Uuid
  plan : Plan
  answer : Nat

namespace PgJobRepository

open JobDb

/-- The INSERT of a key that conflicts with no `(scope, key)`. -/
def insertKey (k : IdempotencyKey) (db : JobDb) : Except JobError JobDb :=
  if db.idempotencyKeys.any (·.id = k.id) then .error (.database "idempotency_keys_pkey")
  else .ok { db with idempotencyKeys := db.idempotencyKeys ++ [k] }

/-- `_claim_idempotency`: the key's id, or none when the job is keyless. -/
def claimIdempotency (env : Env) (requestHash : String) (scope key : Option String) (db : JobDb) :
    Except JobError (Option Uuid × JobDb) :=
  match scope, key with
  | some scope, some key =>
    match db.idempotencyKeys.find? fun k => k.scope = scope && k.key = key with
    | none => do
      let db ← insertKey ⟨env.newKeyId, scope, key, requestHash⟩ db
      return (some env.newKeyId, db)
    | some existing =>
      if existing.requestHash ≠ requestHash then .error (.idempotencyConflict key scope)
      else .ok (some existing.id, db)
  | _, _ => .ok (none, db)

/-- `_job_for_key`. -/
def jobForKey (keyId : Uuid) (db : JobDb) : Option JobRow :=
  db.jobs.find? fun row => sqlEq row.idempotencyKeyId (some keyId)

/-- The row an INSERT of a job makes, its other columns by their defaults. -/
def newRow (now : Time) (id : Uuid) (job : JobRecord) (keyId : Option Uuid) : JobRow where
  id
  queue := job.queue
  kind := job.kind
  payload := packPayload job
  status := physicalStatus job.state
  leaseOwner := none
  leaseExpiresAt := none
  attempts := 0
  maxAttempts := 3
  idempotencyKeyId := keyId
  requestedByUserId := job.actorUserId
  revision := 0
  enqueuedAt := now
  startedAt := none
  finishedAt := none
  createdAt := now
  updatedAt := now
  packed := ⟨job, rfl⟩

/-- `_insert_job`. -/
def insertJob (now : Time) (id : Uuid) (job : JobRecord) (keyId : Option Uuid) (db : JobDb) :
    Except JobError (JobRow × JobDb) :=
  if (db.job? id).isSome then .error (.database "jobs_pkey")
  else .ok (newRow now id job keyId, { db with jobs := db.jobs ++ [newRow now id job keyId] })

def enqueue (env : Env) (job : JobRecord) (requestHash : String) (scope key : Option String) (db : JobDb) :
    Except JobError ((JobRecord × Bool) × JobDb) := do
  let (keyId, db) ← claimIdempotency env requestHash scope key db
  match keyId.bind fun k => jobForKey k db with
  | some row => return ((← jobFromRow row, false), db)
  | none =>
    let (row, db) ← insertJob env.now env.newJobId job keyId db
    return ((← jobFromRow row, true), db)

def get (id : Uuid) (db : JobDb) : Except JobError (Option JobRecord) :=
  match db.job? id with
  | some row => some <$> jobFromRow row
  | none => .ok none

/-- `WHERE id = :id AND status = 'queued'`. -/
def claimMatches (id : Uuid) (row : JobRow) : Bool := row.id = id && row.status = .queued

/-- The UPDATE of a claim. -/
def leaseRow (now : Time) (workerId : String) (leaseSeconds : Int) (row : JobRow) : JobRow :=
  { row with
    status := .leased, leaseOwner := some workerId, leaseExpiresAt := some (leaseUntil now leaseSeconds)
    attempts := row.attempts + 1, startedAt := row.startedAt <|> some now
    revision := row.revision + 1, updatedAt := now }

/-- `_record_attempt`. -/
def recordAttempt (jobId : Uuid) (workerId : String) (db : JobDb) : JobDb :=
  { db with jobAttempts := db.jobAttempts ++ [⟨jobId, db.maxAttempt jobId + 1, some workerId, .running, none⟩] }

def claim (env : Env) (workerId : String) (q : CapacityClass) (leaseSeconds : Int) (policy : CapacityPolicy)
    (kinds : List String) (db : JobDb) : Except JobError (Option JobRecord × JobDb) :=
  if kinds.isEmpty then .ok (none, db)
  else do
    let budget ← policy.budget q
    let (_, chosen) ← claimSelect env.plan (fun _ => false) budget q kinds db.jobs
    match chosen with
    | none => return (none, db)
    | some c =>
      let (_, db) ← db.updateJobs (claimMatches c.id) (leaseRow env.now workerId leaseSeconds)
      let db := recordAttempt c.id workerId db
      match db.job? c.id with
      | some row => return (some (← jobFromRow row), db)
      | none => throw (.database "no row was found when one was required")

/-- `WHERE id = :id AND lease_owner = :owner AND status IN ('leased', 'running')`. -/
def ownerMatches (id : Uuid) (owner : Option String) (row : JobRow) : Bool :=
  row.id = id && sqlEq row.leaseOwner owner && row.inFlight

/-- The UPDATE of a heartbeat. -/
def extendRow (now : Time) (leaseSeconds : Int) (row : JobRow) : JobRow :=
  { row with leaseExpiresAt := some (leaseUntil now leaseSeconds), updatedAt := now }

def heartbeat (now : Time) (id : Uuid) (workerId : String) (leaseSeconds : Int) (db : JobDb) :
    Except JobError (Bool × JobDb) := do
  let (n, db) ← db.updateJobs (ownerMatches id (some workerId)) (extendRow now leaseSeconds)
  return (n > 0, db)

/-- The record a progress write keeps: its new fields where they are given. -/
def progressed (job : JobRecord) (progress : Option JobProgress) (checkpoint : Option Dict) : JobRecord :=
  { job with
    progress := progress <|> job.progress, checkpoint := checkpoint <|> job.checkpoint
    revision := job.revision + 1 }

/-- The UPDATE of a progress write. -/
def progressRow (now : Time) (leaseSeconds : Int) (updated : JobRecord) (row : JobRow) : JobRow :=
  { row with
    payload := packPayload updated, packed := ⟨updated, rfl⟩
    leaseExpiresAt := some (leaseUntil now leaseSeconds), revision := row.revision + 1, updatedAt := now }

def recordProgress (now : Time) (job : JobRecord) (progress : Option JobProgress) (checkpoint : Option Dict)
    (leaseSeconds : Int) (db : JobDb) : Except JobError (Option JobRecord × JobDb) := do
  let updated := progressed job progress checkpoint
  let (n, db) ← db.updateJobs (ownerMatches job.id job.leaseOwner) (progressRow now leaseSeconds updated)
  return (if n = 0 then none else some updated, db)

/-- The message of a lost compare-and-swap. -/
def casConflict (job : JobRecord) : JobError :=
  .jobCasConflict s!"job {job.id.str} moved under a concurrent writer (expected {job.state.value})"

/-- `WHERE id = :id AND status = :expected AND revision = :rev`. -/
def casMatches (job : JobRecord) (row : JobRow) : Bool :=
  row.id = job.id && row.status = physicalStatus job.state && row.revision = job.revision

/-- The UPDATE of a transition to `updated`. -/
def transitionRow (now : Time) (newState : JobState) (updated : JobRecord) (row : JobRow) : JobRow :=
  let parked := newState.pending || newState = .queued
  { row with
    status := physicalStatus newState, payload := packPayload updated, packed := ⟨updated, rfl⟩
    leaseOwner := if parked then none else updated.leaseOwner
    leaseExpiresAt := if parked then none else updated.leaseExpiresAt
    startedAt := updated.startedAt <|> row.startedAt
    revision := row.revision + 1, updatedAt := now }

def transition (env : Env) (job : JobRecord) (newState : JobState) (u : FieldUpdates) (db : JobDb) :
    Except JobError (JobRecord × JobDb) := do
  let updated ← applyTransition env.clock job newState u
  let (n, db) ← db.updateJobs (casMatches job) (transitionRow env.now newState updated)
  if n = 0 then throw (casConflict job)
  return (updated, db)

/-- `_finish_attempt`: the outcome of the highest-numbered attempt. -/
def finishAttempt (now : Time) (id : Uuid) (outcome : JobState) (db : JobDb) : Except JobError JobDb :=
  match AttemptOutcome.ofState? outcome with
  | some o =>
    let n := db.maxAttempt id
    .ok { db with
      jobAttempts := Table.update (fun a => a.jobId = id && a.attemptNumber = n)
        (fun a => { a with outcome := o, finishedAt := some now }) db.jobAttempts }
  | none =>
    if db.jobAttempts.any (·.jobId = id) then .error (.database "ck_job_attempts_outcome") else .ok db

/-- `append_outbox`. -/
def appendOutbox (envelope : EventEnvelope) (db : JobDb) : Except JobError JobDb := do
  let payload ← envelope.toDict
  return { db with
    outboxEvents := db.outboxEvents ++
      [⟨db.nextSeq, envelope.aggregateKind, envelope.aggregateId, envelope.eventType, payload⟩]
    nextSeq := db.nextSeq + 1 }

/-- The UPDATE that ends a job in `status`. -/
def finishRow (now : Time) (status : JobStatus) (updated : JobRecord) (row : JobRow) : JobRow :=
  { row with
    status, payload := packPayload updated, packed := ⟨updated, rfl⟩, finishedAt := some now
    leaseOwner := none, leaseExpiresAt := none, revision := row.revision + 1, updatedAt := now }

def complete (env : Env) (job : JobRecord) (newState : JobState) (resultRef errorCode : Option String)
    (envelope : EventEnvelope) (db : JobDb) : Except JobError (JobRecord × JobDb) := do
  let updated ← applyTransition env.clock job newState { resultRef := some resultRef, errorCode := some errorCode }
  match JobStatus.ofState? newState with
  | none =>
    if db.jobs.any (casMatches job) then throw (.database "ck_jobs_status")
    throw (casConflict job)
  | some status =>
    let (n, db) ← db.updateJobs (casMatches job) (finishRow env.now status updated)
    if n = 0 then throw (casConflict job)
    let db ← finishAttempt env.now job.id newState db
    let db ← appendOutbox envelope db
    return (updated, db)

/-- `WHERE id = :id AND status NOT IN (:s, :f, :c) AND revision = :rev`. -/
def cancelMatches (job : JobRecord) (row : JobRow) : Bool :=
  row.id = job.id && !row.status.terminal && row.revision = job.revision

def cancel (env : Env) (job : JobRecord) (reason : String) (envelope : EventEnvelope) (db : JobDb) :
    Except JobError (JobRecord × JobDb) := do
  let updated ← applyTransition env.clock job .cancelled { cancelReason := some (some reason) }
  let (n, db) ← db.updateJobs (cancelMatches job) (finishRow env.now .cancelled updated)
  if n = 0 then throw (.jobCasConflict s!"job {job.id.str} is already terminal")
  let db ← finishAttempt env.now job.id .cancelled db
  let db ← appendOutbox envelope db
  return (updated, db)

/-- `lease_expires_at IS NOT NULL AND lease_expires_at < now()` of a job in flight. -/
def expired (now : Time) (row : JobRow) : Bool :=
  row.inFlight && match row.leaseExpiresAt with
    | some t => t < now
    | none => false

/-- `WHERE id = :id AND status IN ('leased','running') AND revision = :rev`. -/
def reapMatches (job : JobRecord) (row : JobRow) : Bool :=
  row.id = job.id && row.inFlight && row.revision = job.revision

/-- The reaper's UPDATE back to the queue. -/
def requeueRow (now : Time) (requeued : JobRecord) (row : JobRow) : JobRow :=
  { row with
    status := .queued, payload := packPayload requeued, packed := ⟨requeued, rfl⟩
    leaseOwner := none, leaseExpiresAt := none, revision := row.revision + 1, updatedAt := now }

/-- The reaper's event about a job whose attempts are spent. -/
def expiredEnvelope (env : Env) (job failed : JobRecord) : EventEnvelope where
  eventId := env.eventId job.id
  eventType := eventJobFailed
  aggregateKind := "job"
  aggregateId := job.id
  aggregateVersion := job.revision
  occurredAt := failed.finishedAt.getD env.clock
  payload := jobEventPayload failed
  actorId := job.actorUserId
  jobId := some job.id

/-- One round of the reaper's loop. -/
def reap (env : Env) (db : JobDb) (row : JobRow) : Except JobError (JobRecord × JobDb) := do
  let job ← jobFromRow row
  if job.attempts ≥ job.maxAttempts then
    let failed ← applyTransition env.clock job .failed { errorCode := some (some "lease_expired") }
    let (_, db) ← db.updateJobs (reapMatches job) (finishRow env.now .failed failed)
    let db ← finishAttempt env.now job.id .failed db
    let db ← appendOutbox (expiredEnvelope env job failed) db
    return (failed, db)
  else
    let requeued ← applyTransition env.clock job .queued { leaseOwner := some none, leaseExpiresAt := some none }
    let (_, db) ← db.updateJobs (reapMatches job) (requeueRow env.now requeued)
    return (requeued, db)

def reapAll (env : Env) : List JobRow → JobDb → Except JobError (List JobRecord × JobDb)
  | [], db => .ok ([], db)
  | row :: rows, db => do
    let (job, db) ← reap env db row
    let (jobs, db) ← reapAll env rows db
    return (job :: jobs, db)

def recoverExpired (env : Env) (db : JobDb) : Except JobError (List JobRecord × JobDb) :=
  reapAll env (db.jobs.filter (expired env.now)) db

def runningJobs (q : CapacityClass) (db : JobDb) : Except JobError (List JobRecord) :=
  ((db.jobs.filter fun row => row.queue = q && row.inFlight).insertionSort
    fun a b => a.enqueuedAt ≤ b.enqueuedAt).mapM jobFromRow

def inFlight (q : CapacityClass) (db : JobDb) : Nat := countInFlight q db.jobs

def inFlightForUser (q : CapacityClass) (user : Option Uuid) (db : JobDb) : Nat :=
  countInFlightForUser q user db.jobs

end PgJobRepository

end MilpbookLM
