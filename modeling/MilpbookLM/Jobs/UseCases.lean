/-
The job lifecycle use cases, as programs over the repository: `enqueueJob`
(`EnqueueJob`), `cancelJob` (`CancelJob`) and `completeJob` (`CompleteJob`),
with the event envelopes they publish.

`json.dumps` and SHA-256 come in as `Hashing`: only whether two of their
results are equal is used.
-/
import MilpbookLM.Jobs.Calls

namespace MilpbookLM

/-- The context of the user who initiated a job. -/
structure InitiatingActor where
  userId : Uuid
  requestId : Option String := none
  traceId : Option String := none

def enqueuePayloadSchemaVersion : Int := 1

/-- `json.dumps` with sorted keys and no blanks, and the hex SHA-256 of a text. -/
structure Hashing where
  dumps : Json → String
  sha256 : String → String

/-- The canonical SHA-256 over kind, schema version and payload. -/
def payloadHash (h : Hashing) (kind : String) (payload : Dict) (schemaVersion : Int) : String :=
  h.sha256 (h.dumps (.obj [("kind", .str kind), ("schema_version", .int schemaVersion), ("payload", .obj payload)]))

/-- The key scope: principal, command and resource boundary. -/
def idempotencyScope (actor : InitiatingActor) (kind : String) (notebookId : Option Uuid) : String :=
  let resource := match notebookId with
    | some id => id.str
    | none => "*"
  "job:" ++ kind ++ ":" ++ actor.userId.str ++ ":" ++ resource

/-- The arguments of one `EnqueueJob` call. -/
structure EnqueueRequest where
  kind : String
  payload : Dict
  actor : InitiatingActor
  capacityClass : CapacityClass
  priority : Int := 0
  notebookId : Option Uuid := none
  capability : Option String := none
  idempotencyKey : Option String := none
  maxAttempts : Nat := 3

namespace EnqueueRequest

def requestHash (h : Hashing) (r : EnqueueRequest) : String :=
  payloadHash h r.kind r.payload enqueuePayloadSchemaVersion

def scope (r : EnqueueRequest) : Option String :=
  r.idempotencyKey.map fun _ => idempotencyScope r.actor r.kind r.notebookId

/-- The record an enqueue builds, before the capacity check. -/
def job (h : Hashing) (r : EnqueueRequest) (id : Uuid) : JobRecord where
  id
  kind := r.kind
  queue := r.capacityClass
  payload := r.payload
  payloadSchemaVersion := enqueuePayloadSchemaVersion
  payloadHashValue := payloadHash h r.kind r.payload enqueuePayloadSchemaVersion
  actorUserId := some r.actor.userId
  requestId := r.actor.requestId
  traceId := r.actor.traceId
  notebookId := r.notebookId
  capability := r.capability
  priority := r.priority
  state := .queued
  maxAttempts := r.maxAttempts

end EnqueueRequest

/-- `_with_capacity_check`: parked when the class budget is saturated. -/
def withCapacityCheck (h : Hashing) (policy : CapacityPolicy) (r : EnqueueRequest) : Program JobRecord := do
  let (now, id) ← Program.stamp .enqueuing
  let job := r.job h id
  let budget ← Program.ofExcept (policy.budget r.capacityClass)
  let inFlightClass ← Program.inFlight r.capacityClass
  let inFlightUser ← Program.inFlightForUser r.capacityClass (some r.actor.userId)
  if capacitySaturated budget inFlightClass inFlightUser then
    Program.ofExcept (applyTransition now job .waitingCapacity {})
  else return job

/-- The records `_with_capacity_check` may return. -/
def EnqueueRequest.Builds (h : Hashing) (r : EnqueueRequest) (job : JobRecord) : Prop :=
  ∃ id, job = r.job h id ∨ ∃ now, applyTransition now (r.job h id) .waitingCapacity {} = .ok job

open Interleave in
/-- It returns one of them, unless the class has no budget. -/
theorem withCapacityCheck_along {h : Hashing} {policy : CapacityPolicy} {r : EnqueueRequest}
    {adm : (c : Call) → Answer c → Prop} {ok : List (Σ c, Answer c) → Call → Prop} (hstamp : ∀ t, ok t (.stamp .enqueuing))
    (hclass : ∀ t q, ok t (.inFlight q)) (huser : ∀ t q user, ok t (.inFlightForUser q user)) {t} :
    Prog.Along adm ok (withCapacityCheck h policy r).run
      (fun res _ => match res with
        | .ok job => r.Builds h job
        | .error e => policy.budget r.capacityClass = .error e) t := by
  unfold withCapacityCheck
  refine ⟨hstamp _, fun ⟨now, id⟩ _ => ?_⟩
  rcases hb : policy.budget r.capacityClass with e | budget
  · exact rfl
  refine ⟨hclass _ _, fun inFlightClass _ => ⟨huser _ _ _, fun inFlightUser _ => ?_⟩⟩
  change Prog.Along _ _ (ExceptT.run (if capacitySaturated budget inFlightClass inFlightUser then
    Program.ofExcept (applyTransition now (r.job h id) .waitingCapacity {}) else pure (r.job h id))) _ _
  split
  · rcases hw : applyTransition now (r.job h id) .waitingCapacity {} with e | job
    · simp [applyTransition, EnqueueRequest.job, transitions] at hw
    · exact ⟨id, .inr ⟨now, hw⟩⟩
  · exact ⟨id, .inl rfl⟩

/-- `EnqueueJob`. -/
def enqueueJob (h : Hashing) (policy : CapacityPolicy) (r : EnqueueRequest) : Program (JobRecord × Bool) := do
  let job ← withCapacityCheck h policy r
  Program.enqueue job (r.requestHash h) r.scope r.idempotencyKey

/-- The event of a cancellation. -/
def cancelEnvelope (job : JobRecord) (reason : String) (now : Time) (eventId : Uuid) : EventEnvelope where
  eventId
  eventType := eventJobCancelled
  aggregateKind := "job"
  aggregateId := job.id
  aggregateVersion := job.revision
  occurredAt := job.updatedAt.getD now
  payload := Dict.set (jobEventPayload job) "cancel_reason" (.str reason)
  actorId := job.actorUserId
  operationId := job.requestId
  traceId := job.traceId
  jobId := some job.id

/-- `CancelJob`. -/
def cancelJob (jobId : Uuid) (reason : String) : Program JobRecord := do
  match ← Program.get .cancelling jobId with
  | none => throw (.jobNotFound jobId.str)
  | some job =>
    let (now, eventId) ← Program.stamp .cancelling
    Program.cancel job reason (cancelEnvelope job reason now eventId)

def completionState (succeeded : Bool) : JobState := if succeeded then .succeeded else .failed

/-- The event of a terminal publication; `final` is the record to be published. -/
def completeEnvelope (job final : JobRecord) (succeeded : Bool) (now : Time) (eventId : Uuid) :
    EventEnvelope where
  eventId
  eventType := if succeeded then eventJobSucceeded else eventJobFailed
  aggregateKind := "job"
  aggregateId := job.id
  aggregateVersion := job.revision
  occurredAt := now
  payload := jobEventPayload final
  actorId := job.actorUserId
  operationId := job.requestId
  traceId := job.traceId
  jobId := some job.id

/-- `revalidator is None or revalidator.revalidate(job)`. -/
def authzOk (revalidator : Bool) (job : JobRecord) : Program Bool :=
  if revalidator then Program.revalidate job else return true

/-- `CompleteJob`; `revalidator` says whether one is wired. -/
def completeJob (revalidator : Bool) (job : JobRecord) (succeeded : Bool) (resultRef errorCode : Option String) :
    Program JobRecord := do
  if !(← authzOk revalidator job) then cancelJob job.id "authorization_revoked"
  else
    let newState := completionState succeeded
    let (now, eventId) ← Program.stamp (.publishing job newState)
    let final ← Program.ofExcept
      (applyTransition now job newState { resultRef := some resultRef, errorCode := some errorCode })
    Program.complete job newState resultRef errorCode (completeEnvelope job final succeeded now eventId)

end MilpbookLM
