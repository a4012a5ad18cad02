/-
What the repository raises. Reads, progress writes and the reaper raise nothing;
a transition that the table allows, and a publication as its use case makes it,
lose the compare-and-swap or go through. (The query of a claim may fail: see
`priorityColumn`.)
-/
import MilpbookLM.Jobs.Runs

namespace MilpbookLM

open PgJobRepository

def CasConflict (e : JobError) : Prop := ∃ msg, e = .jobCasConflict msg

section Errors

variable {env : Env} {db : JobDb} {job : JobRecord}

theorem get_eq (id : Uuid) (db : JobDb) : PgJobRepository.get id db = .ok ((db.job? id).map JobRow.record) := by
  unfold PgJobRepository.get
  cases db.job? id with
  | none => rfl
  | some row => simp only [JobRow.jobFromRow_eq, Option.map_some]; rfl

theorem runningJobs_total (q : CapacityClass) (db : JobDb) : ∃ jobs, runningJobs q db = .ok jobs :=
  ⟨_, JobRow.mapM_jobFromRow _⟩

/-- A progress write leaves the owner its lease. -/
theorem recordProgress_total (now : Time) (job p c lease) (db : JobDb) :
    ∃ r, recordProgress now job p c lease db = .ok r := by
  have hupd := db.updateJobs_consistent (p := ownerMatches job.id job.leaseOwner)
    (f := progressRow now lease (progressed job p c)) fun row hm => by
      have hf : (progressRow now lease (progressed job p c) row).inFlight = true := (ownerMatches_iff.1 hm).2.2
      simp [leaseConsistent, hf]
  exact ⟨_, by simp only [recordProgress, hupd, bind, Except.bind, pure, Except.pure]; rfl⟩

/-- A row that is no longer leased keeps the constraint. -/
theorem leaseConsistent_finishRow {now status updated} (row : JobRow) :
    leaseConsistent (finishRow now status updated row) = true := rfl

theorem leaseConsistent_transitionRow {now new updated} (hnew : new.terminal = false) (row : JobRow) :
    leaseConsistent (transitionRow now new updated row) = true := by
  cases new <;> first | cases hnew; done | simp [leaseConsistent, transitionRow, JobState.pending, JobRow.inFlight,
    physicalStatus, JobStatus.inFlight]

/-- A legal transition between states that are not terminal can only lose. -/
theorem transition_error {new u e} (hmem : new ∈ transitions job.state) (hu : u.unknown = []) (hnew : new.terminal = false)
    (h : transition env job new u db = .error e) : CasConflict e := by
  obtain ⟨updated, hup⟩ := applyTransition_of_mem env.clock hmem hu
  have hupd := db.updateJobs_consistent (p := casMatches job) (f := transitionRow env.now new updated)
    fun row _ => leaseConsistent_transitionRow hnew row
  simp only [transition, hup, hupd, bind, Except.bind] at h
  split at h
  · cases h; exact ⟨_, rfl⟩
  · cases h

/-- The outcome of a terminal state is one the ledger has. -/
theorem finishAttempt_total (now : Time) (id : Uuid) {outcome : JobState} (h : outcome.terminal = true) (db : JobDb) :
    ∃ db', finishAttempt now id outcome db = .ok db' := by
  cases outcome <;> first | cases h; done | exact ⟨_, rfl⟩

theorem appendOutbox_total {e : EventEnvelope} (h : assertContentFree e.payload = .ok ()) (db : JobDb) :
    ∃ db', appendOutbox e db = .ok db' := by
  simp only [appendOutbox, EventEnvelope.toDict, h]
  exact ⟨_, rfl⟩

/-- A publication as `CompleteJob` makes it can only lose. -/
theorem complete_error {new rr ec e err} (hp : (Call.complete job new rr ec e).Published)
    (h : complete env job new rr ec e db = .error err) : CasConflict err := by
  obtain ⟨succeeded, now, eventId, final, rfl, hap, rfl⟩ := hp
  obtain ⟨updated, hup⟩ := applyTransition_of_mem env.clock (applyTransition_ok hap).1
    (u := { resultRef := some rr, errorCode := some ec }) rfl
  have hstatus : ∃ status, JobStatus.ofState? (completionState succeeded) = some status := by
    cases succeeded <;> exact ⟨_, rfl⟩
  obtain ⟨status, hstatus⟩ := hstatus
  have hupd := db.updateJobs_consistent (p := casMatches job) (f := finishRow env.now status updated)
    fun row _ => leaseConsistent_finishRow row
  simp only [complete, hup, hstatus, hupd, bind, Except.bind] at h
  split at h
  · cases h; exact ⟨_, rfl⟩
  · obtain ⟨db₂, hfin⟩ := finishAttempt_total env.now job.id
      (show (completionState succeeded).terminal = true by cases succeeded <;> rfl)
      { db with jobs := Table.update (casMatches job) (finishRow env.now status updated) db.jobs }
    obtain ⟨db₃, hout⟩ := appendOutbox_total (e := completeEnvelope job final succeeded now eventId)
      (jobEventPayload_contentFree final) db₂
    simp only [hfin, hout] at h
    cases h

/-- A cancellation as `CancelJob` makes it, of a job that has not ended, can only lose. -/
theorem cancel_error {reason e err} (hp : (Call.cancel job reason e).Published) (hst : job.state.terminal = false)
    (h : cancel env job reason e db = .error err) : CasConflict err := by
  obtain ⟨now, eventId, rfl⟩ := hp
  obtain ⟨updated, hup⟩ := applyTransition_of_mem env.clock (cancelled_mem_transitions hst)
    (u := { cancelReason := some (some reason) }) rfl
  have hupd := db.updateJobs_consistent (p := cancelMatches job) (f := finishRow env.now .cancelled updated)
    fun row _ => leaseConsistent_finishRow row
  simp only [cancel, hup, hupd, bind, Except.bind] at h
  split at h
  · cases h; exact ⟨_, rfl⟩
  · obtain ⟨db₂, hfin⟩ := finishAttempt_total env.now job.id (show JobState.cancelled.terminal = true from rfl)
      { db with jobs := Table.update (cancelMatches job) (finishRow env.now .cancelled updated) db.jobs }
    obtain ⟨db₃, hout⟩ := appendOutbox_total (e := cancelEnvelope job reason now eventId)
      (cancelPayload_contentFree job reason) db₂
    simp only [hfin, hout] at h
    cases h

/-- A job in flight may be requeued, and may fail. -/
theorem inFlight_transitions {row : JobRow} (h : row.inFlight = true) :
    .queued ∈ transitions row.logicalState ∧ .failed ∈ transitions row.logicalState := by
  have hq : row.status ≠ .queued := by intro hq; simp [JobRow.inFlight, hq, JobStatus.inFlight] at h
  rw [JobRow.logicalState, unpackLogicalState_of_ne hq]
  revert h
  cases hs : row.status <;> simp [JobRow.inFlight, hs, JobStatus.inFlight, JobStatus.state, transitions]

theorem reap_total {row : JobRow} (hf : row.inFlight = true) (db : JobDb) : ∃ r, reap env db row = .ok r := by
  obtain ⟨hqueued, hfailed⟩ := inFlight_transitions hf
  rw [← JobRow.record_state] at hqueued hfailed
  simp only [reap, JobRow.jobFromRow_eq, bind, Except.bind, pure, Except.pure]
  split
  · obtain ⟨failed, hup⟩ := applyTransition_of_mem env.clock hfailed
      (u := { errorCode := some (some "lease_expired") }) rfl
    have hupd := db.updateJobs_consistent (p := reapMatches row.record) (f := finishRow env.now .failed failed)
      fun row _ => leaseConsistent_finishRow row
    obtain ⟨db₂, hfin⟩ := finishAttempt_total env.now row.record.id (show JobState.failed.terminal = true from rfl)
      { db with jobs := Table.update (reapMatches row.record) (finishRow env.now .failed failed) db.jobs }
    obtain ⟨db₃, hout⟩ := appendOutbox_total (e := expiredEnvelope env row.record failed)
      (jobEventPayload_contentFree failed) db₂
    exact ⟨_, by simp only [hup, hupd, hfin, hout]; rfl⟩
  · obtain ⟨requeued, hup⟩ := applyTransition_of_mem env.clock hqueued
      (u := { leaseOwner := some none, leaseExpiresAt := some none }) rfl
    have hupd := db.updateJobs_consistent (p := reapMatches row.record) (f := requeueRow env.now requeued)
      fun _ _ => rfl
    exact ⟨_, by simp only [hup, hupd]; rfl⟩

theorem reapAll_total {rows : List JobRow} (hf : ∀ row ∈ rows, row.inFlight = true) (db : JobDb) :
    ∃ r, reapAll env rows db = .ok r := by
  induction rows generalizing db with
  | nil => exact ⟨_, rfl⟩
  | cons row rows ih =>
    obtain ⟨⟨job, db₁⟩, hreap⟩ : ∃ r, reap env db row = .ok r := reap_total (hf row (by simp)) db
    obtain ⟨⟨jobs, db₂⟩, hrest⟩ := ih (fun row hr => hf row (by simp [hr])) db₁
    exact ⟨_, by simp only [reapAll, hreap, hrest, bind, Except.bind, pure, Except.pure]; rfl⟩

/-- The reaper raises nothing. -/
theorem recoverExpired_total (env : Env) (db : JobDb) : ∃ r, recoverExpired env db = .ok r :=
  reapAll_total (fun row hr => by
    have := (List.mem_filter.1 hr).2
    simp only [expired, Bool.and_eq_true] at this
    exact this.1) db

end Errors

end MilpbookLM
