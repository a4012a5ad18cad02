/-
One job of the tables (`JobView`: its row, its attempts, its events), and what a
call can do to it. `JobStep` lists the ways, one for each UPDATE of the
repository; `exec_view` says that every call changes every job in one of them, or
leaves it alone. An invariant of all jobs is proved from these ways only.
-/
import MilpbookLM.Jobs.Calls

namespace MilpbookLM

open PgJobRepository

/-! ## The view of one job -/

structure JobView where
  row : Option JobRow
  attempts : List JobAttempt
  events : List OutboxEvent

namespace JobDb

def view (db : JobDb) (id : Uuid) : JobView where
  row := db.job? id
  attempts := db.jobAttempts.filter (·.jobId = id)
  events := db.outboxEvents.filter (·.aggregateId = id)

/-- No two rows have one id. -/
def Keyed (db : JobDb) : Prop := Table.Keyed JobRow.id db.jobs

instance {db : JobDb} : Decidable db.Keyed := inferInstanceAs (Decidable (Table.Keyed JobRow.id db.jobs))

/-- `db'` is `db` with job `k` as `v` shows it. -/
structure Sets (db db' : JobDb) (k : Uuid) (v : JobView) : Prop where
  keyed : db'.Keyed
  here : db'.view k = v
  elsewhere : ∀ id, id ≠ k → db'.view id = db.view id

@[simp] theorem view_row {db : JobDb} {id} : (db.view id).row = db.job? id := rfl

theorem job?_id {db : JobDb} {id row} (h : db.job? id = some row) : row.id = id := (Table.lookup_some h).2

theorem view_eq {db : JobDb} {id row} (h : db.job? id = some row) :
    db.view id = ⟨some row, (db.view id).attempts, (db.view id).events⟩ := by
  simp [view, h]

theorem Sets.trans {db db₁ db₂ : JobDb} {k v w} (h₁ : db.Sets db₁ k v) (h₂ : db₁.Sets db₂ k w) :
    db.Sets db₂ k w :=
  ⟨h₂.keyed, h₂.here, fun id hid => (h₂.elsewhere id hid).trans (h₁.elsewhere id hid)⟩

/-! ## Statements -/

section Statements

variable {db db' : JobDb} {k : Uuid}

theorem updateJobs_ok {p f n} (h : db.updateJobs p f = .ok (n, db')) :
    n = db.jobs.countP p ∧ db' = { db with jobs := Table.update p f db.jobs } := by
  unfold updateJobs at h
  split at h
  · cases h
  · cases h; exact ⟨rfl, rfl⟩

/-- An UPDATE whose rows keep the lease constraint goes through. -/
theorem updateJobs_consistent {p : JobRow → Bool} {f} (h : ∀ r, p r = true → leaseConsistent (f r) = true) :
    db.updateJobs p f = .ok (db.jobs.countP p, { db with jobs := Table.update p f db.jobs }) := by
  unfold updateJobs
  rw [if_neg]
  simp +contextual [h]

/-- An UPDATE under a job's id whose row it selects. -/
theorem updateJobs_row {p : JobRow → Bool} {f n row} (hk : db.Keyed) (h : db.updateJobs p f = .ok (n, db'))
    (hp : ∀ r, p r = true → r.id = k) (hf : ∀ r, (f r).id = r.id) (hrow : db.job? k = some row)
    (hprow : p row = true) : n ≠ 0 ∧ db.Sets db' k ⟨some (f row), (db.view k).attempts, (db.view k).events⟩ := by
  obtain ⟨rfl, rfl⟩ := updateJobs_ok h
  refine ⟨fun hn => ?_, Table.keyed_update (fun r _ => hf r) hk, ?_, fun id hid => ?_⟩
  · simp [(Table.countP_key hk hp).1 hn row hrow] at hprow
  · refine congrArg (JobView.mk · _ _) ((Table.lookup_update (fun r _ => hf r) _ _).trans ?_)
    rw [show Table.lookup JobRow.id db.jobs k = some row from hrow]
    simp [hprow]
  · refine congrArg (JobView.mk · _ _) ((Table.lookup_update (fun r _ => hf r) _ _).trans ?_)
    change _ = Table.lookup JobRow.id db.jobs id
    rcases hl : Table.lookup JobRow.id db.jobs id with _ | r
    · rfl
    · have hne : p r ≠ true := fun hpr => hid ((Table.lookup_some hl).2.symm.trans (hp r hpr))
      simp [hne]

/-- An UPDATE under a job's id that found its row. -/
theorem updateJobs_hit {p : JobRow → Bool} {f n} (hk : db.Keyed) (h : db.updateJobs p f = .ok (n, db'))
    (hp : ∀ r, p r = true → r.id = k) (hf : ∀ r, (f r).id = r.id) (hn : n ≠ 0) :
    ∃ row, db.job? k = some row ∧ p row = true ∧
      db.Sets db' k ⟨some (f row), (db.view k).attempts, (db.view k).events⟩ := by
  have hcount := (Table.countP_key hk hp).not.1 ((updateJobs_ok h).1 ▸ hn)
  push Not at hcount
  obtain ⟨row, hrow, hprow⟩ := hcount
  have hprow : p row = true := by simpa using hprow
  exact ⟨row, hrow, hprow, (updateJobs_row hk h hp hf hrow hprow).2⟩

/-- An UPDATE that found no row. -/
theorem updateJobs_miss {p : JobRow → Bool} {f} (h : db.updateJobs p f = .ok (0, db')) : db' = db := by
  obtain ⟨hn, rfl⟩ := updateJobs_ok h
  have hp : ∀ r ∈ db.jobs, p r = false := by simpa using List.countP_eq_zero.1 hn.symm
  simp [Table.update_none hp]

end Statements

end JobDb

/-- The highest-numbered attempt closed with the outcome a state names. -/
def closeLast (now : Time) (outcome : JobState) (attempts : List JobAttempt) : List JobAttempt :=
  match AttemptOutcome.ofState? outcome with
  | some o =>
    Table.update (fun a => a.attemptNumber = maxNumber attempts)
      (fun a => { a with outcome := o, finishedAt := some now }) attempts
  | none => attempts

/-- The outbox row of an envelope. -/
def EventEnvelope.row (e : EventEnvelope) (seq : Nat) : OutboxEvent :=
  ⟨seq, e.aggregateKind, e.aggregateId, e.eventType, e⟩

namespace JobDb

section Statements

variable {db db' : JobDb} {k : Uuid}

theorem sets_recordAttempt (hk : db.Keyed) (w : String) :
    db.Sets (recordAttempt k w db) k
      { db.view k with
        attempts := (db.view k).attempts ++ [⟨k, maxNumber (db.view k).attempts + 1, some w, .running, none⟩] } := by
  refine ⟨hk, ?_, fun id hid => ?_⟩
  · simp [view, recordAttempt, maxAttempt, job?]
  · simp [view, recordAttempt, job?, Ne.symm hid]

theorem sets_finishAttempt {now outcome} (hk : db.Keyed) (h : finishAttempt now k outcome db = .ok db') :
    db.Sets db' k { db.view k with attempts := closeLast now outcome (db.view k).attempts } := by
  unfold finishAttempt at h
  split at h
  next o ho =>
    cases h
    refine ⟨hk, ?_, fun id hid => ?_⟩
    · have hcongr : ∀ a ∈ (db.view k).attempts, (a.jobId = k && a.attemptNumber = db.maxAttempt k)
          = decide (a.attemptNumber = maxNumber (db.view k).attempts) := by
        intro a ha
        have hj : a.jobId = k := by simpa using (List.mem_filter.1 ha).2
        change (decide (a.jobId = k) && decide (a.attemptNumber = maxNumber (db.view k).attempts)) = _
        simp [hj]
      simp only [closeLast, ho, ← Table.update_congr hcongr]
      exact congrArg (JobView.mk _ · _) (Table.filter_update (by simp) _)
    · have hnone : ∀ a ∈ (db.view id).attempts, (a.jobId = k && a.attemptNumber = db.maxAttempt k) = false := by
        intro a ha
        simp [show a.jobId = id by simpa using (List.mem_filter.1 ha).2, hid]
      refine congrArg (JobView.mk _ · _) ((Table.filter_update (by simp) _).trans ?_)
      exact Table.update_none hnone
  next ho =>
    split at h
    · cases h
    · cases h
      exact ⟨hk, by rw [closeLast, ho], fun _ _ => rfl⟩

theorem sets_appendOutbox {e : EventEnvelope} (hk : db.Keyed) (he : e.aggregateId = k)
    (h : appendOutbox e db = .ok db') :
    db.Sets db' k { db.view k with events := (db.view k).events ++ [e.row db.nextSeq] } := by
  simp only [appendOutbox, EventEnvelope.toDict] at h
  split at h
  · simp only [bind, Except.bind, pure, Except.pure, Except.ok.injEq] at h
    subst h
    refine ⟨hk, ?_, fun id hid => ?_⟩
    · simp [view, job?, EventEnvelope.row, he]
    · simp [view, job?, he, Ne.symm hid]
  · cases h

theorem sets_insertJob {now id job keyId row} (hk : db.Keyed) (h : insertJob now id job keyId db = .ok (row, db')) :
    row = newRow now id job keyId ∧ db.job? id = none ∧
      db.Sets db' id ⟨some row, (db.view id).attempts, (db.view id).events⟩ := by
  unfold insertJob at h
  split at h
  · cases h
  next hn =>
    have hnone : Table.lookup JobRow.id db.jobs (newRow now id job keyId).id = none := Option.not_isSome_iff_eq_none.1 hn
    cases h
    refine ⟨rfl, hnone, Table.keyed_insert hk hnone, ?_, fun id' hid => ?_⟩
    · refine congrArg (JobView.mk · _ _) ((Table.lookup_insert hnone _).trans ?_)
      exact if_pos rfl
    · refine congrArg (JobView.mk · _ _) ((Table.lookup_insert hnone _).trans ?_)
      exact if_neg hid

end Statements

end JobDb

/-! ## What a call can do to one job -/

/-- One job changed by a call. -/
inductive JobStep (env : Env) (id : Uuid) : Call → JobView → JobView → Prop
  | enqueue {job hash scope key keyId as es} : env.newJobId = id →
      JobStep env id (.enqueue job hash scope key) ⟨none, as, es⟩ ⟨some (newRow env.now id job keyId), as, es⟩
  | claim {w q lease policy kinds row as es} : claimable q kinds row = true →
      JobStep env id (.claim w q lease policy kinds) ⟨some row, as, es⟩
        ⟨some (leaseRow env.now w lease row), as ++ [⟨id, maxNumber as + 1, some w, .running, none⟩], es⟩
  | heartbeat {w lease row as es} : ownerMatches id (some w) row = true →
      JobStep env id (.heartbeat id w lease) ⟨some row, as, es⟩ ⟨some (extendRow env.now lease row), as, es⟩
  | recordProgress {site job p c lease row as es} : job.id = id → ownerMatches id job.leaseOwner row = true →
      JobStep env id (.recordProgress site job p c lease) ⟨some row, as, es⟩
        ⟨some (progressRow env.now lease (progressed job p c) row), as, es⟩
  | transition {site job new u updated row as es} : applyTransition env.clock job new u = .ok updated →
      job.id = id → casMatches job row = true →
      JobStep env id (.transition site job new u) ⟨some row, as, es⟩
        ⟨some (transitionRow env.now new updated row), as, es⟩
  | complete {job new rr ec e updated status row as es seq} :
      applyTransition env.clock job new { resultRef := some rr, errorCode := some ec } = .ok updated →
      JobStatus.ofState? new = some status → job.id = id → casMatches job row = true →
      JobStep env id (.complete job new rr ec e) ⟨some row, as, es⟩
        ⟨some (finishRow env.now status updated row), closeLast env.now new as, es ++ [e.row seq]⟩
  | cancel {job reason e updated row as es seq} :
      applyTransition env.clock job .cancelled { cancelReason := some (some reason) } = .ok updated →
      job.id = id → cancelMatches job row = true →
      JobStep env id (.cancel job reason e) ⟨some row, as, es⟩
        ⟨some (finishRow env.now .cancelled updated row), closeLast env.now .cancelled as, es ++ [e.row seq]⟩
  /-- The reaper, attempts spent. -/
  | expire {failed row as es seq} : expired env.now row = true → row.attempts ≥ row.maxAttempts →
      applyTransition env.clock row.record .failed { errorCode := some (some "lease_expired") } = .ok failed →
      JobStep env id .recoverExpired ⟨some row, as, es⟩
        ⟨some (finishRow env.now .failed failed row), closeLast env.now .failed as,
          es ++ [(expiredEnvelope env row.record failed).row seq]⟩
  /-- The reaper, attempts left. -/
  | requeue {requeued row as es} : expired env.now row = true → row.attempts < row.maxAttempts →
      applyTransition env.clock row.record .queued { leaseOwner := some none, leaseExpiresAt := some none }
        = .ok requeued →
      JobStep env id .recoverExpired ⟨some row, as, es⟩ ⟨some (requeueRow env.now requeued row), as, es⟩

/-- The envelope of a terminal call is about its job. -/
def Call.Addressed : Call → Prop
  | .complete job _ _ _ e => e.aggregateId = job.id
  | .cancel job _ e => e.aggregateId = job.id
  | _ => True

/-! ## The operations -/

theorem claimSelect_ok {plan locked budget q kinds rows locks chosen}
    (h : claimSelect plan locked budget q kinds rows = .ok (locks, chosen)) :
    (∀ row ∈ locks, row ∈ rows ∧ claimable q kinds row = true ∧ locked row.id = false) ∧
      ∀ row, chosen = some row → row ∈ locks ∧ fitsBudget budget q rows row = true := by
  simp only [claimSelect, candidates, Except.bind_ok_iff, pure, Except.pure, Except.ok.injEq] at h
  obtain ⟨_, ⟨_, _, rfl⟩, h⟩ := h
  cases h
  refine ⟨fun row hrow => ?_, fun row hrow => ?_⟩
  · have hmem := List.mem_filter.1 (List.mem_of_mem_take hrow)
    obtain ⟨hrows, hc⟩ := List.mem_filter.1 ((plan.sort_perm _).subset hmem.1)
    exact ⟨hrows, hc, by simpa using hmem.2⟩
  · exact ⟨(plan.join_perm _).subset (List.mem_of_find?_eq_some hrow), by simpa using List.find?_some hrow⟩

theorem claimMatches_id {id row} (h : claimMatches id row = true) : row.id = id := by
  simp only [claimMatches, Bool.and_eq_true, decide_eq_true_eq] at h; exact h.1

theorem ownerMatches_iff {id owner row} : ownerMatches id owner row = true ↔
    row.id = id ∧ (row.leaseOwner = owner ∧ owner.isSome) ∧ row.inFlight = true := by
  simp only [ownerMatches, sqlEq, Bool.and_eq_true, decide_eq_true_eq, and_assoc]
  constructor
  · rintro ⟨hid, hs, rfl, hf⟩; exact ⟨hid, rfl, hs, hf⟩
  · rintro ⟨hid, rfl, hs, hf⟩; exact ⟨hid, hs, rfl, hf⟩

theorem casMatches_iff {job row} : casMatches job row = true ↔
    row.id = job.id ∧ row.status = physicalStatus job.state ∧ row.revision = job.revision := by
  simp only [casMatches, Bool.and_eq_true, decide_eq_true_eq, and_assoc]

theorem cancelMatches_iff {job row} : cancelMatches job row = true ↔
    row.id = job.id ∧ row.status.terminal = false ∧ row.revision = job.revision := by
  simp only [cancelMatches, Bool.and_eq_true, decide_eq_true_eq, Bool.not_eq_true', and_assoc]

theorem reapMatches_id {job row} (h : reapMatches job row = true) : row.id = job.id := by
  simp only [reapMatches, Bool.and_eq_true, decide_eq_true_eq] at h; exact h.1.1

@[simp] theorem leaseRow_id {now w lease row} : (leaseRow now w lease row).id = row.id := rfl
@[simp] theorem extendRow_id {now lease row} : (extendRow now lease row).id = row.id := rfl
@[simp] theorem progressRow_id {now lease u row} : (progressRow now lease u row).id = row.id := rfl
@[simp] theorem transitionRow_id {now new u row} : (transitionRow now new u row).id = row.id := rfl
@[simp] theorem finishRow_id {now status u row} : (finishRow now status u row).id = row.id := rfl
@[simp] theorem requeueRow_id {now u row} : (requeueRow now u row).id = row.id := rfl

section Operations

variable {env : Env} {db db' : JobDb}

theorem enqueue_ok {job hash scope key r} (hk : db.Keyed) (h : enqueue env job hash scope key db = .ok (r, db')) :
    (∃ row ∈ db.jobs, r = (row.record, false) ∧ db'.Keyed ∧ ∀ id, db'.view id = db.view id) ∨
      ∃ keyId, db.job? env.newJobId = none ∧ r = ((newRow env.now env.newJobId job keyId).record, true) ∧
        db.Sets db' env.newJobId ⟨some (newRow env.now env.newJobId job keyId), (db.view env.newJobId).attempts,
          (db.view env.newJobId).events⟩ := by
  simp only [enqueue, Except.bind_ok_iff, pure, Except.pure, Prod.exists] at h
  obtain ⟨keyId, db₁, hclaim, h⟩ := h
  have hjobs : db₁.jobs = db.jobs ∧ ∀ id, db₁.view id = db.view id := by
    unfold claimIdempotency at hclaim
    split at hclaim
    · split at hclaim
      · simp only [insertKey, Except.bind_ok_iff, pure, Except.pure] at hclaim
        obtain ⟨_, hins, hclaim⟩ := hclaim
        split at hins
        · cases hins
        · cases hins; cases hclaim; exact ⟨rfl, fun _ => rfl⟩
      · split at hclaim
        · cases hclaim
        · cases hclaim; exact ⟨rfl, fun _ => rfl⟩
    · cases hclaim; exact ⟨rfl, fun _ => rfl⟩
  have hk₁ : db₁.Keyed := by simpa [JobDb.Keyed, hjobs.1] using hk
  split at h
  next row hrow =>
    rw [JobRow.jobFromRow_eq] at h; cases h
    obtain ⟨k, -, hkey⟩ := Option.bind_eq_some_iff.1 hrow
    exact .inl ⟨row, hjobs.1 ▸ List.mem_of_find?_eq_some hkey, rfl, hk₁, hjobs.2⟩
  · simp only [Except.bind_ok_iff, Prod.exists] at h
    obtain ⟨row, db₂, hins, h⟩ := h
    obtain ⟨rfl, hnone, hs⟩ := JobDb.sets_insertJob hk₁ hins
    simp only [JobRow.jobFromRow_eq, Except.ok.injEq, exists_eq_left'] at h
    cases h
    refine .inr ⟨keyId, ?_, rfl, hs.keyed, ?_, fun id hid => (hs.elsewhere id hid).trans (hjobs.2 id)⟩
    · simpa [JobDb.job?, hjobs.1] using hnone
    · rw [hs.here, hjobs.2]

theorem get_ok {id r} (h : PgJobRepository.get id db = .ok r) :
    (r = none ∧ db.job? id = none) ∨ ∃ row, db.job? id = some row ∧ r = some row.record := by
  unfold PgJobRepository.get at h
  split at h
  next row hrow =>
    rw [JobRow.jobFromRow_eq] at h; cases h
    exact .inr ⟨row, hrow, rfl⟩
  next hnone => cases h; exact .inl ⟨rfl, hnone⟩

/-- A claim whose query selects a job leases it. -/
theorem claim_chosen (w : String) (lease : Int) {q policy kinds budget locks c} (hk : db.Keyed) (hkinds : kinds.isEmpty = false)
    (hb : policy.budget q = .ok budget)
    (hsel : claimSelect env.plan (fun _ => false) budget q kinds db.jobs = .ok (locks, some c)) :
    ∃ db', claim env w q lease policy kinds db = .ok (some (leaseRow env.now w lease c).record, db') ∧
      db.Sets db' c.id ⟨some (leaseRow env.now w lease c), (db.view c.id).attempts ++
        [⟨c.id, maxNumber (db.view c.id).attempts + 1, some w, .running, none⟩], (db.view c.id).events⟩ := by
  obtain ⟨hlocks, hchosen⟩ := claimSelect_ok hsel
  obtain ⟨hmem, hc, -⟩ := hlocks c (hchosen c rfl).1
  have hjob : db.job? c.id = some c := Table.lookup_of_mem hk hmem
  have hcm : claimMatches c.id c = true := by
    simp only [claimable, Bool.and_eq_true, decide_eq_true_eq] at hc
    simp [claimMatches, hc.1.1]
  have hupd := db.updateJobs_consistent (p := claimMatches c.id) (f := leaseRow env.now w lease)
    fun _ _ => by simp [leaseConsistent, leaseRow, JobRow.inFlight, JobStatus.inFlight]
  have hs₁ := (JobDb.updateJobs_row hk hupd (fun _ => claimMatches_id) (fun _ => rfl) hjob hcm).2
  have hs := hs₁.trans (JobDb.sets_recordAttempt hs₁.keyed w)
  rw [hs₁.here] at hs
  refine ⟨_, ?_, hs⟩
  have hrow := congrArg JobView.row hs.here
  rw [JobDb.view_row] at hrow
  simp only [claim, hkinds, hb, hsel, hupd, bind, Except.bind, Bool.false_eq_true, if_false, hrow,
    JobRow.jobFromRow_eq, pure, Except.pure]

theorem claim_ok {w q lease policy kinds r} (hk : db.Keyed)
    (h : claim env w q lease policy kinds db = .ok (r, db')) :
    (r = none ∧ db' = db) ∨ ∃ row, db.job? row.id = some row ∧ claimable q kinds row = true ∧
      r = some (leaseRow env.now w lease row).record ∧
      db.Sets db' row.id ⟨some (leaseRow env.now w lease row), (db.view row.id).attempts ++
        [⟨row.id, maxNumber (db.view row.id).attempts + 1, some w, .running, none⟩], (db.view row.id).events⟩ := by
  have heq := h
  unfold claim at h
  split at h
  · cases h; exact .inl ⟨rfl, rfl⟩
  next hkinds =>
    simp only [Except.bind_ok_iff, pure, Except.pure, Prod.exists] at h
    obtain ⟨budget, hb, locks, chosen, hsel, h⟩ := h
    cases chosen with
    | none => cases h; exact .inl ⟨rfl, rfl⟩
    | some c =>
      obtain ⟨hlocks, hchosen⟩ := claimSelect_ok hsel
      obtain ⟨hmem, hc, -⟩ := hlocks c (hchosen c rfl).1
      obtain ⟨db₁, heq₁, hs⟩ := claim_chosen w lease hk (by simpa using hkinds) hb hsel
      rw [heq] at heq₁
      cases heq₁
      exact .inr ⟨c, Table.lookup_of_mem hk hmem, hc, rfl, hs⟩

theorem heartbeat_ok {now id w lease r} (hk : db.Keyed) (h : heartbeat now id w lease db = .ok (r, db')) :
    db' = db ∨ ∃ row, db.job? id = some row ∧ ownerMatches id (some w) row = true ∧
      db.Sets db' id ⟨some (extendRow now lease row), (db.view id).attempts, (db.view id).events⟩ := by
  simp only [heartbeat, Except.bind_ok_iff, pure, Except.pure, Prod.exists] at h
  obtain ⟨n, db₁, hupd, h⟩ := h
  cases h
  by_cases hn : n = 0
  · subst hn; exact .inl (JobDb.updateJobs_miss hupd)
  · exact .inr (JobDb.updateJobs_hit hk hupd (fun _ hr => (ownerMatches_iff.1 hr).1) (fun _ => rfl) hn)

theorem recordProgress_ok {now job p c lease r} (hk : db.Keyed)
    (h : recordProgress now job p c lease db = .ok (r, db')) :
    (r = none ∧ db' = db) ∨ ∃ row, db.job? job.id = some row ∧ ownerMatches job.id job.leaseOwner row = true ∧
      r = some (progressed job p c) ∧
      db.Sets db' job.id ⟨some (progressRow now lease (progressed job p c) row), (db.view job.id).attempts,
        (db.view job.id).events⟩ := by
  simp only [recordProgress, Except.bind_ok_iff, pure, Except.pure, Prod.exists] at h
  obtain ⟨n, db₁, hupd, h⟩ := h
  cases h
  by_cases hn : n = 0
  · subst hn; exact .inl ⟨rfl, JobDb.updateJobs_miss hupd⟩
  · obtain ⟨row, hrow, hm, hs⟩ := JobDb.updateJobs_hit hk hupd (fun _ hr => (ownerMatches_iff.1 hr).1) (fun _ => rfl) hn
    exact .inr ⟨row, hrow, hm, by simp [hn], hs⟩

theorem transition_ok {job new u r} (hk : db.Keyed) (h : transition env job new u db = .ok (r, db')) :
    applyTransition env.clock job new u = .ok r ∧ ∃ row, db.job? job.id = some row ∧ casMatches job row = true ∧
      db.Sets db' job.id ⟨some (transitionRow env.now new r row), (db.view job.id).attempts,
        (db.view job.id).events⟩ := by
  simp only [transition, Except.bind_ok_iff, pure, Except.pure, Prod.exists] at h
  obtain ⟨updated, hup, n, db₁, hupd, h⟩ := h
  split at h
  · cases h
  next hn =>
    cases h
    exact ⟨hup, JobDb.updateJobs_hit hk hupd (fun _ hr => (casMatches_iff.1 hr).1) (fun _ => rfl) hn⟩

/-- What `complete` and `cancel` share: the row ended, the attempt closed, the event out. -/
theorem finish_ok {k p status updated new} {e : EventEnvelope} {n db₁ db₂ db₃} (hk : db.Keyed)
    (hupd : db.updateJobs p (finishRow env.now status updated) = .ok (n, db₁)) (hn : n ≠ 0)
    (hp : ∀ r, p r = true → r.id = k) (hfin : finishAttempt env.now k new db₁ = .ok db₂)
    (hout : appendOutbox e db₂ = .ok db₃) (he : e.aggregateId = k) :
    ∃ row seq, db.job? k = some row ∧ p row = true ∧
      db.Sets db₃ k ⟨some (finishRow env.now status updated row), closeLast env.now new (db.view k).attempts,
        (db.view k).events ++ [e.row seq]⟩ := by
  obtain ⟨row, hrow, hm, hs₁⟩ := JobDb.updateJobs_hit hk hupd hp (fun _ => rfl) hn
  have hs₂ := JobDb.sets_finishAttempt hs₁.keyed hfin
  have hs₃ := JobDb.sets_appendOutbox hs₂.keyed he hout
  rw [hs₁.here] at hs₂
  rw [hs₂.here] at hs₃
  exact ⟨row, _, hrow, hm, (hs₁.trans hs₂).trans hs₃⟩

theorem complete_ok {job new rr ec e r} (hk : db.Keyed) (he : e.aggregateId = job.id)
    (h : complete env job new rr ec e db = .ok (r, db')) :
    applyTransition env.clock job new { resultRef := some rr, errorCode := some ec } = .ok r ∧
      ∃ status row seq, JobStatus.ofState? new = some status ∧ db.job? job.id = some row ∧
        casMatches job row = true ∧
        db.Sets db' job.id ⟨some (finishRow env.now status r row), closeLast env.now new (db.view job.id).attempts,
          (db.view job.id).events ++ [e.row seq]⟩ := by
  simp only [complete, Except.bind_ok_iff, pure, Except.pure] at h
  obtain ⟨updated, hup, h⟩ := h
  split at h
  · split at h
    · cases h
    · cases h
  next status hstatus =>
    simp only [Except.bind_ok_iff, Prod.exists] at h
    obtain ⟨n, db₁, hupd, h⟩ := h
    split at h
    · cases h
    next hn =>
      simp only [Except.bind_ok_iff] at h
      obtain ⟨db₂, hfin, db₃, hout, h⟩ := h
      cases h
      obtain ⟨row, seq, hrow, hm, hs⟩ := finish_ok hk hupd hn (fun _ hr => (casMatches_iff.1 hr).1) hfin hout he
      exact ⟨hup, status, row, seq, hstatus, hrow, hm, hs⟩

theorem cancel_ok {job reason e r} (hk : db.Keyed) (he : e.aggregateId = job.id)
    (h : cancel env job reason e db = .ok (r, db')) :
    applyTransition env.clock job .cancelled { cancelReason := some (some reason) } = .ok r ∧
      ∃ row seq, db.job? job.id = some row ∧ cancelMatches job row = true ∧
        db.Sets db' job.id ⟨some (finishRow env.now .cancelled r row),
          closeLast env.now .cancelled (db.view job.id).attempts, (db.view job.id).events ++ [e.row seq]⟩ := by
  simp only [cancel, Except.bind_ok_iff, pure, Except.pure, Prod.exists] at h
  obtain ⟨updated, hup, n, db₁, hupd, h⟩ := h
  split at h
  · cases h
  next hn =>
    simp only [Except.bind_ok_iff] at h
    obtain ⟨db₂, hfin, db₃, hout, h⟩ := h
    cases h
    exact ⟨hup, finish_ok hk hupd hn (fun _ hr => (cancelMatches_iff.1 hr).1) hfin hout he⟩

/-- One round of the reaper, on a row whose lease has expired. -/
theorem reap_ok {row r} (hk : db.Keyed) (hrow : db.job? row.id = some row) (hexp : expired env.now row = true)
    (h : reap env db row = .ok (r, db')) :
    ∃ v, db.Sets db' row.id v ∧ JobStep env row.id .recoverExpired (db.view row.id) v ∧
      ∃ row', v.row = some row' ∧ ReadFrom row' r := by
  simp only [reap, JobRow.jobFromRow_eq, Except.bind_ok_iff, Except.ok.injEq, exists_eq_left', pure,
    Except.pure] at h
  have hm : reapMatches row.record row = true := by
    simp only [expired, Bool.and_eq_true] at hexp
    simp [reapMatches, hexp.1]
  rw [JobDb.view_eq hrow]
  split at h
  next hspent =>
    simp only [Except.bind_ok_iff, Prod.exists] at h
    obtain ⟨failed, hup, n, db₁, hupd, db₂, hfin, db₃, hout, h⟩ := h
    cases h
    obtain ⟨hn, -⟩ := JobDb.updateJobs_row hk hupd (fun _ hr => (reapMatches_id hr).trans JobRow.record_id)
      (fun _ => rfl) hrow hm
    obtain ⟨row', seq, hrow', -, hs⟩ := finish_ok hk hupd hn
      (fun _ hr => (reapMatches_id hr).trans JobRow.record_id) (by rwa [JobRow.record_id] at hfin) hout
      JobRow.record_id
    obtain rfl : row = row' := Option.some.inj (hrow.symm.trans hrow')
    obtain ⟨-, hid, -, hrev, -⟩ := applyTransition_ok hup
    refine ⟨_, hs, .expire hexp (by simpa using hspent) hup, _, rfl, ?_⟩
    exact readFrom_moved hup (by simp [hid]) (by simp [hrev, finishRow]) rfl rfl (by simp [JobRow.inFlight, finishRow, JobStatus.inFlight])
  next hleft =>
    simp only [Except.bind_ok_iff, Prod.exists] at h
    obtain ⟨requeued, hup, n, db₁, hupd, h⟩ := h
    cases h
    obtain ⟨-, hs⟩ := JobDb.updateJobs_row hk hupd (fun _ hr => (reapMatches_id hr).trans JobRow.record_id)
      (fun _ => rfl) hrow hm
    obtain ⟨-, hid, -, hrev, -⟩ := applyTransition_ok hup
    refine ⟨_, hs, .requeue hexp (by simpa using hleft) hup, _, rfl, ?_⟩
    exact readFrom_moved hup (by simp [hid]) (by simp [hrev, requeueRow]) rfl rfl (by simp [JobRow.inFlight, requeueRow, JobStatus.inFlight])

/-- The reaper's pass over rows whose leases have expired: each is changed once,
the others not at all. -/
theorem reapAll_ok {rows r} (hk : db.Keyed) (hnd : (rows.map JobRow.id).Nodup)
    (hrows : ∀ row ∈ rows, db.job? row.id = some row ∧ expired env.now row = true)
    (h : reapAll env rows db = .ok (r, db')) :
    db'.Keyed ∧
      (∀ id, (id ∈ rows.map JobRow.id → JobStep env id .recoverExpired (db.view id) (db'.view id)) ∧
        (id ∉ rows.map JobRow.id → db'.view id = db.view id)) ∧
      ∀ job ∈ r, ∃ row, db'.job? job.id = some row ∧ ReadFrom row job := by
  induction rows generalizing db r with
  | nil => cases h; exact ⟨hk, fun id => ⟨by simp, fun _ => rfl⟩, by simp⟩
  | cons row rows ih =>
    simp only [reapAll, Except.bind_ok_iff, pure, Except.pure, Prod.exists] at h
    obtain ⟨job, db₁, hreap, jobs, db₂, hrest, h⟩ := h
    cases h
    simp only [List.map_cons, List.nodup_cons] at hnd
    obtain ⟨v, hs, hstep, row', hv, hread⟩ := reap_ok hk (hrows row (by simp)).1 (hrows row (by simp)).2 hreap
    have hother : ∀ row₂ ∈ rows, row₂.id ≠ row.id := fun row₂ hr he => hnd.1 (List.mem_map.2 ⟨row₂, hr, he⟩)
    obtain ⟨hk', hviews, hjobs⟩ := ih hs.keyed hnd.2 (fun row₂ hr => by
      refine ⟨?_, (hrows row₂ (by simp [hr])).2⟩
      rw [← JobDb.view_row, hs.elsewhere _ (hother row₂ hr)]
      exact (hrows row₂ (by simp [hr])).1) hrest
    have hhere : db'.view row.id = v := by rw [(hviews row.id).2 hnd.1, hs.here]
    refine ⟨hk', fun id => ⟨fun hid => ?_, fun hid => ?_⟩, fun job' hjob' => ?_⟩
    · rcases List.mem_cons.1 hid with rfl | hid
      · rw [hhere]; exact hstep
      · have hne : id ≠ row.id := fun he => hnd.1 (he ▸ hid)
        have := (hviews id).1 hid
        rwa [hs.elsewhere id hne] at this
    · simp only [List.map_cons, List.mem_cons, not_or] at hid
      rw [(hviews id).2 hid.2, hs.elsewhere id hid.1]
    · rcases List.mem_cons.1 hjob' with rfl | hjob'
      · have hrow' : db'.job? row.id = some row' := by rw [← JobDb.view_row, hhere, hv]
        refine ⟨row', ?_, hread⟩
        rwa [hread.id, JobDb.job?_id hrow']
      · exact hjobs job' hjob'

theorem recoverExpired_ok {r} (hk : db.Keyed) (h : recoverExpired env db = .ok (r, db')) :
    db'.Keyed ∧ (∀ id, db'.view id = db.view id ∨ JobStep env id .recoverExpired (db.view id) (db'.view id)) ∧
      ∀ job ∈ r, ∃ row, db'.job? job.id = some row ∧ ReadFrom row job := by
  obtain ⟨hk', hviews, hjobs⟩ := reapAll_ok hk (hk.sublist (List.filter_sublist.map _)) (fun row hrow =>
    have ⟨hmem, hexp⟩ := List.mem_filter.1 hrow
    ⟨Table.lookup_of_mem hk hmem, hexp⟩) h
  refine ⟨hk', fun id => ?_, hjobs⟩
  by_cases hid : id ∈ (db.jobs.filter (expired env.now)).map JobRow.id
  · exact .inr ((hviews id).1 hid)
  · exact .inl ((hviews id).2 hid)

end Operations

/-! ## Every call -/

theorem JobDb.Sets.views {env c} {db db' : JobDb} {k v} (hs : db.Sets db' k v)
    (h : JobStep env k c (db.view k) v) :
    db'.Keyed ∧ ∀ id, db'.view id = db.view id ∨ JobStep env id c (db.view id) (db'.view id) := by
  refine ⟨hs.keyed, fun id => ?_⟩
  by_cases hid : id = k
  · subst hid; rw [hs.here]; exact .inr h
  · exact .inl (hs.elsewhere id hid)

/-- What holds of the tables before a transaction and after it commits holds after it. -/
theorem commit_keeps {α : Type} {T : JobDb → Prop} {db : JobDb} {x : Except JobError (α × JobDb)} (h0 : T db)
    (h : ∀ a db', x = .ok (a, db') → T db') : T (commit db x).2 := by
  rcases x with e | ⟨a, db'⟩
  · exact h0
  · exact h a db' rfl

/-- **Every call changes each job in one of the ways of `JobStep`, or leaves it alone.** -/
theorem exec_view (env : Env) {c} {db : JobDb} (hk : db.Keyed) (hc : c.Addressed) :
    (exec env c db).2.Keyed ∧ ∀ id, (exec env c db).2.view id = db.view id ∨
      JobStep env id c (db.view id) ((exec env c db).2.view id) := by
  let T (db' : JobDb) : Prop :=
    db'.Keyed ∧ ∀ id, db'.view id = db.view id ∨ JobStep env id c (db.view id) (db'.view id)
  have hstay : T db := ⟨hk, fun _ => .inl rfl⟩
  cases c with
  | get | runningJobs | inFlight | inFlightForUser | revalidate | stamp | observe => exact hstay
  | enqueue job hash scope key =>
    refine commit_keeps (T := T) hstay fun r db' h => ?_
    obtain ⟨_, -, -, hk', hv⟩ | ⟨keyId, hnone, -, hs⟩ := enqueue_ok hk h
    · exact ⟨hk', fun id => .inl (hv id)⟩
    · refine hs.views ?_
      have : db.view env.newJobId = ⟨none, (db.view env.newJobId).attempts, (db.view env.newJobId).events⟩ := by
        simp [JobDb.view, hnone]
      rw [this]; exact .enqueue rfl
  | claim w q lease policy kinds =>
    refine commit_keeps (T := T) hstay fun r db' h => ?_
    obtain ⟨-, rfl⟩ | ⟨row, hrow, hcl, -, hs⟩ := claim_ok hk h
    · exact hstay
    · refine hs.views ?_
      rw [JobDb.view_eq hrow]; exact .claim hcl
  | heartbeat id w lease =>
    refine commit_keeps (T := T) hstay fun r db' h => ?_
    obtain rfl | ⟨row, hrow, hm, hs⟩ := heartbeat_ok hk h
    · exact hstay
    · refine hs.views ?_
      rw [JobDb.view_eq hrow]; exact .heartbeat hm
  | recordProgress site job p c lease =>
    refine commit_keeps (T := T) hstay fun r db' h => ?_
    obtain ⟨-, rfl⟩ | ⟨row, hrow, hm, -, hs⟩ := recordProgress_ok hk h
    · exact hstay
    · refine hs.views ?_
      rw [JobDb.view_eq hrow]; exact .recordProgress rfl hm
  | transition site job new u =>
    refine commit_keeps (T := T) hstay fun r db' h => ?_
    obtain ⟨hup, row, hrow, hm, hs⟩ := transition_ok hk h
    refine hs.views ?_
    rw [JobDb.view_eq hrow]; exact .transition hup rfl hm
  | complete job new rr ec e =>
    refine commit_keeps (T := T) hstay fun r db' h => ?_
    obtain ⟨hup, status, row, seq, hst, hrow, hm, hs⟩ := complete_ok hk hc h
    refine hs.views ?_
    rw [JobDb.view_eq hrow]; exact .complete hup hst rfl hm
  | cancel job reason e =>
    refine commit_keeps (T := T) hstay fun r db' h => ?_
    obtain ⟨hup, row, seq, hrow, hm, hs⟩ := cancel_ok hk hc h
    refine hs.views ?_
    rw [JobDb.view_eq hrow]; exact .cancel hup rfl hm
  | recoverExpired =>
    refine commit_keeps (T := T) hstay fun r db' h => ?_
    obtain ⟨hk', hv, -⟩ := recoverExpired_ok hk h
    exact ⟨hk', hv⟩

end MilpbookLM
