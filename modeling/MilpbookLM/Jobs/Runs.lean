/-
Runs of the repository: any calls in any order, from empty tables.

`runs_view` turns what a call does to one job into an invariant of every job in
every run. `runs_known` is the invariant of the records the calls have answered:
each is still a record of its row, at the row's revision or at an earlier one.
-/
import MilpbookLM.Jobs.JobStep
import MilpbookLM.Jobs.UseCases

namespace MilpbookLM

open Interleave PgJobRepository

/-! ## How the repository is called -/

/-- The records a call passes to the repository. -/
def Call.records : Call → List JobRecord
  | .recordProgress _ job _ _ _ => [job]
  | .transition _ job _ _ => [job]
  | .complete job _ _ _ _ => [job]
  | .cancel job _ _ => [job]
  | _ => []

/-- The records an answer holds. -/
def answered : (c : Call) → Answer c → List JobRecord
  | .enqueue .., .ok (job, _) => [job]
  | .get .., .ok (some job) => [job]
  | .claim .., .ok (some job) => [job]
  | .recordProgress .., .ok (some job) => [job]
  | .transition .., .ok job => [job]
  | .complete .., .ok job => [job]
  | .cancel .., .ok job => [job]
  | .recoverExpired, .ok jobs => jobs
  | .runningJobs _, .ok jobs => jobs
  | _, _ => []

/-- A job is enqueued as `EnqueueJob` builds it, and a terminal state is
published with the envelope of its use case. -/
def Call.Published : Call → Prop
  | .enqueue job _ _ _ => ∃ h r id, job = EnqueueRequest.job h r id ∨
      ∃ now, applyTransition now (EnqueueRequest.job h r id) .waitingCapacity {} = .ok job
  | .complete job new rr ec e => ∃ succeeded now eventId final, new = completionState succeeded ∧
      applyTransition now job new { resultRef := some rr, errorCode := some ec } = .ok final ∧
      e = completeEnvelope job final succeeded now eventId
  | .cancel job reason e => ∃ now eventId, e = cancelEnvelope job reason now eventId
  | _ => True

/-- `transition` makes a non-terminal transition. -/
def Call.NonTerminal : Call → Prop
  | .transition _ _ new _ => new.terminal = false
  | _ => True

theorem Call.Published.addressed {c : Call} (h : c.Published) : c.Addressed := by
  cases c with
  | complete => obtain ⟨_, _, _, _, -, -, rfl⟩ := h; rfl
  | cancel => obtain ⟨_, _, rfl⟩ := h; rfl
  | _ => trivial

section Runs

variable {P : Type}

abbrev JobRun (P : Type) := Run P Call Answer JobDb

/-- The runs from empty tables whose calls all meet `cond`. -/
abbrev JobRuns (cond : P → Call → Env → JobRun P → Prop) : JobRun P → Prop :=
  Runs (fun c env => exec env c) (· = {}) cond

/-- A record some call has answered. -/
def Known (r : JobRun P) (job : JobRecord) : Prop := ∃ ev ∈ r.trace, job ∈ answered ev.call ev.answer

variable {cond : P → Call → Env → JobRun P → Prop} {r : JobRun P}

/-! ## Invariants of every job -/

theorem runs_keyed (hc : ∀ p c env r, cond p c env r → c.Addressed) (h : JobRuns cond r) : r.shared.Keyed := by
  refine Reach.invariant (I := fun r => r.shared.Keyed) ?_ ?_ h
  · rintro r ⟨h, -⟩; rw [h]; exact List.nodup_nil
  · rintro r r' - hk ⟨p, c, env, hcond⟩
    exact (exec_view env hk (hc _ _ _ _ hcond)).1

/-- **What every step of a job keeps holds of every job in every run.** -/
theorem runs_view (hc : ∀ p c env r, cond p c env r → c.Addressed) {I : JobView → Prop} (h0 : I ⟨none, [], []⟩)
    (hstep : ∀ p c env r id v, cond p c env r → I (r.shared.view id) →
      JobStep env id c (r.shared.view id) v → I v)
    (h : JobRuns cond r) (id : Uuid) : I (r.shared.view id) := by
  refine Reach.invariant (I := fun r => ∀ id, I (r.shared.view id)) ?_ ?_ h id
  · rintro r ⟨h, -⟩ id; rw [h]; exact h0
  · rintro r r' hr hi ⟨p, c, env, hcond⟩ id
    rcases (exec_view env (runs_keyed hc hr) (hc _ _ _ _ hcond)).2 id with he | hs
    · simpa only [Run.call_shared, he] using hi id
    · exact hstep p c env r id _ hcond (hi id) hs

/-! ## The records answered -/

/-- A row after a step: a later revision, or nothing changed that a record shows. -/
theorem JobStep.later {env id c row as es v} (h : JobStep env id c ⟨some row, as, es⟩ v) :
    ∃ row', v.row = some row' ∧ row'.id = row.id ∧ (row.revision < row'.revision ∨
      row'.revision = row.revision ∧ row'.logicalState = row.logicalState ∧
        row'.checkpoint = row.checkpoint ∧ row'.inFlight = row.inFlight ∧ row'.leaseOwner = row.leaseOwner) := by
  cases h with
  | heartbeat => exact ⟨_, rfl, rfl, .inr ⟨rfl, rfl, rfl, rfl, rfl⟩⟩
  | _ => exact ⟨_, rfl, rfl, .inl (Nat.lt_succ_self _)⟩

/-- A progress write keeps a record what it was, one revision on. -/
theorem readFrom_progressed {now lease row job p c} (h : ReadFrom row job)
    (hm : ownerMatches job.id job.leaseOwner row = true) :
    ReadFrom (progressRow now lease (progressed job p c) row) (progressed job p c) := by
  obtain ⟨-, ⟨howner, -⟩, hf⟩ := ownerMatches_iff.1 hm
  have hq : row.status ≠ .queued := by intro hq; simp [JobRow.inFlight, hq, JobStatus.inFlight] at hf
  refine ⟨h.id, Nat.succ_le_succ h.revision, fun he => ?_, fun _ => ?_, fun _ _ => howner.symm⟩
  · have hst := h.state (Nat.succ.inj he)
    rw [JobRow.logicalState, unpackLogicalState_of_ne hq] at hst
    exact hst.trans (unpackLogicalState_of_ne hq _).symm
  · exact (JobRow.checkpoint_of_packed rfl).symm

/-- What a call answers are records of the rows it leaves. -/
theorem exec_answered {env c} {db : JobDb} (hk : db.Keyed) (hc : c.Published)
    (hargs : ∀ job ∈ c.records, ∃ row, db.job? job.id = some row ∧ ReadFrom row job) {job}
    (hjob : job ∈ answered c (exec env c db).1) :
    ∃ row, (exec env c db).2.job? job.id = some row ∧ ReadFrom row job := by
  cases c with
  | heartbeat | inFlight | inFlightForUser | revalidate | stamp | observe => simp [answered] at hjob
  | enqueue j hash scope key =>
    rcases hx : enqueue env j hash scope key db with e | ⟨⟨r, created⟩, db'⟩
    · simp [exec, commit, answered, hx] at hjob
    simp only [exec, commit, answered, hx, List.mem_singleton] at hjob ⊢
    obtain ⟨row, hmem, he, hk', hv⟩ | ⟨keyId, -, he, hs⟩ := enqueue_ok hk hx
    · cases he; subst hjob
      refine ⟨row, ?_, readFrom_record row⟩
      rw [← JobDb.view_row, hv, JobRow.record_id]
      exact Table.lookup_of_mem hk hmem
    · cases he; subst hjob
      refine ⟨_, ?_, readFrom_record _⟩
      rw [← JobDb.view_row, JobRow.record_id]
      exact congrArg JobView.row hs.here
  | get site id =>
    rcases hx : PgJobRepository.get id db with e | _ | r
    · simp [exec, answered, hx] at hjob
    · simp [exec, answered, hx] at hjob
    · simp only [exec, answered, hx, List.mem_singleton] at hjob ⊢
      obtain ⟨h, -⟩ | ⟨row, hrow, he⟩ := get_ok hx
      · cases h
      · cases he; subst hjob
        exact ⟨row, by rwa [JobRow.record_id, JobDb.job?_id hrow], readFrom_record row⟩
  | claim w q lease policy kinds =>
    rcases hx : claim env w q lease policy kinds db with e | ⟨_ | r, db'⟩
    · simp [exec, commit, answered, hx] at hjob
    · simp [exec, commit, answered, hx] at hjob
    simp only [exec, commit, answered, hx, List.mem_singleton] at hjob ⊢
    obtain ⟨h, -⟩ | ⟨row, hrow, -, he, hs⟩ := claim_ok hk hx
    · cases h
    · cases he; subst hjob
      refine ⟨_, ?_, readFrom_record _⟩
      rw [← JobDb.view_row, JobRow.record_id]
      exact congrArg JobView.row hs.here
  | recordProgress site j p ck lease =>
    rcases hx : recordProgress env.now j p ck lease db with e | ⟨_ | r, db'⟩
    · simp [exec, commit, answered, hx] at hjob
    · simp [exec, commit, answered, hx] at hjob
    simp only [exec, commit, answered, hx, List.mem_singleton] at hjob ⊢
    obtain ⟨h, -⟩ | ⟨row, hrow, hm, he, hs⟩ := recordProgress_ok hk hx
    · cases h
    · cases he; subst hjob
      refine ⟨_, congrArg JobView.row hs.here, ?_⟩
      obtain ⟨row₀, hrow₀, hread⟩ := hargs j (by simp [Call.records])
      obtain rfl : row₀ = row := Option.some.inj (hrow₀.symm.trans hrow)
      exact readFrom_progressed hread hm
  | transition site j new u =>
    rcases hx : transition env j new u db with e | ⟨r, db'⟩
    · simp [exec, commit, answered, hx] at hjob
    simp only [exec, commit, answered, hx, List.mem_singleton] at hjob ⊢
    subst hjob
    obtain ⟨hup, row, hrow, hm, hs⟩ := transition_ok hk hx
    obtain ⟨hid, -, hrev⟩ := casMatches_iff.1 hm
    obtain ⟨-, hid', -, hrev', -⟩ := applyTransition_ok hup
    refine ⟨_, hid' ▸ congrArg JobView.row hs.here, readFrom_moved hup ?_ ?_ rfl rfl fun hf => ?_⟩
    · simp [hid, hid']
    · simp [hrev, hrev', transitionRow]
    · cases new <;> simp [JobRow.inFlight, transitionRow, JobStatus.inFlight, physicalStatus, JobState.pending] at hf ⊢
  | complete j new rr ec e =>
    rcases hx : complete env j new rr ec e db with e | ⟨r, db'⟩
    · simp [exec, commit, answered, hx] at hjob
    simp only [exec, commit, answered, hx, List.mem_singleton] at hjob ⊢
    subst hjob
    obtain ⟨hup, status, row, seq, hst, hrow, hm, hs⟩ := complete_ok hk hc.addressed hx
    obtain ⟨hid, -, hrev⟩ := casMatches_iff.1 hm
    obtain ⟨-, hid', -, hrev', -⟩ := applyTransition_ok hup
    obtain ⟨succeeded, _, _, _, rfl, -, -⟩ := hc
    have hst : status = physicalStatus (completionState succeeded) := by
      cases succeeded <;> cases hst <;> rfl
    refine ⟨_, hid' ▸ congrArg JobView.row hs.here, readFrom_moved hup ?_ ?_ rfl hst fun hf => ?_⟩
    · simp [hid, hid']
    · simp [hrev, hrev', finishRow]
    · subst hst; cases succeeded <;> cases hf
  | cancel j reason e =>
    rcases hx : cancel env j reason e db with e | ⟨r, db'⟩
    · simp [exec, commit, answered, hx] at hjob
    simp only [exec, commit, answered, hx, List.mem_singleton] at hjob ⊢
    subst hjob
    obtain ⟨hup, row, seq, hrow, hm, hs⟩ := cancel_ok hk hc.addressed hx
    obtain ⟨hid, -, hrev⟩ := cancelMatches_iff.1 hm
    obtain ⟨-, hid', -, hrev', -⟩ := applyTransition_ok hup
    refine ⟨_, hid' ▸ congrArg JobView.row hs.here, readFrom_moved hup ?_ ?_ rfl rfl (fun hf => by cases hf)⟩
    · simp [hid, hid']
    · simp [hrev, hrev', finishRow]
  | recoverExpired =>
    rcases hx : recoverExpired env db with e | ⟨r, db'⟩
    · simp [exec, commit, answered, hx] at hjob
    simp only [exec, commit, answered, hx] at hjob ⊢
    exact (recoverExpired_ok hk hx).2.2 job hjob
  | runningJobs q =>
    simp only [exec, runningJobs, JobRow.mapM_jobFromRow, answered, List.mem_map] at hjob ⊢
    obtain ⟨row, hrow, rfl⟩ := hjob
    have hmem := (List.mem_filter.1 ((List.perm_insertionSort _ _).subset hrow)).1
    exact ⟨row, by rw [JobRow.record_id]; exact Table.lookup_of_mem hk hmem, readFrom_record row⟩

/-- **The records answered in a run are records of their rows.** -/
theorem runs_known (hc : ∀ p c env r, cond p c env r → c.Published ∧ ∀ job ∈ c.records, Known r job)
    (h : JobRuns cond r) {job} (hjob : Known r job) :
    ∃ row, r.shared.job? job.id = some row ∧ ReadFrom row job := by
  have haddr : ∀ p c env r, cond p c env r → c.Addressed := fun p c env r h => (hc p c env r h).1.addressed
  refine Reach.invariant (I := fun r => ∀ job, Known r job → ∃ row, r.shared.job? job.id = some row ∧ ReadFrom row job)
    ?_ ?_ h job hjob
  · rintro r ⟨-, h⟩ job ⟨ev, hev, -⟩
    simp [h] at hev
  · rintro r r' hr hi ⟨p, c, env, hcond⟩ job ⟨ev, hev, hjob⟩
    have hk := runs_keyed haddr hr
    rcases List.mem_cons.1 hev with rfl | hev
    · exact exec_answered hk (hc p c env r hcond).1 (fun job hjob => hi job ((hc p c env r hcond).2 job hjob)) hjob
    · obtain ⟨row, hrow, hread⟩ := hi job ⟨ev, hev, hjob⟩
      rcases (exec_view env hk (haddr p c env r hcond)).2 job.id with he | hs
      · exact ⟨row, by rw [Run.call_shared, ← JobDb.view_row, he]; exact hrow, hread⟩
      · rw [JobDb.view_eq hrow] at hs
        obtain ⟨row', hrow', hid, hlater⟩ := hs.later
        exact ⟨row', hrow', hread.later hid hlater⟩

/-- Calls with what the environment decides of each, one after another. -/
def JobRun.calls (r : JobRun P) (p : P) : List (Call × Env) → JobRun P :=
  List.foldl (fun r ce => r.call (fun c env => exec env c) p ce.1 ce.2) r

theorem runs_call (h : JobRuns cond r) {p} (c : Call) (env : Env) (hc : cond p c env r) :
    JobRuns cond (r.calls p [(c, env)]) :=
  .next h (.call p c env hc)

end Runs

/-- Nothing called yet. -/
def emptyRun : JobRun Unit := ⟨{}, []⟩

theorem runs_empty {cond : Unit → Call → Env → JobRun Unit → Prop} : JobRuns cond emptyRun := .start ⟨rfl, rfl⟩

/-- The environment of a run on fixed inputs: both clocks at `t`, `n` the next id. -/
def Env.fixed (t : Time) (n : Uuid) : Env := ⟨t, t, n, n, fun _ => n, .ranked (fun _ => false) (fun _ => true), 1⟩

/-- A request on fixed inputs, the record `EnqueueJob` makes of it, its row. -/
def mediaRequest : EnqueueRequest where
  kind := "render"
  payload := []
  actor := { userId := 7 }
  capacityClass := .media

def plainHashing : Hashing := ⟨fun _ => "{}", id⟩

def queuedMedia : JobRecord := mediaRequest.job plainHashing 1

def enqueueMedia : Call := .enqueue queuedMedia "{}" none none

theorem published_enqueueMedia : enqueueMedia.Published := ⟨plainHashing, mediaRequest, 1, .inl rfl⟩

def mediaRow : JobRow := newRow 0 1 queuedMedia none

def claimMedia : Call := .claim "w1" .media 60 defaultCapacityPolicy ["render"]

def mediaRun : JobRun Unit := emptyRun.calls () [(enqueueMedia, .fixed 0 1)]

/-- The first job, as a worker reads it. -/
def JobRun.first (r : JobRun Unit) : JobRecord :=
  match r.shared.jobs with
  | row :: _ => row.record
  | [] => queuedMedia

end MilpbookLM
