/-
The repository against the transition table. A row's logical state is read back
from six statuses and a marker; a transition, a completion, a cancellation and
the reaper go through the table and store what they were allowed. The claim does
not: it looks at the status alone, so it takes parked jobs too
(`claim_skips_table`), and is an edge of the table on queued jobs only.
-/
import MilpbookLM.Jobs.Runs

namespace MilpbookLM

open Interleave PgJobRepository

/-- The operations that move a job between states. -/
def Call.moves : Call → Bool
  | .claim .. | .transition .. | .complete .. | .cancel .. | .recoverExpired => true
  | _ => false

def Call.isClaim : Call → Bool
  | .claim .. => true
  | _ => false

theorem leased_mem_transitions {s : JobState} : .leased ∈ transitions s ↔ s = .queued := by
  cases s <;> simp [transitions]

namespace JobRow

variable {row : JobRow}

theorem logicalState_leaseRow {now w lease} : (leaseRow now w lease row).logicalState = .leased := rfl

theorem logicalState_transitionRow {now now' job new u updated} (h : applyTransition now job new u = .ok updated) :
    (transitionRow now' new updated row).logicalState = new := by
  obtain ⟨-, -, -, -, -, -, -, -, hw⟩ := applyTransition_ok h
  rw [@logicalState_of_packed _ updated rfl, hw]
  exact unpackLogicalState_physicalStatus new

theorem logicalState_finishRow {now status updated} (h : status ≠ .queued) :
    (finishRow now status updated row).logicalState = status.state :=
  unpackLogicalState_of_ne h _

theorem logicalState_requeueRow {now now' job u updated} (h : applyTransition now job .queued u = .ok updated) :
    (requeueRow now' updated row).logicalState = .queued := by
  obtain ⟨-, -, -, -, -, -, -, -, hw⟩ := applyTransition_ok h
  rw [@logicalState_of_packed _ updated rfl, hw]; rfl

/-- A record at the row's revision has the row's state. -/
theorem logicalState_of_cas {job} (h : ReadFrom row job) (hm : casMatches job row = true) :
    row.logicalState = job.state :=
  (h.state (casMatches_iff.1 hm).2.2.symm).symm

end JobRow

/-- One operation on one job, called with a record read from it. -/
theorem JobStep.edge {env id c row as es row' as' es'} (hs : JobStep env id c ⟨some row, as, es⟩ ⟨some row', as', es'⟩)
    (hc : c.moves = true) (hp : c.Published) (hread : ∀ job ∈ c.records, job.id = id → ReadFrom row job) :
    row'.logicalState ∈ transitions row.logicalState ↔ (c.isClaim = true → row.logicalState = .queued) := by
  cases hs with
  | claim => simp [JobRow.logicalState_leaseRow, leased_mem_transitions, Call.isClaim]
  | heartbeat => cases hc
  | recordProgress => cases hc
  | @transition _ job _ _ _ _ _ _ hup hid hm =>
    have hst := JobRow.logicalState_of_cas (hread job (by simp [Call.records]) hid) hm
    simp [JobRow.logicalState_transitionRow hup, hst, (applyTransition_ok hup).1, Call.isClaim]
  | @complete job _ _ _ _ updated status _ _ _ _ hup hstatus hid hm =>
    have hst := JobRow.logicalState_of_cas (hread job (by simp [Call.records]) hid) hm
    obtain ⟨succeeded, _, _, _, rfl, -, -⟩ := hp
    have hend : (finishRow env.now status updated row).logicalState = completionState succeeded := by
      cases succeeded <;> cases hstatus <;> rfl
    simp [hend, hst, (applyTransition_ok hup).1, Call.isClaim]
  | cancel _ _ hm =>
    have hst : row.logicalState.terminal = false := by
      rw [← physicalStatus_terminal, JobRow.physicalStatus_logicalState]
      exact (cancelMatches_iff.1 hm).2.1
    simp [JobRow.logicalState_finishRow, JobStatus.state, cancelled_mem_transitions hst, Call.isClaim]
  | expire _ _ hup =>
    have := (applyTransition_ok hup).1
    rw [JobRow.record_state] at this
    simp [JobRow.logicalState_finishRow, JobStatus.state, this, Call.isClaim]
  | requeue _ _ hup =>
    have := (applyTransition_ok hup).1
    rw [JobRow.record_state] at this
    simp [JobRow.logicalState_requeueRow hup, this, Call.isClaim]

/-- Called with records read before. -/
def Recorded {P : Type} (c : Call) (r : JobRun P) : Prop := c.Published ∧ ∀ job ∈ c.records, Known r job

/-- **An operation that changes a job moves it along an edge of the table,
unless it is a claim of a job that is parked.** -/
theorem refines_transitions {P : Type} {r : JobRun P} (h : JobRuns (fun _ c _ r => Recorded c r) r) {c env}
    (hc : c.moves = true) (hr : Recorded c r) {id row row'} (hrow : r.shared.job? id = some row)
    (hrow' : (exec env c r.shared).2.job? id = some row') (hne : row' ≠ row) :
    row'.logicalState ∈ transitions row.logicalState ↔ (c.isClaim = true → row.logicalState = .queued) := by
  have haddr : ∀ (_ : P) (c : Call) (_ : Env) (r : JobRun P), Recorded c r → c.Addressed :=
    fun _ _ _ _ h => h.1.addressed
  rcases (exec_view env (runs_keyed haddr h) hr.1.addressed).2 id with he | hs
  · have := congrArg JobView.row he
    simp only [JobDb.view_row, hrow, hrow', Option.some.injEq] at this
    exact absurd this hne
  · rw [JobDb.view_eq hrow, JobDb.view_eq hrow'] at hs
    refine hs.edge hc hr.1 fun job hjob hid => ?_
    obtain ⟨row₀, hrow₀, hread⟩ := runs_known (fun _ _ _ _ h => h) h (hr.2 job hjob)
    rw [hid, hrow] at hrow₀
    cases hrow₀; exact hread

/-- A queued job is leased along an edge of the table. -/
theorem refines_transitions_claim :
    (leaseRow 1 "w1" 60 mediaRow).logicalState ∈ transitions mediaRow.logicalState ↔
      (claimMedia.isClaim = true → mediaRow.logicalState = .queued) :=
  @refines_transitions Unit mediaRun
    (runs_call runs_empty _ _ ⟨published_enqueueMedia, by simp [Call.records, enqueueMedia]⟩)
    claimMedia (.fixed 1 2) rfl ⟨trivial, by simp [Call.records, claimMedia]⟩ 1 mediaRow _ rfl rfl
    (fun he => by cases congrArg JobRow.attempts he)

/-- The record `EnqueueJob` parks when the class is saturated. -/
def parkedMedia : JobRecord :=
  { queuedMedia with state := .waitingCapacity, revision := 1, waitingReason := some "capacity" }

def parkedRun : JobRun Unit := emptyRun.calls () [(.enqueue parkedMedia "{}" none none, .fixed 0 1)]

theorem runs_parkedRun : JobRuns (fun _ c _ r => Recorded c r) parkedRun :=
  runs_call runs_empty _ _ ⟨⟨plainHashing, mediaRequest, 1, .inr ⟨0, rfl⟩⟩, by simp [Call.records]⟩

/-- A job parked as waiting_capacity is leased without returning to queued. -/
theorem claim_skips_table :
    ¬ ∀ r : JobRun Unit, JobRuns (fun _ c _ r => Recorded c r) r → ∀ c env, c.moves = true → Recorded c r →
      ∀ id row row', r.shared.job? id = some row → (exec env c r.shared).2.job? id = some row' → row' ≠ row →
        row'.logicalState ∈ transitions row.logicalState := by
  intro h
  have hedge := h parkedRun runs_parkedRun claimMedia (.fixed 1 2) rfl ⟨trivial, by simp [Call.records, claimMedia]⟩ 1
    (newRow 0 1 parkedMedia none) (leaseRow 1 "w1" 60 (newRow 0 1 parkedMedia none)) rfl rfl
    (fun he => by cases congrArg JobRow.attempts he)
  exact absurd hedge (by decide)

end MilpbookLM
