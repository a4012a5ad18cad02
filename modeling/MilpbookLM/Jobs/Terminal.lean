/-
Terminal states and terminal events. Four paths end a job (a completion, a
cancellation, a revoked authorization, the reaper); each of them publishes the
event of its state in the transaction that ends the job, and no path leaves a
terminal state, so the outbox holds one event of every ended job and none of any
other (`Announced`).
-/
import MilpbookLM.Jobs.Runs

namespace MilpbookLM

open Interleave PgJobRepository

/-- The events of a job: that of its state when it has ended, else none. -/
def Announced (v : JobView) : Prop :=
  v.events.map (·.eventType) = (v.row.bind fun row => terminalEventType row.status.state).toList

theorem announced_iff {row as es} (h : row.status.terminal = false) : Announced ⟨some row, as, es⟩ ↔ es = [] := by
  simp [Announced, terminalEventType_eq_none.2 h]

/-- An ended job gets the event of its state. -/
theorem announced_ended {row as es} {e : EventEnvelope} {seq} (hes : es = [])
    (he : terminalEventType row.status.state = some e.eventType) : Announced ⟨some row, as, es ++ [e.row seq]⟩ := by
  simp [Announced, hes, he, EventEnvelope.row]

/-- A record the table lets move is of a job that has not ended. -/
theorem not_terminal_of_cas {now job new u updated row} (h : applyTransition now job new u = .ok updated)
    (hm : casMatches job row = true) : row.status.terminal = false := by
  rw [(casMatches_iff.1 hm).2.1, physicalStatus_terminal]
  exact transitions_terminal (applyTransition_ok h).1

theorem expired_inFlight {now row} (h : expired now row = true) : row.inFlight = true := by
  simp only [expired, Bool.and_eq_true] at h; exact h.1

/-- No job is enqueued as one that has ended. -/
theorem newRow_not_terminal {now id job hash scope key keyId} (hp : (Call.enqueue job hash scope key).Published) :
    (newRow now id job keyId).status.terminal = false := by
  obtain ⟨_, _, _, rfl | ⟨_, hup⟩⟩ := hp
  · rfl
  · simp [newRow, (applyTransition_ok hup).2.2.1, JobState.terminal]

/-- A step keeps the correspondence. -/
theorem Announced.step {env id c v v'} (hp : c.Published) (hn : c.NonTerminal) (h : Announced v)
    (hs : JobStep env id c v v') : Announced v' := by
  cases hs with
  | enqueue =>
    rw [announced_iff (newRow_not_terminal hp)]
    simpa [Announced] using h
  | claim hc =>
    simp only [claimable, Bool.and_eq_true, decide_eq_true_eq] at hc
    rw [announced_iff (by rw [hc.1.1]; rfl)] at h
    rwa [announced_iff rfl]
  | heartbeat | recordProgress => exact h
  | transition hup _ hm =>
    rw [announced_iff (not_terminal_of_cas hup hm)] at h
    rwa [announced_iff ((physicalStatus_terminal _).trans hn)]
  | complete hup hst _ hm =>
    rw [announced_iff (not_terminal_of_cas hup hm)] at h
    obtain ⟨succeeded, _, _, _, rfl, -, rfl⟩ := hp
    refine announced_ended h ?_
    cases succeeded <;> cases hst <;> rfl
  | cancel _ _ hm =>
    rw [announced_iff (cancelMatches_iff.1 hm).2.1] at h
    obtain ⟨_, _, rfl⟩ := hp
    exact announced_ended h rfl
  | expire hexp =>
    rw [announced_iff (JobStatus.inFlight_not_terminal (expired_inFlight hexp))] at h
    exact announced_ended h rfl
  | requeue hexp =>
    rw [announced_iff (JobStatus.inFlight_not_terminal (expired_inFlight hexp))] at h
    rwa [announced_iff rfl]

/-- The job of `mediaRow` as its cancellation leaves it. -/
def cancelledRow : JobRow :=
  finishRow 1 .cancelled
    { mediaRow.record with
      state := .cancelled, revision := 1, cancelReason := some "user_requested"
      cancelledAt := some 1, finishedAt := some 1 }
    mediaRow

def cancelMedia : Call :=
  .cancel mediaRow.record "user_requested" (cancelEnvelope mediaRow.record "user_requested" 1 2)

def cancelledRun : JobRun Unit := emptyRun.calls () [(enqueueMedia, .fixed 0 1), (cancelMedia, .fixed 1 2)]

end MilpbookLM
