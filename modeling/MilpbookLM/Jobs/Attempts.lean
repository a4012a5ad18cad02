/-
Attempts: the counter of a job against its bound, and the ledger of its attempts
against the counter.

A claim counts an attempt and opens its row; only the reaper compares the counter
with the bound, and only the ways to a terminal state close the row. So both
properties hinge on the ways back to the queue: a transition that parks a job in
flight (`Call.parks`) and the reaper's requeue.
-/
import MilpbookLM.Jobs.Terminal

namespace MilpbookLM

open Interleave PgJobRepository

/-- The call is a transition that takes `row` from in flight back to the queue. -/
def Call.parks (env : Env) (c : Call) (row : JobRow) : Prop :=
  match c with
  | .transition _ job new u => casMatches job row = true ∧ row.inFlight = true ∧
      physicalStatus new = .queued ∧ ∃ updated, applyTransition env.clock job new u = .ok updated
  | _ => False

/-- The call is a pass of the reaper that takes `row` back to the queue. -/
def Call.requeues (env : Env) (c : Call) (row : JobRow) : Prop :=
  match c with
  | .recoverExpired => expired env.now row = true ∧ row.attempts < row.maxAttempts
  | _ => False

/-- Three kinds of status: queued, in flight, ended. -/
theorem JobStatus.queued_of {s : JobStatus} (hf : s.inFlight ≠ true) (hend : s.terminal = false) : s = .queued := by
  cases s <;> first | rfl | exact absurd rfl hf | cases hend

/-! ## The counter -/

/-- Attempts within the bound, one left when the job may be claimed. -/
def Bounded (v : JobView) : Prop :=
  ∀ row, v.row = some row → row.attempts ≤ row.maxAttempts ∧ (row.status = .queued → row.attempts < row.maxAttempts)

theorem bounded_some {row as es} : Bounded ⟨some row, as, es⟩ ↔
    row.attempts ≤ row.maxAttempts ∧ (row.status = .queued → row.attempts < row.maxAttempts) := by
  simp [Bounded]

theorem Bounded.step {env id c v v'} (hp : c.Published)
    (hpark : ∀ row, v.row = some row → c.parks env row → row.attempts < row.maxAttempts) (h : Bounded v)
    (hs : JobStep env id c v v') : Bounded v' := by
  cases hs with
  | enqueue => simp [bounded_some, newRow]
  | claim hc =>
    rw [bounded_some] at h ⊢
    simp only [claimable, Bool.and_eq_true, decide_eq_true_eq] at hc
    exact ⟨h.2 hc.1.1, fun hq => by cases hq⟩
  | heartbeat | recordProgress =>
    rw [bounded_some] at h ⊢
    exact h
  | @transition _ _ new _ _ row _ _ hup _ hm =>
    rw [bounded_some] at h ⊢
    refine ⟨h.1, fun hq => ?_⟩
    by_cases hf : row.inFlight = true
    · exact hpark row rfl ⟨hm, hf, hq, _, hup⟩
    · exact h.2 (JobStatus.queued_of hf (not_terminal_of_cas hup hm))
  | complete _ hst =>
    obtain ⟨succeeded, _, _, _, rfl, -, -⟩ := hp
    rw [bounded_some] at h ⊢
    exact ⟨h.1, fun hq => by cases hq; cases succeeded <;> cases hst⟩
  | cancel | expire =>
    rw [bounded_some] at h ⊢
    exact ⟨h.1, fun hq => by cases hq⟩
  | requeue _ hleft => exact bounded_some.2 ⟨hleft.le, fun _ => hleft⟩

/-- **Attempts stay within the bound in every run that parks no job whose attempts are spent.** -/
theorem attempts_le_maxAttempts {P : Type} {r : JobRun P}
    (h : JobRuns (fun _ c env r => c.Published ∧
      ∀ row ∈ r.shared.jobs, c.parks env row → row.attempts < row.maxAttempts) r) {row}
    (hrow : row ∈ r.shared.jobs) : row.attempts ≤ row.maxAttempts := by
  have haddr : ∀ (_ : P) (c : Call) (env : Env) (r : JobRun P), (c.Published ∧
      ∀ row ∈ r.shared.jobs, c.parks env row → row.attempts < row.maxAttempts) → c.Addressed :=
    fun _ _ _ _ h => h.1.addressed
  have hb : Bounded (r.shared.view row.id) :=
    runs_view (I := Bounded) haddr (fun _ hn => by cases hn)
      (fun _ _ _ _ _ _ hc hi hs => hi.step hc.1 (fun row hr => hc.2 row (Table.lookup_some hr).1) hs) h row.id
  exact (hb row (Table.lookup_of_mem (runs_keyed haddr h) hrow)).1

/-- One claim of a queued job keeps its attempts within the bound. -/
theorem attempts_le_maxAttempts_claim :
    (leaseRow 1 "w1" 60 mediaRow).attempts ≤ (leaseRow 1 "w1" 60 mediaRow).maxAttempts :=
  attempts_le_maxAttempts (P := Unit) (r := mediaRun.calls () [(claimMedia, .fixed 1 2)])
    (runs_call (runs_call runs_empty enqueueMedia _ ⟨published_enqueueMedia, fun _ _ h => h.elim⟩)
      claimMedia _ ⟨trivial, fun _ _ h => h.elim⟩)
    (List.mem_singleton.2 rfl)

def dispatchFirst (r : JobRun Unit) : Call := .transition .dispatch r.first .running {}

def parkFirst (r : JobRun Unit) : Call :=
  .transition .park r.first .waitingCapacity { leaseOwner := some none, leaseExpiresAt := some none }

/-- The calls of one preemption: the job is claimed, started and parked. -/
def claimAndPark (t : Time) (r : JobRun Unit) : JobRun Unit :=
  let leased := r.calls () [(claimMedia, .fixed t 2)]
  let running := leased.calls () [(dispatchFirst leased, .fixed t 2)]
  running.calls () [(parkFirst running, .fixed t 2)]

theorem runs_claimAndPark {t r} (h : JobRuns (fun (_ : Unit) c _ _ => c.Published ∧ c.NonTerminal) r) :
    JobRuns (fun (_ : Unit) c _ _ => c.Published ∧ c.NonTerminal) (claimAndPark t r) :=
  runs_call (runs_call (runs_call h claimMedia _ ⟨trivial, trivial⟩) (dispatchFirst _) _ ⟨trivial, rfl⟩)
    (parkFirst _) _ ⟨trivial, rfl⟩

/-- A job preempted three times is claimed a fourth time; its bound is three. -/
theorem attempts_exceed_maxAttempts :
    ¬ ∀ r : JobRun Unit, JobRuns (fun _ c _ _ => c.Published ∧ c.NonTerminal) r →
      ∀ row ∈ r.shared.jobs, row.attempts ≤ row.maxAttempts := by
  intro h
  have hle := h ((claimAndPark 3 (claimAndPark 2 (claimAndPark 1 mediaRun))).calls () [(claimMedia, .fixed 4 2)])
    (runs_call (runs_claimAndPark (runs_claimAndPark (runs_claimAndPark
      (runs_call runs_empty enqueueMedia _ ⟨published_enqueueMedia, trivial⟩)))) claimMedia _ ⟨trivial, trivial⟩)
  exact absurd hle (by decide +kernel)

/-! ## The ledger -/

theorem maxNumber_range {attempts : List JobAttempt} {n}
    (h : attempts.map (·.attemptNumber) = List.range' 1 n) : maxNumber attempts = n := by
  rw [maxNumber, h]
  clear h
  induction n with
  | zero => rfl
  | succ n ih =>
    rw [List.range'_concat, List.foldl_append, ih]
    simp only [List.foldl_cons, List.foldl_nil]
    omega

/-- Attempts numbered from 1 up to the counter; the last one is open, and only
while the job is in flight. A queued job has made no attempt. -/
structure Ledger (row : JobRow) (attempts : List JobAttempt) : Prop where
  numbers : attempts.map (·.attemptNumber) = List.range' 1 row.attempts
  running : ∀ a ∈ attempts, a.outcome = .running ↔ a.attemptNumber = row.attempts ∧ row.inFlight = true
  queued : row.status = .queued → row.attempts = 0

def Ledgered (v : JobView) : Prop :=
  match v.row with
  | some row => Ledger row v.attempts
  | none => v.attempts = []

theorem Ledger.nil {row} (h : row.attempts = 0) : Ledger row [] := ⟨by simp [h], by simp, fun _ => h⟩

theorem Ledger.eq_nil {row as} (h : Ledger row as) (h0 : row.attempts = 0) : as = [] := by
  have := h.numbers
  simpa [h0] using this

/-- A row with the same counter, as much in flight as before. -/
theorem Ledger.keep {row row' as} (h : Ledger row as) (ha : row'.attempts = row.attempts)
    (hf : row'.inFlight = row.inFlight) (hq : row'.status = .queued → row.status = .queued) : Ledger row' as :=
  ⟨ha ▸ h.numbers, fun a hmem => by rw [ha, hf]; exact h.running a hmem, fun h' => ha ▸ h.queued (hq h')⟩

theorem AttemptOutcome.ofState?_terminal {s : JobState} (h : s.terminal = true) :
    ∃ o, ofState? s = some o ∧ o ≠ .running := by
  cases s <;> first | cases h; done | exact ⟨_, rfl, by simp⟩

/-- Ending a job closes its last attempt. -/
theorem Ledgered.close {row row' as es es' now outcome} (h : Ledgered ⟨some row, as, es⟩)
    (ha : row'.attempts = row.attempts) (ho : outcome.terminal = true) (hend : row'.status.terminal = true) :
    Ledgered ⟨some row', closeLast now outcome as, es'⟩ := by
  have h : Ledger row as := h
  change Ledger row' (closeLast now outcome as)
  obtain ⟨o, ho, hne⟩ := AttemptOutcome.ofState?_terminal ho
  have hf : row'.inFlight = false := by
    unfold JobRow.inFlight; revert hend; cases row'.status <;> simp [JobStatus.terminal, JobStatus.inFlight,
      JobStatus.state, JobState.terminal]
  simp only [closeLast, ho, maxNumber_range h.numbers]
  refine ⟨?_, fun a hmem => ?_, fun hq => ?_⟩
  · rw [ha, ← h.numbers, Table.update, List.map_map]
    exact List.map_congr_left fun a _ => by simp only [Function.comp]; split <;> rfl
  · obtain ⟨b, hb, rfl⟩ := List.mem_map.1 hmem
    simp only [hf, Bool.false_eq_true, and_false, iff_false]
    split
    next => exact hne
    next hlast => exact fun hr => hlast (by simpa using ((h.running b hb).1 hr).1)
  · rw [hq] at hend; cases hend

/-- A claim opens the next attempt. -/
theorem Ledger.claim {row as now w lease id} (h : Ledger row as) (hq : row.status = .queued) :
    Ledger (leaseRow now w lease row) (as ++ [⟨id, maxNumber as + 1, some w, .running, none⟩]) := by
  rw [maxNumber_range h.numbers]
  refine ⟨?_, fun a hmem => ?_, fun hq' => by cases hq'⟩
  · simp only [List.map_append, h.numbers, List.map_cons, List.map_nil, leaseRow, List.range'_concat]
    rw [Nat.one_mul, Nat.add_comm]
  · rcases List.mem_append.1 hmem with hmem | hmem
    · have hno : a.outcome ≠ .running := fun hr => by
        have := ((h.running a hmem).1 hr).2
        rw [JobRow.inFlight, hq] at this; cases this
      have hle : a.attemptNumber ≤ row.attempts := by
        have := List.mem_map_of_mem (f := (·.attemptNumber)) hmem
        rw [h.numbers, List.mem_range'_1] at this
        omega
      have hne : a.attemptNumber ≠ (leaseRow now w lease row).attempts := by simp only [leaseRow]; omega
      simp [hno, hne]
    · simp [List.mem_singleton.1 hmem, leaseRow, JobRow.inFlight, JobStatus.inFlight]

theorem Ledgered.step {env id c v v'} (hp : c.Published) (hn : c.NonTerminal)
    (hback : ∀ row, v.row = some row → c.parks env row ∨ c.requeues env row → row.attempts = 0) (h : Ledgered v)
    (hs : JobStep env id c v v') : Ledgered v' := by
  cases hs with
  | enqueue =>
    obtain rfl := h
    exact .nil rfl
  | claim hc =>
    simp only [claimable, Bool.and_eq_true, decide_eq_true_eq] at hc
    exact Ledger.claim h hc.1.1
  | heartbeat | recordProgress => exact Ledger.keep h rfl rfl fun hq => hq
  | @transition _ _ new _ updated row as _ hup _ hm =>
    have hl : Ledger row as := h
    change Ledger _ as
    have hnil : row.attempts = 0 → Ledger (transitionRow env.now new updated row) as := fun h0 => by
      rw [hl.eq_nil h0]; exact .nil h0
    by_cases hf : row.inFlight = true
    · by_cases hq : physicalStatus new = .queued
      · exact hnil (hback row rfl (.inl ⟨hm, hf, hq, _, hup⟩))
      · have hf' : (physicalStatus new).inFlight = true := by
          by_contra hf'
          exact hq (JobStatus.queued_of hf' ((physicalStatus_terminal new).trans hn))
        exact hl.keep rfl (hf'.trans hf.symm) fun hq' => absurd hq' hq
    · exact hnil (hl.queued (JobStatus.queued_of hf (not_terminal_of_cas hup hm)))
  | complete _ hst =>
    obtain ⟨succeeded, _, _, _, rfl, -, -⟩ := hp
    cases succeeded <;> cases hst <;> exact Ledgered.close h rfl rfl rfl
  | cancel | expire => exact Ledgered.close h rfl rfl rfl
  | @requeue _ row as _ hexp hleft =>
    have h0 : row.attempts = 0 := hback row rfl (.inr ⟨hexp, hleft⟩)
    have hl : Ledger row as := h
    change Ledger _ as
    rw [hl.eq_nil h0]
    exact .nil h0

/-- The attempts of `row` are numbered 1 to its counter, and one of them is open
if and only if it is the highest-numbered one and the job is in flight. -/
def LedgerMatches (db : JobDb) (row : JobRow) : Prop :=
  (db.jobAttempts.filter (·.jobId = row.id)).map (·.attemptNumber) = List.range' 1 row.attempts ∧
    ∀ a ∈ db.jobAttempts, a.jobId = row.id → (a.outcome = .running ↔
      (∀ b ∈ db.jobAttempts, b.jobId = row.id → b.attemptNumber ≤ a.attemptNumber) ∧ row.inFlight = true)

instance {db row} : Decidable (LedgerMatches db row) := inferInstanceAs (Decidable (_ ∧ _))

end MilpbookLM
