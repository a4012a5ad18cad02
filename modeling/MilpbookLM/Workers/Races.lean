/-
Lost races. A poll tolerates a lost compare-and-swap around a publication, a
cancellation and the dispatch, and nothing else. So it returns whenever its own
calls do not meet the rest: a record to publish, or a job to cancel or to park,
that another writer has already moved (`pollOnce_returns`), whatever the other
workers and the requests do.
-/
import MilpbookLM.Jobs.Claiming
import MilpbookLM.Workers.Ownership

namespace MilpbookLM

open Interleave PgJobRepository

/-- No other writer got there first. (The cast of a priority is the database's failure.) -/
def Call.Wins (db : JobDb) : Call → Prop
  | .claim _ q _ _ kinds => ∀ row ∈ db.jobs, claimable q kinds row = true → (priorityColumn row).isOk = true
  | .get .cancelling id => ∀ row ∈ db.job? id, row.logicalState.terminal = false
  | .stamp (.publishing job newState) => newState ∈ transitions job.state
  | .transition .park job newState _ => newState ∈ transitions job.state ∧ ∃ row ∈ db.jobs, casMatches job row = true
  | _ => True

instance {c : Call} {db} : Decidable (c.Wins db) := by unfold Call.Wins; split <;> infer_instance

/-- The calls of `w` win their races. -/
abbrev WinsRaces (w : String) (p : Party) (c : Call) (_ : Env) (r : JobRun Party) : Prop := p = .worker w → c.Wins r.shared

section Races

variable {env : Env} {db : JobDb} {w : String} {r : JobRun Party}

/-- A claim whose priorities can be cast goes through. -/
theorem claim_total {q lease policy kinds} (hk : db.Keyed) (hb : ∃ budget, policy.budget q = .ok budget)
    (hp : ∀ row ∈ db.jobs, claimable q kinds row = true → ∃ p, priorityColumn row = .ok p) :
    ∃ a, claim env w q lease policy kinds db = .ok a := by
  obtain ⟨budget, hb⟩ := hb
  by_cases hkinds : kinds.isEmpty = true
  · exact ⟨_, by rw [claim, if_pos hkinds]⟩
  have hsel : claimSelect env.plan (fun _ => false) budget q kinds db.jobs = .ok (_, _) :=
    claimSelect_eq_ok.2 ⟨hp, rfl, rfl⟩
  rcases hfind : (env.plan.join (firstRows env.plan q kinds db.jobs)).find? (fitsBudget budget q db.jobs) with _ | c
  · rw [hfind] at hsel
    exact ⟨(none, db), by simp only [claim, hkinds, hb, hsel, bind, Except.bind, pure, Except.pure]; rfl⟩
  · rw [hfind] at hsel
    obtain ⟨db', hclaim, -⟩ := claim_chosen w lease hk (by simpa using hkinds) hb hsel
    exact ⟨_, hclaim⟩

/-- A transition that the table allows and that finds its row goes through. -/
theorem transition_total {job new u row} (hmem : new ∈ transitions job.state) (hu : u.unknown = [])
    (hnew : new.terminal = false) (hrow : row ∈ db.jobs) (hm : casMatches job row = true) :
    ∃ a, transition env job new u db = .ok a := by
  obtain ⟨updated, hup⟩ := applyTransition_of_mem env.clock hmem hu
  have hupd := db.updateJobs_consistent (p := casMatches job) (f := transitionRow env.now new updated)
    fun row _ => leaseConsistent_transitionRow hnew row
  have hn : db.jobs.countP (casMatches job) ≠ 0 := (List.countP_pos_iff.2 ⟨row, hrow, hm⟩).ne'
  exact ⟨_, by simp only [transition, hup, hupd, bind, Except.bind, if_neg hn]; rfl⟩

theorem Answered.known {p : Party} {job} (h : Answered (own p r.trace) job) : Known r job := by
  obtain ⟨⟨c, a⟩, hev, hmem⟩ := h
  exact ⟨⟨p, c, a⟩, mem_own.1 hev, hmem⟩

/-- A worker that wins its races makes no call that escapes. -/
theorem not_escaped (h : JobRuns (Worked (WinsRaces w)) r) : ¬Escaped (own (.worker w) r.trace) := by
  rintro ⟨⟨c, a⟩, hev, hesc⟩
  refine Runs.event (G := fun p c a => p = .worker w → ¬Escapes ⟨c, a⟩) ?_ h (mem_own.1 hev) rfl hesc
  rintro p c env r hr hc rfl hesc
  have hwins := hc.1 rfl
  cases c with
  | claim w' q lease policy kinds =>
    obtain ⟨e, he⟩ := hesc
    obtain ⟨a, ha⟩ : ∃ a, claim env w' q lease policy kinds r.shared = .ok a :=
      claim_total (worked_keyed hr) hc.2.sourced.2 fun row hrow hcl => by
        have hok := hwins row hrow hcl
        rcases hp : priorityColumn row with e | p
        · rw [hp] at hok; cases hok
        · exact ⟨p, rfl⟩
    have := commit_error he
    rw [ha] at this; cases this
  | get site id =>
    cases site with
    | cancelling =>
      -- the job is known, so its row is there
      obtain ⟨job, hknown, hid⟩ := hc.2.sourced w rfl
      obtain ⟨row, hrow, -⟩ := runs_known (fun _ _ _ _ hc => ⟨hc.2.published, fun _ => hc.known⟩) hr hknown.known
      rw [hid] at hrow
      have hend := hesc row.record (by simp only [exec, get_eq, hrow]; rfl)
      rw [JobRow.record_state, hwins row hrow] at hend
      cases hend
    | _ => exact hesc
  | stamp site =>
    cases site with
    | publishing => exact hesc hwins
    | _ => exact hesc
  | transition site job new u =>
    cases site with
    | dispatch => exact hesc
    | park =>
      obtain ⟨e, he⟩ := hesc
      obtain ⟨hmem, row, hrow, hm⟩ := hwins
      obtain ⟨rfl, manifest, -, rfl⟩ := hc.2.sourced
      obtain ⟨a, ha⟩ : ∃ a, transition env job .waitingCapacity (parkUpdates manifest) r.shared = .ok a :=
        transition_total hmem rfl rfl hrow hm
      have := commit_error he
      rw [ha] at this; cases this
  | _ => exact hesc

/-- **A poll that wins its races returns.** -/
theorem pollOnce_returns {sys : System} {world} (h : sys.Reach (WinsRaces w) world) {res}
    (hret : world.procs (.worker w) = .ret res) : res = .ok () := by
  obtain ⟨hruns, hal⟩ := reach_follows h
  have hraises := hal w
  rw [hret] at hraises
  rcases res with e | ⟨⟩
  · exact absurd (hraises e rfl) (not_escaped hruns)
  · rfl

end Races

/-- How the last poll of `w` ended, if it has. -/
def ended (world : System.World) (w : String) : Option (Except JobError Unit) :=
  match world.procs (.worker w) with
  | .ret res => some res
  | .call .. => none

theorem ended_some {world : System.World} {w res} (h : ended world w = some res) : world.procs (.worker w) = .ret res := by
  unfold ended at h
  split at h
  next hret => cases h; exact hret
  next => cases h

/-- A worker claims, runs and publishes one job. -/
theorem pollOnce_returns_media : ∃ res, ended (mediaSystem.runs (enqueuesMedia ++ polls "w1" 1 7)) "w1" = some res ∧
    res = .ok () := by
  have hsome : (ended (mediaSystem.runs (enqueuesMedia ++ polls "w1" 1 7)) "w1").isSome = true := by decide +kernel
  obtain ⟨res, hres⟩ := Option.isSome_iff_exists.1 hsome
  exact ⟨res, hres, pollOnce_returns (Machine.reach_moves System.reach_idle (by decide +kernel)) (ended_some hres)⟩

/-- The lease of a job expires while its handler runs, the reaper requeues it,
and the worker re-reads it to publish. -/
def requeued : System.World :=
  mediaSystem.runs (enqueuesMedia ++ polls "w1" 1 4 ++ .start (.api 1) .recover :: calls (.api 1) 70000000 1 ++
    calls (.worker "w1") 70000001 2)

theorem pollOnce_raises : ¬ ∀ (sys : System) world, sys.Reach (fun _ _ _ _ => True) world →
    ∀ w res, world.procs (.worker w) = .ret res →
      ∀ msg, res ≠ .error (.illegalJobTransition msg) ∧ res ≠ .error (.jobCasConflict msg) := by
  intro h
  have hraised : ended requeued "w1" =
      some (.error (.illegalJobTransition "queued -> succeeded is not a legal transition")) := by decide +kernel
  exact (h mediaSystem requeued (Machine.reach_moves System.reach_idle Machine.meets_true) _ _ (ended_some hraised) _).1 rfl

end MilpbookLM
