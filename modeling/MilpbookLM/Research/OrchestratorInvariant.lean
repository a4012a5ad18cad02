/-
What keeps a running research run its job (`KeepsOrchestrator`), and the invariant of
the runs whose steps all do (`Sound`): a run that is not over has one job that has not
ended, in the hands of one worker at most. Each table of the orchestration is changed
by one operation, and the invariant is carried through each of these once.
-/
import MilpbookLM.Research.Orchestration

namespace MilpbookLM

open Table

/-! ## Views -/

/-- `succeeded`, `failed` and `cancelled`: a run in these stays in them. -/
def ResearchRunStatus.over : ResearchRunStatus → Bool
  | .succeeded | .failed | .cancelled => true
  | _ => false

/-- The status at which the transition of a start or a resume goes through, or may yet. -/
def RunCommand.pending (command : RunCommand) (status : ResearchRunStatus) : Prop :=
  if command = .start then status = .created else status.over = false

namespace WorkerPhase

/-- The job a worker has read. -/
def record? : WorkerPhase → Option OrchestratorJob
  | idle => none
  | claimed job | dispatched job | inside job | left job _ | publishing job _ => some job

/-- The job a worker has dispatched and not yet published. -/
def held? : WorkerPhase → Option OrchestratorJob
  | idle | claimed _ => none
  | dispatched job | inside job | left job _ | publishing job _ => some job

/-- A claimed job is leased, and a job that is published ends. -/
def Proper : WorkerPhase → Prop
  | claimed job => job.status = .leased
  | publishing _ status => status.terminal = true
  | _ => True

/-- The job whose executor has left its loop. -/
def finishing? : WorkerPhase → Option OrchestratorJob
  | left job _ | publishing job _ => some job
  | _ => none

end WorkerPhase

namespace Orchestra

variable (w : Orchestra)

def HasStatus (runId : Uuid) (p : ResearchRunStatus → Prop) : Prop := ∃ run, w.run? runId = some run ∧ p run.status

abbrev Running (runId : Uuid) : Prop := w.HasStatus runId (· = .running)

abbrev Over (runId : Uuid) : Prop := w.HasStatus runId (·.over = true)

/-- A job of the run that has not ended, and that no executor has left. -/
def Open (id runId : Uuid) : Prop :=
  ∃ job, w.job? id = some job ∧ job.runId = runId ∧ job.status.terminal = false ∧
    ∀ worker held, (w.workers worker).finishing? = some held → held.id ≠ id

/-- A start or a resume has enqueued the job, and its transition may yet go through. -/
def Awaits (id runId : Uuid) : Prop :=
  ∃ n command run, w.commands n = .enqueued command run id ∧ run.runId = runId ∧
    w.HasStatus runId (command.pending)

/-- The run cannot do without the job. -/
def Needs (id runId : Uuid) : Prop := w.Running runId ∨ w.Awaits id runId

/-! ## The property -/

/-- A running run has a job that has not ended. -/
def Orchestrated (runId : Uuid) : Prop :=
  w.Running runId → ∃ id job, w.job? id = some job ∧ job.runId = runId ∧ job.status.terminal = false

/-- Two executors in their loops are of two runs. -/
def OneExecutor : Prop :=
  ∀ worker worker' job job', w.workers worker = .inside job → w.workers worker' = .inside job' →
    job.runId = job'.runId → worker = worker'

/-! ## What keeps it -/

/-- A step that leaves a running run its job, and gives no run a second one. -/
def KeepsOrchestrator : OrchestraMove → Prop
  -- the key is new and every earlier job of the run has ended, or it is of a job that is still open
  | .enqueue n _ => ∀ command run, w.commands n = .read command run → ¬ w.Over run.runId →
    match w.keys.lookup (executionKey run) with
    | some id => w.HasStatus run.runId (command.pending) → w.Open id run.runId
    | none => ∀ id job, w.job? id = some job → job.runId = run.runId → job.status.terminal = true
  -- no executor finds its run not running while the command that enqueued its job has not moved the run yet
  | .enter worker => ∀ job, w.workers worker = .dispatched job → w.Running job.runId ∨ ¬ w.Awaits job.id job.runId
  | .boundary worker | .settle worker _ =>
    ∀ job, w.workers worker = .inside job → w.Running job.runId ∨ ¬ w.Awaits job.id job.runId
  -- no executor stops or raises before its run has stopped running
  | .stop worker | .raise worker =>
    ∀ job, w.workers worker = .dispatched job ∨ w.workers worker = .inside job → ¬ w.Needs job.id job.runId
  -- the actor of a run that is not over stays authorised
  | .revoke worker => ∀ job, w.workers worker = .claimed job → w.Over job.runId
  -- no lease runs out under a worker that is at work, and no attempts before the run has stopped running
  | .recover jobId => ∀ job, w.job? jobId = some job → ¬ w.Over job.runId →
    (∀ worker held, (w.workers worker).held? = some held → held.id ≠ jobId) ∧
      (job.attempts ≥ job.maxAttempts → ¬ w.Needs jobId job.runId)
  | _ => True

/-! ## The invariant -/

/-- A run that is not over has one job that has not ended, in one worker's hands. -/
structure Live (runId : Uuid) : Prop where
  unique : ∀ id id' job job', w.job? id = some job → w.job? id' = some job' → job.runId = runId → job'.runId = runId →
    job.status.terminal = false → job'.status.terminal = false → id = id'
  held : ∀ worker job, (w.workers worker).held? = some job → job.runId = runId →
    ∃ row, w.job? job.id = some row ∧ row.status = .running
  holder : ∀ worker worker' job job', (w.workers worker).held? = some job → (w.workers worker').held? = some job' →
    job.runId = runId → job.id = job'.id → worker = worker'
  orchestrated : w.Running runId → ∃ id, w.Open id runId
  awaited : ∀ id, w.Awaits id runId → w.Open id runId

/-- A job that was read is there, of the same run. -/
def Known (job : OrchestratorJob) : Prop := ∃ row, w.job? job.id = some row ∧ row.runId = job.runId

/-- What a request that is under way has seen. -/
def CommandSeen : CommandPhase → Prop
  | .idle => True
  | .read _ run => run.status.over = false
  | .enqueued command run id => command.target = .running ∧ ∃ job, w.job? id = some job ∧ job.runId = run.runId
  | .cancelled run => w.Over run.runId
  | .cancelling job => w.Over job.runId ∧ w.Known job

structure Sound : Prop where
  keyed : Keyed (fun job : OrchestratorJob => job.id) w.jobs
  records : ∀ worker job, (w.workers worker).record? = some job → w.Known job
  phases : ∀ worker, (w.workers worker).Proper
  keys : ∀ key id, (key, id) ∈ w.keys →
    ∃ job, w.job? id = some job ∧ ∀ run, executionKey run = key → job.runId = run.runId
  seen : ∀ n, w.CommandSeen (w.commands n)
  executors : w.OneExecutor
  live : ∀ runId, ¬ w.Over runId → w.Live runId

variable {w w' : Orchestra} {worker : String} {n : Nat} {id runId : Uuid} {job row : OrchestratorJob}

/-! ## One table at a time -/

theorem job?_id (h : w.job? id = some job) : job.id = id := (lookup_some h).2

theorem job?_setJob {f : OrchestratorJob → OrchestratorJob} (hf : ∀ job, (f job).id = job.id) (k : Uuid) :
    (w.setJob id f).job? k = (w.job? k).map fun job => if k = id then f job else job := by
  rw [job?, setJob, lookup_update fun job _ => hf job]
  cases hk : lookup (fun job : OrchestratorJob => job.id) w.jobs k with
  | none => rw [job?, hk]; rfl
  | some job =>
    obtain rfl := (lookup_some hk).2
    simp [job?, hk]

theorem record_of_held {phase : WorkerPhase} (h : phase.held? = some job) : phase.record? = some job := by
  cases phase <;> first | exact h | cases h

theorem record_of_finishing {phase : WorkerPhase} (h : phase.finishing? = some job) : phase.record? = some job := by
  cases phase <;> first | exact h | cases h

theorem held_of_finishing {phase : WorkerPhase} (h : phase.finishing? = some job) : phase.held? = some job := by
  cases phase <;> first | exact h | cases h

/-- Two records of one job are of one run. -/
theorem known_runId {job' : OrchestratorJob} (h : w.Known job) (h' : w.Known job') (hid : job.id = job'.id) :
    job.runId = job'.runId := by
  obtain ⟨row, hrow, hrun⟩ := h
  obtain ⟨row', hrow', hrun'⟩ := h'
  rw [hid, hrow', Option.some.injEq] at hrow
  rw [← hrun, ← hrun', hrow]

theorem job?_setJob_self {f : OrchestratorJob → OrchestratorJob} (hf : ∀ job, (f job).id = job.id)
    (hrow : w.job? id = some row) : (w.setJob id f).job? id = some (f row) := by
  rw [job?_setJob hf, hrow, Option.map_some, if_pos rfl]

theorem workers_setWorker (w : Orchestra) (worker : String) (phase : WorkerPhase) (other : String) :
    (w.setWorker worker phase).workers other = if other = worker then phase else w.workers other :=
  Function.update_apply ..

/-- A worker at another place: its records are known, and what it holds nobody else does. -/
theorem Sound.setWorker (h : w.Sound) (phase : WorkerPhase)
    (hrecord : ∀ job, phase.record? = some job → w.Known job)
    (hproper : phase.Proper)
    (hinside : ∀ job, phase = .inside job → ∀ other job', other ≠ worker → w.workers other = .inside job' →
      job'.runId ≠ job.runId)
    (hheld : ∀ job, phase.held? = some job → ¬ w.Over job.runId →
      (∃ row, w.job? job.id = some row ∧ row.status = .running) ∧
        ∀ other job', other ≠ worker → (w.workers other).held? = some job' → job'.id ≠ job.id)
    (hfinishing : ∀ job, phase.finishing? = some job → ¬ w.Over job.runId →
      (∃ job', (w.workers worker).finishing? = some job' ∧ job'.id = job.id) ∨ ¬ w.Needs job.id job.runId) :
    (w.setWorker worker phase).Sound := by
  have hworkers := w.workers_setWorker worker phase
  have hopen : ∀ id runId, ¬ w.Over runId → w.Open id runId → w.Needs id runId →
      (w.setWorker worker phase).Open id runId := by
    intro id runId hover ⟨job, hjob, hrun, hstatus, hleft⟩ hneeds
    refine ⟨job, hjob, hrun, hstatus, fun other held hf hid => ?_⟩
    rw [hworkers] at hf
    by_cases hother : other = worker
    · rw [if_pos hother] at hf
      obtain ⟨row, hrow, hof⟩ := hrecord held (record_of_finishing hf)
      rw [hid, hjob, Option.some.injEq] at hrow
      subst hrow
      have hrun' : held.runId = runId := hof.symm.trans hrun
      rcases hfinishing held hf (hrun' ▸ hover) with ⟨job', hf', hid'⟩ | hfree
      · exact hleft worker job' hf' (hid'.trans hid)
      · exact hfree (by rwa [hrun', hid])
    · rw [if_neg hother] at hf
      exact hleft other held hf hid
  refine ⟨h.keyed, fun other job hr => ?_, fun other => ?_, h.keys, h.seen, ?_, fun runId hover => ?_⟩
  · rw [hworkers] at hr
    split at hr
    · exact hrecord job hr
    · exact h.records other job hr
  · rw [hworkers]
    split
    · exact hproper
    · exact h.phases other
  · intro other other' job job' hi hi' hrun
    rw [hworkers] at hi hi'
    split at hi <;> split at hi'
    next ho ho' => rw [ho, ho']
    next ho ho' =>
      subst ho
      exact absurd hrun.symm (hinside job hi other' job' ho' hi')
    next ho ho' =>
      subst ho'
      exact absurd hrun (hinside job' hi' other job ho hi)
    next => exact h.executors other other' job job' hi hi' hrun
  · have hlive := h.live runId hover
    refine ⟨hlive.unique, fun other job hh hrun => ?_, fun other other' job job' hh hh' hrun hid => ?_, fun hr => ?_,
      fun id ha => hopen id runId hover (hlive.awaited id ha) (.inr ha)⟩
    · rw [hworkers] at hh
      split at hh
      · exact (hheld job hh (hrun ▸ hover)).1
      · exact hlive.held other job hh hrun
    · rw [hworkers] at hh hh'
      split at hh <;> split at hh'
      next ho ho' => rw [ho, ho']
      next ho ho' => exact absurd hid.symm ((hheld job hh (hrun ▸ hover)).2 other' job' ho' hh')
      next ho ho' =>
        have hsame := known_runId (h.records other job (record_of_held hh)) (hrecord job' (record_of_held hh')) hid
        exact absurd hid ((hheld job' hh' (hsame ▸ hrun ▸ hover)).2 other job ho hh)
      next => exact hlive.holder other other' job job' hh hh' hrun hid
    · obtain ⟨id, ho⟩ := hlive.orchestrated hr
      exact ⟨id, hopen id runId hover ho (.inl hr)⟩

/-- A request at another place: what it has seen is so, and the job it waits for is open. -/
theorem Sound.setCommand (h : w.Sound) (n : Nat) (phase : CommandPhase) (hseen : w.CommandSeen phase)
    (hopen : ∀ command run id, phase = .enqueued command run id → w.HasStatus run.runId command.pending →
      ¬ w.Over run.runId → w.Open id run.runId) : (w.setCommand n phase).Sound := by
  have hcommands : ∀ m, (w.setCommand n phase).commands m = if m = n then phase else w.commands m :=
    fun m => Function.update_apply ..
  refine ⟨h.keyed, h.records, h.phases, h.keys, fun m => ?_, h.executors, fun runId hover => ?_⟩
  · rw [hcommands]
    split
    · exact hseen
    · exact h.seen m
  · have hlive := h.live runId hover
    refine ⟨hlive.unique, hlive.held, hlive.holder, hlive.orchestrated, fun id ⟨m, command, run, hm, hrun, hpending⟩ => ?_⟩
    rw [hcommands] at hm
    split at hm
    · subst hrun
      exact hopen command run id hm hpending hover
    · exact hlive.awaited id ⟨m, command, run, hm, hrun, hpending⟩

/-- A job moves. One that a worker holds goes on running, and one that its run needs does not end. -/
theorem Sound.setJob (h : w.Sound) (hrow : w.job? id = some row) {f : OrchestratorJob → OrchestratorJob}
    (hf : ∀ job, (f job).id = job.id ∧ (f job).runId = job.runId)
    (hterminal : row.status.terminal = true → (f row).status.terminal = true)
    (hheld : ¬ w.Over row.runId → ∀ worker job, (w.workers worker).held? = some job → job.id = id →
      (f row).status = .running)
    (hends : ¬ w.Over row.runId → (f row).status.terminal = true → ¬ w.Needs id row.runId) : (w.setJob id f).Sound := by
  have hjob : ∀ k, (w.setJob id f).job? k = (w.job? k).map fun job => if k = id then f job else job :=
    job?_setJob fun job => (hf job).1
  have hafter : ∀ {k job}, (w.setJob id f).job? k = some job → ∃ old, w.job? k = some old ∧ job.runId = old.runId ∧
      (job.status.terminal = false → old.status.terminal = false) := by
    intro k job hk
    rw [hjob, Option.map_eq_some_iff] at hk
    obtain ⟨old, hold, rfl⟩ := hk
    refine ⟨old, hold, ?_⟩
    split
    next hid =>
      subst hid
      obtain rfl := Option.some.inj (hrow.symm.trans hold)
      refine ⟨(hf row).2, fun hopen => ?_⟩
      by_contra hended
      rw [hterminal (by simpa using hended)] at hopen
      cases hopen
    next => exact ⟨rfl, fun hopen => hopen⟩
  have hbefore : ∀ {k old}, w.job? k = some old → ∃ job, (w.setJob id f).job? k = some job ∧ job.runId = old.runId ∧
      (k ≠ id → job = old) := by
    intro k old hold
    refine ⟨_, by rw [hjob, hold]; rfl, ?_, fun hk => if_neg hk⟩
    split
    · exact (hf old).2
    · rfl
  have hknown : ∀ {job}, w.Known job → (w.setJob id f).Known job := by
    intro job ⟨old, hold, hrun⟩
    obtain ⟨new, hnew, hrun', -⟩ := hbefore hold
    exact ⟨new, hnew, hrun'.trans hrun⟩
  have hopen : ∀ k runId, ¬ w.Over runId → w.Open k runId → w.Needs k runId → (w.setJob id f).Open k runId := by
    intro k runId hover ⟨job, hk, hrun, hstatus, hleft⟩ hneeds
    obtain ⟨new, hnew, hrun', hother⟩ := hbefore hk
    refine ⟨new, hnew, hrun'.trans hrun, ?_, hleft⟩
    by_cases hid : k = id
    · subst hid
      obtain rfl := Option.some.inj (hrow.symm.trans hk)
      rw [hjob, hrow, Option.map_some, if_pos rfl, Option.some.injEq] at hnew
      rw [← hnew]
      by_contra hended
      exact hends (hrun ▸ hover) (by simpa using hended) (hrun ▸ hneeds)
    · rw [hother hid]
      exact hstatus
  refine ⟨keyed_update (fun job _ => (hf job).1) h.keyed, fun worker job hr => hknown (h.records worker job hr), h.phases,
    fun key k hk => ?_, fun m => ?_, h.executors, fun runId hover => ?_⟩
  · obtain ⟨old, hold, hkey⟩ := h.keys key k hk
    obtain ⟨new, hnew, hrun, -⟩ := hbefore hold
    exact ⟨new, hnew, fun run hrun' => hrun.trans (hkey run hrun')⟩
  · have hseen := h.seen m
    change (w.setJob id f).CommandSeen (w.commands m)
    cases hm : w.commands m with
    | idle => trivial
    | read command run =>
      rw [hm] at hseen
      exact hseen
    | enqueued command run k =>
      rw [hm] at hseen
      obtain ⟨htarget, old, hold, hrun⟩ := hseen
      obtain ⟨new, hnew, hrun', -⟩ := hbefore hold
      exact ⟨htarget, new, hnew, hrun'.trans hrun⟩
    | cancelled run =>
      rw [hm] at hseen
      exact hseen
    | cancelling job =>
      rw [hm] at hseen
      exact ⟨hseen.1, hknown hseen.2⟩
  · have hlive := h.live runId hover
    refine ⟨fun k k' job job' hk hk' hrun hrun' hstatus hstatus' => ?_, fun worker job hh hrun => ?_, hlive.holder,
      fun hr => ?_, fun k ha => hopen k runId hover (hlive.awaited k ha) (.inr ha)⟩
    · obtain ⟨old, hold, hof, hopened⟩ := hafter hk
      obtain ⟨old', hold', hof', hopened'⟩ := hafter hk'
      exact hlive.unique k k' old old' hold hold' (hof.symm.trans hrun) (hof'.symm.trans hrun') (hopened hstatus)
        (hopened' hstatus')
    · obtain ⟨old, hold, hstatus⟩ := hlive.held worker job hh hrun
      obtain ⟨new, hnew, -, hother⟩ := hbefore hold
      refine ⟨new, hnew, ?_⟩
      by_cases hid : job.id = id
      · rw [hid] at hold hnew
        obtain rfl := Option.some.inj (hrow.symm.trans hold)
        rw [hjob, hrow, Option.map_some, if_pos rfl, Option.some.injEq] at hnew
        obtain ⟨row', hrow', hrun'⟩ := h.records worker job (record_of_held hh)
        rw [hid, hrow, Option.some.injEq] at hrow'
        subst hrow'
        rw [← hnew]
        exact hheld (by rwa [hrun', hrun]) worker job hh hid
      · rw [hother hid]
        exact hstatus
    · obtain ⟨k, ho⟩ := hlive.orchestrated hr
      exact ⟨k, hopen k runId hover ho (.inl hr)⟩

/-! ## The status of a run -/

/-- A compare-and-swap that loses changes nothing; one that goes through sets the status of the run. -/
theorem cas_cases (runId : Uuid) (expected target : ResearchRunStatus) :
    (¬ w.HasStatus runId (· = expected) ∧ (w.research.casStatus runId expected target {}).1 = none ∧
        (w.research.casStatus runId expected target {}).2 = w.research) ∨
      ((w.research.casStatus runId expected target {}).1.isSome = true ∧ w.HasStatus runId (· = expected) ∧
        ∀ k p, (w.setResearch (w.research.casStatus runId expected target {}).2).HasStatus k p ↔
          if k = runId then p target else w.HasStatus k p) := by
  unfold ResearchWorld.casStatus
  cases hrun : w.research.run? runId with
  | none =>
    refine .inl ⟨fun ⟨run, hsome, _⟩ => ?_, rfl, rfl⟩
    cases hrun.symm.trans hsome
  | some run =>
    dsimp only
    split
    next hstatus =>
      refine .inl ⟨fun ⟨run', hrun', hexpected⟩ => ?_, rfl, rfl⟩
      obtain rfl := Option.some.inj (hrun.symm.trans hrun')
      exact hstatus hexpected
    next hstatus =>
    refine .inr ⟨rfl, ⟨run, hrun, not_not.1 hstatus⟩, fun k p => ?_⟩
    have hlookup : ∀ k, (w.setResearch { w.research with
        runs := update (fun r => r.runId = runId) (ResearchWorld.castRun target {}) w.research.runs }).run? k =
          (w.run? k).map fun r => if k = runId then ResearchWorld.castRun target {} r else r := by
      intro k
      change lookup _ (update (fun r => r.runId = runId) (ResearchWorld.castRun target {}) w.research.runs) k = _
      rw [lookup_update fun r _ => (rfl : (ResearchWorld.castRun target {} r).runId = r.runId)]
      cases hk : lookup (fun r : ResearchRun => r.runId) w.research.runs k with
      | none => rw [run?, ResearchWorld.run?, hk]; rfl
      | some r =>
        obtain rfl := (lookup_some hk).2
        simp [run?, ResearchWorld.run?, hk]
    have hrun : w.run? runId = some run := hrun
    unfold HasStatus
    rw [hlookup]
    split
    next hk =>
      subst hk
      rw [hrun]
      simp [ResearchWorld.castRun]
    next => simp

/-- The status of a run moves from one in which it is not over. -/
theorem Sound.setResearch (h : w.Sound) {expected target : ResearchRunStatus} (hexpected : expected.over = false)
    (htarget : target ≠ .created)
    (hrunning : target = .running → w.HasStatus runId (· = expected) → ∃ id, w.Open id runId) :
    (w.setResearch (w.research.casStatus runId expected target {}).2).Sound := by
  rcases cas_cases (w := w) runId expected target with ⟨-, -, hsame⟩ | ⟨-, hstatus, hcast⟩
  · rw [hsame]
    exact h
  have hnotOver : ¬ w.Over runId := by
    intro ⟨run, hrun, hover⟩
    obtain ⟨run', hrun', rfl⟩ := hstatus
    rw [hrun, Option.some.injEq] at hrun'
    rw [hrun', hexpected] at hover
    cases hover
  have hover : ∀ k, w.Over k → (w.setResearch (w.research.casStatus runId expected target {}).2).Over k := by
    intro k hk
    rw [Over, hcast, if_neg (show k ≠ runId from fun he => hnotOver (he ▸ hk))]
    exact hk
  refine ⟨h.keyed, h.records, h.phases, h.keys, fun n => ?_, h.executors, fun k hk => ?_⟩
  · have hseen := h.seen n
    change CommandSeen _ (w.commands n)
    cases hn : w.commands n with
    | cancelled run =>
      rw [hn] at hseen
      exact hover _ hseen
    | cancelling job =>
      rw [hn] at hseen
      exact ⟨hover _ hseen.1, hseen.2⟩
    | _ =>
      rw [hn] at hseen
      exact hseen
  · have hlive := h.live k fun hk' => hk (hover k hk')
    refine ⟨hlive.unique, hlive.held, hlive.holder, fun hr => ?_, fun id ha => ?_⟩
    · rw [Running, hcast] at hr
      split at hr
      next he =>
        subst he
        exact hrunning hr hstatus
      next => exact hlive.orchestrated hr
    · obtain ⟨n, command, run, hn, hrun, hpending⟩ := ha
      refine hlive.awaited id ⟨n, command, run, hn, hrun, ?_⟩
      rw [hcast] at hpending
      split at hpending
      next he =>
        subst he
        obtain ⟨run', hrun', rfl⟩ := hstatus
        refine ⟨run', hrun', ?_⟩
        unfold RunCommand.pending at hpending ⊢
        split at hpending
        · exact absurd hpending htarget
        next hresume =>
          rw [if_neg hresume]
          exact hexpected
      next => exact hpending

/-! ## A new job -/

/-- The key names the run. -/
theorem executionKey_runId {run run' : ResearchRun} (h : executionKey run = executionKey run') : run.runId = run'.runId := by
  have hc : (":" : String).toList = [':'] := rfl
  have h := congrArg String.toList h
  have h₁ : (researchExecuteKind.toList ++ ':' :: run.runId.str.toList) ++ ':' :: (toString run.revision).toList =
      (researchExecuteKind.toList ++ ':' :: run'.runId.str.toList) ++ ':' :: (toString run'.revision).toList := by
    simpa only [executionKey, String.toList_append, hc, List.append_assoc, List.cons_append, List.nil_append] using h
  have h₂ := (append_colon_inj (colon_notMem_toString _) (colon_notMem_toString _) h₁).1
  exact Uuid.str_inj (String.toList_injective (append_colon_inj (Uuid.colon_notMem_str _) (Uuid.colon_notMem_str _) h₂).2)

theorem job?_insertJob (run : ResearchRun) {newId : Uuid} (hfresh : w.job? newId = none) (k : Uuid) :
    (w.insertJob run newId).job? k = if k = newId then some { id := newId, runId := run.runId } else w.job? k := by
  have hnone : lookup (fun job : OrchestratorJob => job.id) w.jobs
      ({ id := newId, runId := run.runId } : OrchestratorJob).id = none := hfresh
  exact lookup_insert hnone k

theorem Sound.insertJob (h : w.Sound) {run : ResearchRun} {newId : Uuid} (hfresh : w.job? newId = none)
    (hended : ¬ w.Over run.runId → ∀ id job, w.job? id = some job → job.runId = run.runId →
      job.status.terminal = true) :
    (w.insertJob run newId).Sound ∧ (w.insertJob run newId).Open newId run.runId := by
  have hjob := job?_insertJob run hfresh
  have hold : ∀ {k old}, w.job? k = some old → (w.insertJob run newId).job? k = some old := by
    intro k old hk
    rw [hjob, if_neg fun he => by rw [he, hfresh] at hk; cases hk]
    exact hk
  have hknown : ∀ {job}, w.Known job → (w.insertJob run newId).Known job := fun ⟨row, hrow, hrun⟩ => ⟨row, hold hrow, hrun⟩
  have hopen : ∀ {k runId}, w.Open k runId → (w.insertJob run newId).Open k runId := fun ⟨job, hk, hrest⟩ =>
    ⟨job, hold hk, hrest⟩
  have hnew : (w.insertJob run newId).job? newId = some { id := newId, runId := run.runId } := by rw [hjob, if_pos rfl]
  refine ⟨⟨keyed_insert h.keyed hfresh, fun worker job hr => hknown (h.records worker job hr), h.phases,
    fun key k hk => ?_, fun m => ?_, h.executors, fun runId hover => ?_⟩, ?_⟩
  · rcases List.mem_append.1 hk with hk | hk
    · obtain ⟨old, hk, hkey⟩ := h.keys key k hk
      exact ⟨old, hold hk, hkey⟩
    · cases List.mem_singleton.1 hk
      exact ⟨_, hnew, fun run' hkey => executionKey_runId hkey.symm⟩
  · have hseen := h.seen m
    change (w.insertJob run newId).CommandSeen (w.commands m)
    cases hm : w.commands m with
    | enqueued command run' k =>
      rw [hm] at hseen
      obtain ⟨htarget, old, hk, hrun⟩ := hseen
      exact ⟨htarget, old, hold hk, hrun⟩
    | cancelling job =>
      rw [hm] at hseen
      exact ⟨hseen.1, hknown hseen.2⟩
    | _ =>
      rw [hm] at hseen
      exact hseen
  · have hlive := h.live runId hover
    refine ⟨fun k k' job job' hk hk' hrun hrun' hstatus hstatus' => ?_, fun worker job hh hrun => ?_, hlive.holder,
      fun hr => ?_, fun k ha => hopen (hlive.awaited k ha)⟩
    · rw [hjob] at hk hk'
      split at hk <;> split at hk'
      next he he' => rw [he, he']
      next he he' =>
        cases hk
        subst hrun
        rw [hended hover k' job' hk' hrun'] at hstatus'
        cases hstatus'
      next he he' =>
        cases hk'
        subst hrun'
        rw [hended hover k job hk hrun] at hstatus
        cases hstatus
      next => exact hlive.unique k k' job job' hk hk' hrun hrun' hstatus hstatus'
    · obtain ⟨row, hrow, hstatus⟩ := hlive.held worker job hh hrun
      exact ⟨row, hold hrow, hstatus⟩
    · obtain ⟨k, ho⟩ := hlive.orchestrated hr
      exact ⟨k, hopen ho⟩
  · refine ⟨_, hnew, rfl, rfl, fun worker held hf hid => ?_⟩
    obtain ⟨row, hrow, -⟩ := h.records worker held (record_of_finishing hf)
    rw [hid, hfresh] at hrow
    cases hrow

end Orchestra

end MilpbookLM
