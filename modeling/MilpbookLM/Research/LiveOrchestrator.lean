/-
Whether a running research run has a job to execute it, and one executor at most. A
command enqueues the job before it moves the run, under a key that a finished job may
have; an executor that stops, raises or loses its lease ends its job with the run still
running; and a run resumes while its last job is not over. In runs of the orchestration
whose steps do none of this (`KeepsOrchestrator`), every state is `Sound`, so that the
property holds (`running_has_orchestrator`). A start that a worker overtakes breaks it
(`start_overtaken`).
-/
import MilpbookLM.Research.OrchestratorInvariant

namespace MilpbookLM

open Table

namespace Orchestra

variable {w w' : Orchestra} {worker : String} {n : Nat} {id runId : Uuid} {job row : OrchestratorJob}

/-! ## Moves of a request -/

theorem not_over_of_allowed {status target : ResearchRunStatus} (h : runTransitionAllowed status target = true) :
    status.over = false := by
  cases status <;> first | rfl | cases target <;> cases h

theorem Sound.call (h : w.Sound) (n : Nat) (command : RunCommand) (actorId runId : Uuid) :
    (w.call n command actorId runId).Sound := by
  unfold Orchestra.call
  split
  · exact h
  split
  · exact h
  split
  · exact h
  next run _ _ hallowed =>
  have hallowed : runTransitionAllowed run.status command.target = true := by simpa using hallowed
  exact h.setCommand n (.read command run) (not_over_of_allowed hallowed) fun _ _ _ hp => by cases hp

theorem Sound.enqueue (h : w.Sound) {command : RunCommand} {run : ResearchRun} {newId : Uuid}
    (htarget : command.target = .running) (hfresh : w.job? newId = none)
    (hkeeps : ¬ w.Over run.runId →
      match w.keys.lookup (executionKey run) with
      | some id => w.HasStatus run.runId command.pending → w.Open id run.runId
      | none => ∀ id job, w.job? id = some job → job.runId = run.runId → job.status.terminal = true) :
    (w.enqueue n command run newId).Sound := by
  unfold Orchestra.enqueue
  split
  next id hkey =>
    rw [hkey] at hkeeps
    obtain ⟨before, after, hkeys, -⟩ := List.lookup_eq_some_iff.1 hkey
    obtain ⟨job, hjob, hrun⟩ := h.keys (executionKey run) id (by rw [hkeys]; simp)
    refine h.setCommand n _ ⟨htarget, job, hjob, hrun run rfl⟩ fun _ _ _ hp hpending hover => ?_
    cases hp
    exact hkeeps hover hpending
  next hkey =>
    rw [hkey] at hkeeps
    obtain ⟨hsound, hopen⟩ := h.insertJob hfresh hkeeps
    obtain ⟨job, hjob, hrun, hleft⟩ := hopen
    refine hsound.setCommand n _ ⟨htarget, job, hjob, hrun⟩ fun _ _ _ hp _ _ => ?_
    cases hp
    exact ⟨job, hjob, hrun, hleft⟩

theorem Sound.casEnqueued (h : w.Sound) {command : RunCommand} {run : ResearchRun} {jobId : Uuid}
    (hn : w.commands n = .enqueued command run jobId) : (w.cas n command run).Sound := by
  have hseen := h.seen n
  rw [hn] at hseen
  have hcancel : command ≠ .cancel := fun he => by rw [he] at hseen; cases hseen.1
  have hexpected : (command.expected run).over = false ∧ command.pending (command.expected run) := by
    cases command with
    | start => exact ⟨rfl, rfl⟩
    | resume => exact ⟨rfl, rfl⟩
    | _ => cases hseen.1
  have hcast : (w.setResearch (w.research.casStatus run.runId (command.expected run) command.target {}).2).Sound := by
    refine h.setResearch hexpected.1 (by rw [hseen.1]; decide) fun _ hstatus => ?_
    obtain ⟨run', hrun', hstatus⟩ := hstatus
    have hover : ¬ w.Over run.runId := fun ⟨r, hr, hover⟩ => by
      obtain rfl := Option.some.inj (hrun'.symm.trans hr)
      rw [hstatus, hexpected.1] at hover
      cases hover
    exact ⟨jobId, (h.live _ hover).awaited jobId ⟨n, command, run, hn, rfl, run', hrun', hstatus ▸ hexpected.2⟩⟩
  unfold Orchestra.cas
  simp only [hcancel, decide_false, Bool.and_false, Bool.false_eq_true, if_false]
  exact hcast.setCommand n .idle trivial fun _ _ _ hp => by cases hp

theorem Sound.casRead (h : w.Sound) {command : RunCommand} {run : ResearchRun} (hn : w.commands n = .read command run)
    (htarget : command.target ≠ .running) : (w.cas n command run).Sound := by
  have hseen := h.seen n
  rw [hn] at hseen
  have hexpected : (command.expected run).over = false := by
    cases command with
    | pause => rfl
    | cancel => exact hseen
    | _ => exact absurd rfl htarget
  have hcast : (w.setResearch (w.research.casStatus run.runId (command.expected run) command.target {}).2).Sound :=
    h.setResearch hexpected (by cases command <;> decide) fun he => absurd he htarget
  unfold Orchestra.cas
  dsimp only
  split
  next hcancelled =>
    obtain ⟨hupdated, hcancel⟩ := Bool.and_eq_true_iff.1 hcancelled
    obtain rfl := of_decide_eq_true hcancel
    refine hcast.setCommand n _ ?_ fun _ _ _ hp => by cases hp
    rcases cas_cases (w := w) run.runId (RunCommand.cancel.expected run) RunCommand.cancel.target with
      ⟨-, hnone, -⟩ | ⟨-, -, hstatus⟩
    · rw [hnone] at hupdated
      cases hupdated
    · have hover := hstatus run.runId (·.over = true)
      rw [if_pos rfl] at hover
      exact hover.2 rfl
  next => exact hcast.setCommand n .idle trivial fun _ _ _ hp => by cases hp

theorem Sound.findExecution (h : w.Sound) {run : ResearchRun} (hn : w.commands n = .cancelled run) :
    (w.findExecution n run).Sound := by
  have hseen := h.seen n
  rw [hn] at hseen
  unfold Orchestra.findExecution
  split
  · exact h.setCommand n .idle trivial fun _ _ _ hp => by cases hp
  next job hjob =>
  have hrun : job.runId = run.runId := by
    have := List.find?_some hjob
    simp only [Bool.and_eq_true, decide_eq_true_eq] at this
    exact this.2
  refine h.setCommand n _ ⟨hrun ▸ hseen, job, ?_, rfl⟩ fun _ _ _ hp => by cases hp
  exact lookup_of_mem h.keyed (List.mem_of_find?_eq_some hjob)

theorem endsAt_cases {status : JobStatus} (h : job.endsAt status row = true) :
    status.state ∈ transitions job.status.state ∧ row.status.terminal = false := by
  simp only [OrchestratorJob.endsAt, Bool.and_eq_true, decide_eq_true_eq] at h
  obtain ⟨⟨hmem, -⟩, hrow⟩ := h
  refine ⟨hmem, ?_⟩
  split at hrow
  · simpa using hrow
  · rw [of_decide_eq_true hrow]
    cases hstatus : job.status <;> rw [hstatus] at hmem <;> first | rfl | cases hmem

/-- A job ends that nobody holds any more and that its run can do without, or that of a run that is over. -/
theorem Sound.endJob (h : w.Sound) {status : JobStatus} (hstatus : status.terminal = true) (hknown : w.Known job)
    (hfree : ¬ w.Over job.runId →
      (∀ worker held, (w.workers worker).held? = some held → held.id ≠ job.id) ∧
        ∀ row, w.job? job.id = some row → row.status.terminal = false → ¬ w.Needs job.id job.runId) :
    (w.endJob job status).Sound := by
  obtain ⟨row, hrow, hrun⟩ := hknown
  unfold Orchestra.endJob
  rw [hrow]
  dsimp only
  split
  next hends =>
    rw [← hrun] at hfree
    refine h.setJob hrow (fun _ => ⟨rfl, rfl⟩) (fun _ => hstatus) (fun hover worker held hh hid => ?_) fun hover _ => ?_
    · exact absurd hid ((hfree hover).1 worker held hh)
    · exact (hfree hover).2 row hrow (endsAt_cases hends).2
  next => exact h

theorem Sound.cancelExecution (h : w.Sound) (hn : w.commands n = .cancelling job) : (w.cancelExecution n job).Sound := by
  have hseen := h.seen n
  rw [hn] at hseen
  have hended : (w.endJob job .cancelled).Sound := h.endJob rfl hseen.2 fun hover => absurd hseen.1 hover
  exact hended.setCommand n .idle trivial fun _ _ _ hp => by cases hp

/-! ## Moves of a worker -/

/-- A worker with no job in hand. -/
theorem Sound.rest (h : w.Sound) (worker : String) : (w.setWorker worker .idle).Sound := by
  refine h.setWorker .idle (fun job hr => by cases hr) trivial (fun job hp => by cases hp) (fun job hh => by cases hh)
    fun job hf => by cases hf

/-- Two workers hold no two jobs of a run that is not over. -/
theorem Sound.one_holder (h : w.Sound) {other : String} {job' : OrchestratorJob} (hover : ¬ w.Over job.runId)
    (hheld : (w.workers worker).held? = some job) (hheld' : (w.workers other).held? = some job')
    (hrun : job'.runId = job.runId) : other = worker := by
  have hlive := h.live job.runId hover
  obtain ⟨row, hrow, hstatus⟩ := hlive.held worker job hheld rfl
  obtain ⟨row', hrow', hstatus'⟩ := hlive.held other job' hheld' hrun
  obtain ⟨known, hknown, hof⟩ := h.records worker job (record_of_held hheld)
  obtain ⟨known', hknown', hof'⟩ := h.records other job' (record_of_held hheld')
  obtain rfl := Option.some.inj (hrow.symm.trans hknown)
  obtain rfl := Option.some.inj (hrow'.symm.trans hknown')
  have hid := hlive.unique job'.id job.id row' row hrow' hrow (hof'.trans hrun) hof (by rw [hstatus']; rfl)
    (by rw [hstatus]; rfl)
  exact hlive.holder other worker job' job hheld' hheld hrun hid

/-- A worker that holds a job at another place with it; where it leaves the loop, the run needs the job no more. -/
theorem Sound.hold (h : w.Sound) {phase : WorkerPhase} (hheld : (w.workers worker).held? = some job)
    (hphase : phase.held? = some job) (hproper : phase.Proper)
    (hinside : phase = .inside job → ¬ w.Over job.runId)
    (hleaves : ¬ w.Over job.runId → phase.finishing? = some job →
      (w.workers worker).finishing? = some job ∨ ¬ w.Needs job.id job.runId) : (w.setWorker worker phase).Sound := by
  have hsame : ∀ other, (phase.record? = some other ∨ phase.finishing? = some other) → other = job := by
    intro other hother
    cases phase <;> simp_all [WorkerPhase.record?, WorkerPhase.held?, WorkerPhase.finishing?]
  refine h.setWorker phase (fun other hr => ?_) hproper (fun other hp other' job' hne hi hrun => ?_)
    (fun other hh hover => ?_) fun other hf hover => ?_
  · rw [hsame other (.inl hr)]
    exact h.records worker job (record_of_held hheld)
  · obtain rfl := hsame other (.inl (by rw [hp]; rfl))
    exact hne (h.one_holder (hinside hp) hheld (by rw [hi]; rfl) hrun)
  · obtain rfl := Option.some.inj (hphase.symm.trans hh)
    refine ⟨(h.live _ hover).held worker job hheld rfl, fun other job' hne hh' hid => hne ?_⟩
    exact ((h.live _ hover).holder worker other job job' hheld hh' rfl hid.symm).symm
  · obtain rfl := hsame other (.inr hf)
    exact (hleaves hover hf).imp_left fun hf' => ⟨_, hf', rfl⟩

theorem Sound.claim (h : w.Sound) (hjob : w.job? id = some job) (hqueued : job.status = .queued) :
    (w.claim worker job).Sound := by
  obtain rfl := job?_id hjob
  have hleased : (w.setJob job.id (·.lease worker)).Sound := by
    refine h.setJob hjob (fun _ => ⟨rfl, rfl⟩) (fun ht => ?_) (fun hover other held hh hid => ?_) fun _ ht => by cases ht
    · rw [hqueued] at ht
      cases ht
    · obtain ⟨known, hknown, hrun⟩ := h.records other held (record_of_held hh)
      rw [hid, hjob, Option.some.injEq] at hknown
      obtain ⟨row, hrow, hstatus⟩ := (h.live job.runId hover).held other held hh (by rw [← hrun, hknown])
      rw [hid, hjob, Option.some.injEq] at hrow
      rw [← hrow, hqueued] at hstatus
      cases hstatus
  refine hleased.setWorker (.claimed (job.lease worker)) (fun other hr => ?_) rfl (fun _ hp => by cases hp)
    (fun _ hh => by cases hh) fun _ hf => by cases hf
  cases hr
  exact ⟨job.lease worker, job?_setJob_self (fun _ => rfl) hjob, rfl⟩

theorem Sound.dispatch (h : w.Sound) (hw : w.workers worker = .claimed job) : (w.dispatch worker job).Sound := by
  have hleased : job.status = .leased := by
    have := h.phases worker
    rwa [hw] at this
  obtain ⟨row, hrow, hrun⟩ := h.records worker job (by rw [hw]; rfl)
  unfold Orchestra.dispatch
  rw [hrow]
  dsimp only
  split
  next hunmoved =>
    simp only [OrchestratorJob.unmoved, Bool.and_eq_true, decide_eq_true_eq] at hunmoved
    have hstatus : row.status = .leased := hunmoved.1.trans hleased
    have hnobody : ¬ w.Over job.runId → ∀ other held, (w.workers other).held? = some held → held.id ≠ job.id := by
      intro hover other held hh hid
      have hsame := known_runId (h.records other held (record_of_held hh)) ⟨row, hrow, hrun⟩ hid
      obtain ⟨row', hrow', hstatus'⟩ := (h.live job.runId hover).held other held hh hsame
      rw [hid, hrow, Option.some.injEq] at hrow'
      rw [← hrow', hstatus] at hstatus'
      cases hstatus'
    have hnow : (w.setJob job.id (·.run)).job? job.id = some row.run := job?_setJob_self (fun _ => rfl) hrow
    have hrunning : (w.setJob job.id (·.run)).Sound := by
      refine h.setJob hrow (fun _ => ⟨rfl, rfl⟩) (fun ht => ?_) (fun hover _ _ _ _ => rfl) fun _ ht => by cases ht
      rw [hstatus] at ht
      cases ht
    refine hrunning.setWorker (.dispatched job.run) (fun other hr => ?_) trivial (fun _ hp => by cases hp)
      (fun other hh hover => ?_) fun _ hf => by cases hf
    · cases hr
      exact ⟨row.run, hnow, hrun⟩
    · cases hh
      exact ⟨⟨row.run, hnow, rfl⟩, fun other held _ hh => hnobody hover other held hh⟩
  next => exact h.rest worker

theorem Sound.readRun (h : w.Sound) {missingRaises : Bool} (hheld : (w.workers worker).held? = some job)
    (hkeeps : w.Running job.runId ∨ ¬ w.Awaits job.id job.runId) : (w.readRun worker job missingRaises).Sound := by
  have hleave : ¬ w.Running job.runId → ¬ w.Needs job.id job.runId := fun hnot hneeds =>
    hneeds.elim hnot (hkeeps.resolve_left hnot)
  unfold Orchestra.readRun
  split
  next hnone =>
    refine h.hold hheld rfl trivial (fun hp => by cases hp) fun _ _ => .inr (hleave fun ⟨run, hrun, _⟩ => ?_)
    rw [hnone] at hrun
    cases hrun
  next run hrun =>
    split
    next hstatus =>
      refine h.hold hheld rfl trivial (fun _ ⟨run', hrun', hover⟩ => ?_) fun _ hf => by cases hf
      obtain rfl := Option.some.inj (hrun.symm.trans hrun')
      rw [hstatus] at hover
      cases hover
    next hstatus =>
      refine h.hold hheld rfl trivial (fun hp => by cases hp) fun _ _ => .inr (hleave fun ⟨run', hrun', hrunning⟩ => ?_)
      obtain rfl := Option.some.inj (hrun.symm.trans hrun')
      exact hstatus hrunning

theorem Sound.settle (h : w.Sound) {target : ResearchRunStatus} (hheld : (w.workers worker).held? = some job)
    (htarget : target = .succeeded ∨ target = .failed)
    (hkeeps : w.Running job.runId ∨ ¬ w.Awaits job.id job.runId) : (w.settle worker job target).Sound := by
  have hover : target.over = true := by rcases htarget with rfl | rfl <;> rfl
  have hcast : (w.setResearch (w.research.casStatus job.runId ResearchRunStatus.running target {}).2).Sound := by
    refine h.setResearch rfl ?_ fun he => ?_
    · rintro rfl
      cases hover
    · rw [he] at hover
      cases hover
  refine hcast.hold hheld rfl trivial (fun hp => by cases hp) fun hnot _ => .inr ?_
  rcases cas_cases (w := w) job.runId ResearchRunStatus.running target with ⟨hstopped, -, hsame⟩ | ⟨-, -, hstatus⟩
  · rw [hsame]
    exact fun hneeds => hneeds.elim hstopped (hkeeps.resolve_left hstopped)
  · refine absurd ((hstatus job.runId (·.over = true)).2 ?_) hnot
    rw [if_pos rfl]
    exact hover

theorem Sound.recordProgress (h : w.Sound) (job : OrchestratorJob) : (w.recordProgress job).Sound := by
  unfold Orchestra.recordProgress
  split
  · exact h
  next row hrow =>
  split
  next hmatches =>
    have hflight := (Bool.and_eq_true_iff.1 hmatches).2
    refine h.setJob hrow (fun _ => ⟨rfl, rfl⟩) (fun ht => ht) (fun hover other held hh hid => ?_) fun _ ht => ?_
    · obtain ⟨known, hknown, hrun⟩ := h.records other held (record_of_held hh)
      rw [hid, hrow, Option.some.injEq] at hknown
      obtain ⟨row', hrow', hstatus⟩ := (h.live row.runId hover).held other held hh (by rw [← hrun, hknown])
      rw [hid, hrow, Option.some.injEq] at hrow'
      rw [hrow']
      exact hstatus
    · change row.status.terminal = true at ht
      cases hstatus : row.status <;> rw [hstatus] at hflight ht <;>
        first | exact absurd hflight (by decide) | exact absurd ht (by decide)
  next => exact h

theorem Sound.readJob (h : w.Sound) {status : JobStatus} (hstatus : status.terminal = true)
    (hrecord : (w.workers worker).record? = some job)
    (hkeeps : ¬ w.Over job.runId → (w.workers worker).finishing? = some job) : (w.readJob worker job status).Sound := by
  obtain ⟨row, hrow, hrun⟩ := h.records worker job hrecord
  have hid := job?_id hrow
  unfold Orchestra.readJob
  rw [hrow]
  dsimp only
  split
  · exact h.rest worker
  have hheld : ¬ w.Over job.runId → (w.workers worker).held? = some job := fun hover => held_of_finishing (hkeeps hover)
  refine h.setWorker (.publishing row status) (fun other hr => ?_) hstatus (fun _ hp => by cases hp)
    (fun other hh hover => ?_) fun other hf hover => ?_
  · cases hr
    exact ⟨row, by rw [hid, hrow], rfl⟩
  · cases hh
    rw [hrun] at hover
    obtain ⟨row', hrow', hrunning⟩ := (h.live _ hover).held worker job (hheld hover) rfl
    refine ⟨⟨row', hid ▸ hrow', hrunning⟩, fun other held hne hh' hid' => hne ?_⟩
    exact ((h.live _ hover).holder worker other job held (hheld hover) hh' rfl (hid.symm.trans hid'.symm)).symm
  · cases hf
    rw [hrun] at hover
    exact .inl ⟨job, hkeeps hover, hid.symm⟩

theorem Sound.publish (h : w.Sound) {status : JobStatus} (hw : w.workers worker = .publishing job status) :
    (w.publish worker job status).Sound := by
  have hstatus : status.terminal = true := by
    have := h.phases worker
    rwa [hw] at this
  have hknown := h.records worker job (by rw [hw]; rfl)
  have hcommute : w.publish worker job status = (w.setWorker worker .idle).endJob job status := by
    have hsame : (w.setWorker worker .idle).job? job.id = w.job? job.id := rfl
    unfold Orchestra.publish Orchestra.endJob
    rw [hsame]
    cases w.job? job.id with
    | none => rfl
    | some row =>
      dsimp only
      split <;> rfl
  rw [hcommute]
  refine (h.rest worker).endJob hstatus hknown fun hover => ⟨fun other held hh hid => ?_, fun row hrow hopen hneeds => ?_⟩
  · have hother : other ≠ worker := by
      rintro rfl
      rw [workers_setWorker, if_pos rfl] at hh
      cases hh
    rw [workers_setWorker, if_neg hother] at hh
    exact hother ((h.live _ hover).holder worker other job held (by rw [hw]; rfl) hh rfl hid.symm).symm
  · have hlive := h.live job.runId hover
    obtain ⟨id, job', hjob', hrun', hstatus', hleft⟩ : ∃ id, w.Open id job.runId :=
      hneeds.elim hlive.orchestrated fun ha => ⟨_, hlive.awaited _ ha⟩
    obtain ⟨row', hrow', hof⟩ := hknown
    obtain rfl := Option.some.inj (hrow.symm.trans hrow')
    have hid := hlive.unique id job.id job' row hjob' hrow hrun' hof hstatus' hopen
    exact hleft worker job (by rw [hw]; rfl) hid.symm

theorem Sound.recover (h : w.Sound) (hjob : w.job? id = some job) (hflight : job.status.inFlight = true)
    (hkeeps : ¬ w.Over job.runId → (∀ worker held, (w.workers worker).held? = some held → held.id ≠ id) ∧
      (job.attempts ≥ job.maxAttempts → ¬ w.Needs id job.runId)) : (w.recover job).Sound := by
  obtain rfl := job?_id hjob
  unfold Orchestra.recover
  split
  next hspent =>
    exact h.setJob hjob (fun _ => ⟨rfl, rfl⟩) (fun _ => rfl) (fun hover other held hh hid =>
      absurd hid ((hkeeps hover).1 other held hh)) fun hover _ => (hkeeps hover).2 hspent
  next =>
    refine h.setJob hjob (fun _ => ⟨rfl, rfl⟩) (fun ht => ?_) (fun hover other held hh hid =>
      absurd hid ((hkeeps hover).1 other held hh)) fun _ ht => by cases ht
    cases hstatus : job.status <;> rw [hstatus] at hflight ht <;>
      first | exact absurd hflight (by decide) | exact absurd ht (by decide)

/-! ## Runs -/

/-- Every step that keeps the orchestrator keeps the invariant. -/
theorem Sound.step (h : w.Sound) {move : OrchestraMove} (hstep : OrchestraStep w move w') (hkeeps : w.KeepsOrchestrator move) :
    w'.Sound := by
  cases hstep with
  | call => exact h.call _ _ _ _
  | enqueue hn htarget hfresh => exact h.enqueue htarget hfresh (hkeeps _ _ hn)
  | casEnqueued hn => exact h.casEnqueued hn
  | casRead hn htarget => exact h.casRead hn htarget
  | findExecution hn => exact h.findExecution hn
  | cancelExecution hn => exact h.cancelExecution hn
  | claim _ hjob hqueued => exact h.claim hjob hqueued
  | revoke hw => exact h.readJob rfl (by rw [hw]; rfl) fun hover => absurd (hkeeps _ hw) hover
  | dispatch hw => exact h.dispatch hw
  | enter hw => exact h.readRun (by rw [hw]; rfl) (hkeeps _ hw)
  | boundary hw => exact h.readRun (by rw [hw]; rfl) (hkeeps _ hw)
  | settle hw htarget => exact h.settle (by rw [hw]; rfl) htarget (hkeeps _ hw)
  | stop hw =>
    exact h.hold (by rw [hw]; rfl) rfl trivial (fun hp => by cases hp) fun _ _ => .inr (hkeeps _ (.inr hw))
  | @raise worker job hw =>
    rcases hw with hw | hw | hw
    · exact h.hold (by rw [hw]; rfl) rfl trivial (fun hp => by cases hp) fun _ _ => .inr (hkeeps _ (.inl hw))
    · exact h.hold (by rw [hw]; rfl) rfl trivial (fun hp => by cases hp) fun _ _ => .inr (hkeeps _ (.inr hw))
    · exact h.hold (by rw [hw]; rfl) rfl trivial (fun hp => by cases hp) fun _ _ => .inl (by rw [hw]; rfl)
  | recordProgress => exact h.recordProgress _
  | @readJob _ _ raised authorized hw =>
    refine h.readJob ?_ (by rw [hw]; rfl) fun _ => by rw [hw]; rfl
    cases authorized <;> cases raised <;> rfl
  | publish hw => exact h.publish hw
  | restart => exact h.rest _
  | recover hjob hflight => exact h.recover hjob hflight (hkeeps _ hjob)

/-- No run has been started, and nobody is at work. -/
structure Initial (w : Orchestra) : Prop where
  created : ∀ runId run, w.run? runId = some run → run.status = .created
  jobs : w.jobs = []
  keys : w.keys = []
  commands : ∀ n, w.commands n = .idle
  workers : ∀ worker, w.workers worker = .idle

theorem Initial.sound (h : w.Initial) : w.Sound := by
  have hjob : ∀ id, w.job? id = none := fun id => by rw [job?, h.jobs]; rfl
  have hheld : ∀ worker, (w.workers worker).held? = none := fun worker => by rw [h.workers]; rfl
  refine ⟨by rw [h.jobs]; exact List.nodup_nil, fun worker job hr => ?_, fun worker => ?_, fun key id hk => ?_, fun n => ?_,
    fun worker worker' job job' hi => ?_, fun runId _ => ⟨fun id id' job job' hk => ?_, fun worker job hh => ?_,
      fun worker worker' job job' hh => ?_, fun hactive => ?_, fun id hissued => ?_⟩⟩
  · rw [h.workers] at hr
    cases hr
  · rw [h.workers]
    trivial
  · rw [h.keys] at hk
    cases hk
  · rw [h.commands]
    trivial
  · rw [h.workers] at hi
    cases hi
  · rw [hjob] at hk
    cases hk
  · rw [hheld] at hh
    cases hh
  · rw [hheld] at hh
    cases hh
  · obtain ⟨run, hrun, hstatus⟩ := hactive
    rw [h.created runId run hrun] at hstatus
    cases hstatus
  · obtain ⟨n, command, run, hn, -⟩ := hissued
    rw [h.commands] at hn
    cases hn

/-- The states that steps lead to, where `allowed` says which may be taken. -/
abbrev Reached (allowed : Orchestra → OrchestraMove → Prop) : Orchestra → Prop :=
  Interleave.Reach Initial fun w w' => ∃ move, allowed w move ∧ OrchestraStep w move w'

/-- **A running run has an orchestrator, and one executor at most**, where every step keeps it so. -/
theorem running_has_orchestrator (h : Reached KeepsOrchestrator w) : (∀ runId, w.Orchestrated runId) ∧ w.OneExecutor := by
  have hsound : w.Sound := Interleave.Reach.invariant (fun _ hi => hi.sound)
    (fun _ _ _ hs ⟨_, hkeeps, hstep⟩ => hs.step hstep hkeeps) h
  refine ⟨fun runId hr => ?_, hsound.executors⟩
  have hover : ¬ w.Over runId := fun ⟨run, hrun, hover⟩ => by
    obtain ⟨run', hrun', hstatus⟩ := hr
    obtain rfl := Option.some.inj (hrun.symm.trans hrun')
    rw [hstatus] at hover
    cases hover
  obtain ⟨id, job, hjob, hrun, hstatus, -⟩ := (hsound.live runId hover).orchestrated hr
  exact ⟨id, job, hjob, hrun, hstatus⟩

end Orchestra

/-! ## A run that is started -/

/-- Run 1 of user 3. -/
def createdRun : ResearchRun where
  runId := 1
  notebookId := 2
  actorId := 3
  goal := ""
  mode := .deepResearch
  tools := []
  approvedTools := []
  budget := {}

def jobOfOne : OrchestratorJob := { id := 5, runId := 1 }

namespace Orchestra

def createdOfOne : Orchestra where
  research := { runs := [createdRun] }

/-- A start of the run has enqueued job 5. -/
def enqueuedOfOne : Orchestra := (createdOfOne.call 0 .start 3 1).enqueue 0 .start createdRun 5

theorem createdOfOne_initial : createdOfOne.Initial := by
  refine ⟨fun runId run hrun => ?_, rfl, rfl, fun _ => rfl, fun _ => rfl⟩
  obtain ⟨hmem, -⟩ := lookup_some hrun
  rw [List.mem_singleton.1 hmem]
  rfl

theorem enqueuedOfOne_reached : Reached KeepsOrchestrator enqueuedOfOne := by
  refine .next (.next (.start createdOfOne_initial) ⟨.call 0 .start 3 1, trivial, .call rfl⟩)
    ⟨.enqueue 0 5, fun command run hn _ => ?_, .enqueue rfl rfl rfl⟩
  cases hn
  intro id job hjob
  cases hjob

/-- The start moves the run; a worker claims the job, dispatches it and executes the run. -/
def executingOfOne : Orchestra :=
  ((((enqueuedOfOne.cas 0 .start createdRun).claim "w" jobOfOne).dispatch "w" (jobOfOne.lease "w")).enter "w"
    (jobOfOne.lease "w").run)

theorem running_has_orchestrator_of_one :
    (∀ runId, executingOfOne.Orchestrated runId) ∧ executingOfOne.OneExecutor := by
  refine running_has_orchestrator ?_
  refine .next (.next (.next (.next enqueuedOfOne_reached ⟨.cas 0, trivial, .casEnqueued rfl⟩)
    ⟨.claim "w" 5, trivial, .claim rfl rfl rfl⟩) ⟨.dispatch "w", trivial, .dispatch rfl⟩)
    ⟨.enter "w", fun job hw => .inl ?_, .enter rfl⟩
  cases hw
  exact ⟨_, rfl, rfl⟩

/-- A worker claims the job before the start moves the run: the executor finds it created, and returns. -/
def leftOfOne : Orchestra :=
  ((enqueuedOfOne.claim "w" jobOfOne).dispatch "w" (jobOfOne.lease "w")).enter "w" (jobOfOne.lease "w").run

/-- The job succeeds, and then the run starts to run. -/
def overtakenOfOne : Orchestra :=
  ((leftOfOne.readJob "w" (jobOfOne.lease "w").run .succeeded).publish "w" (jobOfOne.lease "w").run .succeeded).cas 0
    .start createdRun

theorem overtakenOfOne_reached : Reached (fun _ _ => True) overtakenOfOne := by
  have henqueued : Reached (fun _ _ => True) enqueuedOfOne :=
    enqueuedOfOne_reached.mono fun _ _ ⟨move, _, hstep⟩ => ⟨move, trivial, hstep⟩
  have hleft : Reached (fun _ _ => True) leftOfOne :=
    .next (.next (.next henqueued ⟨.claim "w" 5, trivial, .claim rfl rfl rfl⟩) ⟨.dispatch "w", trivial, .dispatch rfl⟩)
      ⟨.enter "w", trivial, .enter rfl⟩
  have hread : OrchestraStep leftOfOne (.readJob "w" true) (leftOfOne.readJob "w" (jobOfOne.lease "w").run .succeeded) :=
    @OrchestraStep.readJob _ "w" _ false true rfl
  refine .next (.next (.next hleft ⟨_, trivial, hread⟩) ⟨.publish "w", trivial, .publish rfl⟩) ⟨.cas 0, trivial, ?_⟩
  exact @OrchestraStep.casEnqueued _ 0 .start createdRun 5 rfl

theorem start_overtaken : ¬ ∀ w : Orchestra, Reached (fun _ _ => True) w → (∀ n, w.commands n = .idle) →
    (∀ runId, w.Orchestrated runId) ∧ w.OneExecutor := by
  intro h
  have hidle : ∀ n, overtakenOfOne.commands n = .idle := by
    obtain ⟨read, enqueued, hcommands⟩ : ∃ read enqueued, overtakenOfOne.commands =
        Function.update (Function.update (Function.update (fun _ => .idle) 0 read) 0 enqueued) 0 .idle := ⟨_, _, rfl⟩
    intro n
    rw [hcommands, Function.update_idem, Function.update_idem, Function.update_apply, ite_self]
  obtain ⟨id, job, hjob, -, hstatus⟩ := (h overtakenOfOne overtakenOfOne_reached hidle).1 1 ⟨_, rfl, rfl⟩
  have hjobs : overtakenOfOne.jobs = [((jobOfOne.lease "w").run.finish .succeeded)] := rfl
  obtain ⟨hmem, -⟩ := lookup_some hjob
  rw [hjobs] at hmem
  rw [List.mem_singleton.1 hmem] at hstatus
  cases hstatus

end Orchestra

end MilpbookLM
