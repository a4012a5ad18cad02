/-
What an execution tells of its run when it returns, beside commands that start, pause, resume and
cancel runs. The transition that ends the run is a compare-and-set whose answer is not
looked at, and a stop is told as `running`; so what is told is true when the run was
still where the executor took it to be (`outcome_tells_iff`).
-/
import MilpbookLM.Lib.Serial
import MilpbookLM.Research.LoopPhases

namespace MilpbookLM

open Interleave Prog

/-! ## Executions -/

namespace ResearchWorld

variable {w : ResearchWorld} {runId : Uuid}

def status? (w : ResearchWorld) (runId : Uuid) : Option ResearchRunStatus := (w.run? runId).map (·.status)

def unfinished (w : ResearchWorld) (runId : Uuid) : Bool := w.status? runId ≠ some .succeeded && w.status? runId ≠ some .failed

def goesOn (w : ResearchWorld) (runId : Uuid) : Bool := w.status? runId ≠ some .paused && w.status? runId ≠ some .cancelled

theorem status?_casStatus {id expected target updates} : (w.casStatus id expected target updates).2.status? runId =
    if id = runId ∧ w.status? id = some expected then some target else w.status? runId := by
  simp only [casStatus]
  split
  · next hnone => simp [status?, hnone]
  next run hrun =>
  have hid : w.status? id = some run.status := by simp [status?, hrun]
  have hkey := (Table.lookup_some hrun).2
  split
  · next hother => simp [hid, hother]
  next hsame =>
  obtain rfl := not_not.1 hsame
  rw [status?, run?, Table.lookup_update (f := castRun target updates) fun _ _ => rfl]
  by_cases hsame : id = runId
  · subst hsame
    simp only [run?] at hrun
    simp [hrun, hkey, castRun, hid]
  · simp only [hsame, false_and, if_false, status?, run?]
    cases hother : Table.lookup (fun r : ResearchRun => r.runId) w.runs runId with
    | none => rfl
    | some other =>
      have hkey' := (Table.lookup_some hother).2
      simp [hkey', Ne.symm hsame]

end ResearchWorld

/-- The rows, the status an execution has moved its run to, and whether it always was in time. -/
structure Watched where
  world : ResearchWorld
  moved : Option ResearchRunStatus := none
  inTime : Bool := true

/-- The run is where the call takes it to be: a read finds none that another execution has finished, the transition
finds it running, and a stop does not find it paused or cancelled. -/
def ResearchCall.inTime (runId : Uuid) (env : ResearchEnv) (w : ResearchWorld) : ResearchCall → Bool
  | .getRun id => w.unfinished id
  | .casStatus id expected _ _ => w.status? id = some expected
  | .shouldStop => !env.stop || w.goesOn runId
  | _ => true

/-- The status a call has moved its run to. -/
def ResearchCall.moved : (c : ResearchCall) → ResearchAnswer c → Option ResearchRunStatus
  | .casStatus .., .ok (some (run : ResearchRun)) => some run.status
  | _, _ => none

def watchedExec (runId : Uuid) : Exec ResearchCall ResearchAnswer Watched ResearchEnv := fun c env s =>
  ((c.exec env s.world).1,
    { world := (c.exec env s.world).2
      moved := c.moved (c.exec env s.world).1 <|> s.moved
      inTime := s.inTime && (env.raises.isSome || c.inTime runId env s.world) })

/-- What others do: commands that move runs as their transitions allow, new runs, and other executions. -/
inductive RunCommands : Watched → Watched → Prop
  | call {s} (c : ResearchCall) (env : ResearchEnv) :
      (∀ id expected target updates, c = .casStatus id expected target updates → runTransitionAllowed expected target = true) →
      RunCommands s { s with world := (c.exec env s.world).2 }
  | create {s} (run : ResearchRun) : s.world.run? run.runId = none →
      RunCommands s { s with world := { s.world with runs := s.world.runs ++ [run] } }

/-- The outcome says what became of the run: a run that it tells to be finished is, and by this execution; and one that is
cancelled or paused it tells to be. -/
structure Tells (runId : Uuid) (outcome : ExecutorOutcome) (s : Watched) : Prop where
  finished : outcome.runStatus = .succeeded ∨ outcome.runStatus = .failed →
    s.world.status? runId = some outcome.runStatus ∧ s.moved = some outcome.runStatus
  stopped : ∀ status, s.world.status? runId = some status → status = .cancelled ∨ status = .paused →
    outcome.runStatus = status

/-! ## What others leave -/

/-- The execution is where it was; its run is there, and finished if it was. -/
structure KeepsRun (runId : Uuid) (s s' : Watched) : Prop where
  moved : s'.moved = s.moved
  inTime : s'.inTime = s.inTime
  run : ∀ status, s.world.status? runId = some status →
    ∃ status', s'.world.status? runId = some status' ∧ (runTransitions status = [] → status' = status)

namespace ResearchRunExecutor

variable {runId : Uuid} {s s' s'' : Watched} {c : ResearchCall} {env : ResearchEnv} {w : ResearchWorld}

theorem keepsRun_refl : KeepsRun runId s s := ⟨rfl, rfl, fun status h => ⟨status, h, fun _ => rfl⟩⟩

theorem KeepsRun.trans (h : KeepsRun runId s s') (h' : KeepsRun runId s' s'') : KeepsRun runId s s'' := by
  refine ⟨h'.moved.trans h.moved, h'.inTime.trans h.inTime, fun status hs => ?_⟩
  obtain ⟨status', hs', hover⟩ := h.run status hs
  obtain ⟨status'', hs'', hover'⟩ := h'.run status' hs'
  refine ⟨status'', hs'', fun hend => ?_⟩
  obtain rfl := hover hend
  exact hover' hend

/-- The same statuses. -/
theorem keepsRun_of_status (hmoved : s'.moved = s.moved) (htime : s'.inTime = s.inTime)
    (hstatus : s'.world.status? runId = s.world.status? runId) : KeepsRun runId s s' :=
  ⟨hmoved, htime, fun status h => ⟨status, hstatus.trans h, fun _ => rfl⟩⟩

/-- Only a transition changes the runs. -/
theorem runs_exec (h : ∀ id expected target updates, c ≠ .casStatus id expected target updates) : (c.exec env w).2.runs = w.runs := by
  cases hr : env.raises with
  | some e => simp only [ResearchCall.exec, hr]
  | none =>
    simp only [ResearchCall.exec, hr]
    cases c with
    | casStatus => exact absurd rfl (h _ _ _ _)
    | beginStep =>
      simp only [ResearchCall.effect, ResearchWorld.insertStep]
      split <;> rfl
    | appendEvidence =>
      simp only [ResearchCall.effect, ResearchWorld.appendEvidence]
      split <;> rfl
    | _ => rfl

theorem status?_exec (h : ∀ id expected target updates, c ≠ .casStatus id expected target updates) :
    (c.exec env w).2.status? runId = w.status? runId := by
  simp only [ResearchWorld.status?, ResearchWorld.run?, runs_exec h]

theorem keepsRun_commands (h : RunCommands s s') : KeepsRun runId s s' := by
  cases h with
  | create run hnew =>
    refine ⟨rfl, rfl, fun status hs => ⟨status, ?_, fun _ => rfl⟩⟩
    simp only [ResearchWorld.status?, ResearchWorld.run?, Option.map_eq_some_iff, Table.lookup] at hs ⊢
    obtain ⟨row, hrow, hstatus⟩ := hs
    exact ⟨row, by rw [List.find?_append, hrow, Option.some_or], hstatus⟩
  | call c env hallowed =>
    by_cases hcas : ∃ id expected target updates, c = .casStatus id expected target updates
    · obtain ⟨id, expected, target, updates, rfl⟩ := hcas
      refine ⟨rfl, rfl, fun status hs => ?_⟩
      cases hr : env.raises with
      | some e =>
        refine ⟨status, ?_, fun _ => rfl⟩
        simpa only [ResearchCall.exec, hr] using hs
      | none =>
        simp only [ResearchCall.exec, hr, ResearchCall.effect, ResearchWorld.status?_casStatus]
        split
        · next hmatch =>
          obtain ⟨rfl, hexpected⟩ := hmatch
          obtain rfl : expected = status := Option.some.inj (hexpected.symm.trans hs)
          refine ⟨target, rfl, fun hend => ?_⟩
          have hto := hallowed _ _ _ _ rfl
          simp [runTransitionAllowed, hend] at hto
        · exact ⟨status, hs, fun _ => rfl⟩
    · have hother : ∀ id expected target updates, c ≠ .casStatus id expected target updates :=
        fun id expected target updates heq => hcas ⟨id, expected, target, updates, heq⟩
      exact keepsRun_of_status rfl rfl (status?_exec hother)

/-! ## An execution -/

/-- Along every path, with `R` where the program returns. -/
abbrev Watches {α : Type} (runId : Uuid) (x : ResearchProgram α) (R : α → Watched → Prop) (s : Watched) : Prop :=
  Leaves (watchedExec runId) (KeepsRun runId) (fun _ _ _ => True) (fun _ => True) x R (fun _ => True) s

variable {config : RunConfig} {l : LoopState} {α β : Type}

theorem perform_watches {R : ResearchResult c → Watched → Prop}
    (h : ∀ s' env a, KeepsRun runId s s' → env.raises = none → c.effect env s'.world = (.ok a, (c.effect env s'.world).2) →
      R a ⟨(c.effect env s'.world).2, c.moved (.ok a) <|> s'.moved, s'.inTime && c.inTime runId env s'.world⟩) :
    Watches runId c.perform R s := by
  refine ⟨trivial, fun s' env hkeeps _ => ⟨trivial, ?_⟩⟩
  cases hr : env.raises with
  | some e => simp [watchedExec, ResearchCall.exec, hr]
  | none =>
    cases ha : (c.effect env s'.world).1 with
    | error e => simp [watchedExec, ResearchCall.exec, hr, ha]
    | ok a =>
      have hR := h s' env a hkeeps hr (by rw [← ha])
      simpa [watchedExec, ResearchCall.exec, hr, ha] using hR

theorem Watches.bind {x : ResearchProgram α} {f : α → ResearchProgram β} {R : α → Watched → Prop} {T : β → Watched → Prop}
    (hx : Watches runId x R s) (hf : ∀ a s, R a s → Watches runId (f a) T s) : Watches runId (x >>= f) T s :=
  Leaves.bind hx fun a s _ hR => hf a s hR

theorem watches_pure {a : α} {R : α → Watched → Prop} (h : R a s) : Watches runId (pure a : ResearchProgram α) R s :=
  leaves_pure trivial h

theorem watches_throw {e : ResearchError} {R : α → Watched → Prop} : Watches runId (throw e : ResearchProgram α) R s :=
  leaves_throw trivial trivial

/-- A program that neither reads nor moves its run leaves what others leave. -/
theorem quiet_watches {x : ResearchProgram α} {P : Watched → Prop} (hx : Only ResearchCall.Quiet x.run) (hs : P s)
    (hP : ∀ s s', KeepsRun runId s s' → P s → P s') : Watches runId x (fun _ => P) s := by
  refine Leaves.mono (Only.leaves hx hs (fun _ _ => trivial) hP fun c env s hc hs => hP s _ ?_ hs) (fun _ _ _ h => h)
    fun _ _ _ => trivial
  cases c with
  | getRun | casStatus | shouldStop => exact hc.elim
  | _ =>
    refine keepsRun_of_status rfl (by simp [watchedExec, ResearchCall.inTime]) (status?_exec ?_)
    intro _ _ _ _ he
    cases he

/-- The execution has moved nothing, and its run is there. -/
structure Opened (runId : Uuid) (s : Watched) : Prop where
  moved : s.moved = none
  inTime : s.inTime = true
  run : (s.world.status? runId).isSome

/-- It has tried to move it: and did, in time, or did not. -/
def Tried (runId : Uuid) (target : ResearchRunStatus) (s : Watched) : Prop :=
  s.moved = some target ∧ s.inTime = true ∧ s.world.status? runId = some target ∨ s.moved = none ∧ s.inTime = false

theorem opened_keeps (h : KeepsRun runId s s') (hs : Opened runId s) : Opened runId s' := by
  obtain ⟨status, hstatus⟩ := Option.isSome_iff_exists.1 hs.run
  obtain ⟨status', hstatus', -⟩ := h.run status hstatus
  exact ⟨h.moved.trans hs.moved, h.inTime.trans hs.inTime, by simp [hstatus']⟩

theorem tried_keeps {target : ResearchRunStatus} (hend : runTransitions target = []) (h : KeepsRun runId s s')
    (hs : Tried runId target s) : Tried runId target s' := by
  rcases hs with ⟨hmoved, htime, hstatus⟩ | ⟨hmoved, htime⟩
  · obtain ⟨status', hstatus', hover⟩ := h.run target hstatus
    obtain rfl := hover hend
    exact .inl ⟨h.moved.trans hmoved, h.inTime.trans htime, hstatus'⟩
  · exact .inr ⟨h.moved.trans hmoved, h.inTime.trans htime⟩

/-- What is told is true when it was in time. -/
def TellsInTime (runId : Uuid) (outcome : ExecutorOutcome) (s : Watched) : Prop := Tells runId outcome s ↔ s.inTime = true

theorem Tried.tells {target : ResearchRunStatus} (htarget : target = .succeeded ∨ target = .failed) (h : Tried runId target s)
    {outcome : ExecutorOutcome} (ho : outcome.runStatus = target) : TellsInTime runId outcome s := by
  subst ho
  rcases h with ⟨hmoved, htime, hstatus⟩ | ⟨hmoved, htime⟩
  · refine iff_of_true ⟨fun _ => ⟨hstatus, hmoved⟩, fun status hs _ => ?_⟩ htime
    exact Option.some.inj (hstatus.symm.trans hs)
  · refine iff_of_false (fun ht => ?_) (by simp [htime])
    have hmoved' := (ht.finished htarget).2
    rw [hmoved] at hmoved'
    cases hmoved'

/-- The compare-and-set. -/
theorem cas_watches {target : ResearchRunStatus} {updates : RunUpdates} (hs : Opened runId s) :
    Watches runId (ResearchCall.casStatus runId .running target updates).perform (fun _ => Tried runId target) s := by
  refine perform_watches fun s' env a hkeeps _ ha => ?_
  have hs' := opened_keeps hkeeps hs
  simp only [ResearchCall.effect, Prod.mk.injEq, and_true] at ha ⊢
  obtain rfl := Except.ok.inj ha
  by_cases hrun : s'.world.status? runId = some .running
  · refine .inl ⟨?_, by simp [ResearchCall.inTime, hrun, hs'.inTime], by simp [ResearchWorld.status?_casStatus, hrun]⟩
    obtain ⟨run, hrow, hstatus⟩ := Option.map_eq_some_iff.1 hrun
    simp [ResearchCall.moved, ResearchWorld.casStatus, hrow, hstatus, ResearchWorld.castRun]
  · refine .inr ⟨?_, by simp [ResearchCall.inTime, hrun]⟩
    simp only [ResearchWorld.casStatus]
    split
    · simpa [ResearchCall.moved] using hs'.moved
    · next run hrow =>
      have hother : run.status ≠ .running := fun hrunning => hrun (by simp [ResearchWorld.status?, hrow, hrunning])
      rw [if_pos hother]
      simpa [ResearchCall.moved] using hs'.moved

theorem fail_watches {errorCode : String} (hs : Opened config.runId s) :
    Watches config.runId (fail config errorCode) (TellsInTime config.runId) s :=
  (cas_watches hs).bind fun _ _ h => watches_pure (h.tells (.inr rfl) rfl)

theorem succeed_watches {summary : String} (hs : Opened config.runId s) :
    Watches config.runId (succeed config summary) (TellsInTime config.runId) s := by
  refine (quiet_watches (perform_only (c := .listEvidence _) trivial) hs fun _ _ => opened_keeps).bind fun rows s hs => ?_
  refine (cas_watches hs).bind fun _ s hs => ?_
  refine (quiet_watches (perform_only (c := .listSteps _) trivial) hs fun _ _ => tried_keeps rfl).bind fun steps s hs => ?_
  exact watches_pure (hs.tells (.inl rfl) rfl)

/-- What an iteration tells, or leaves. -/
def AfterWatched (runId : Uuid) : ExecutorOutcome ⊕ LoopState → Watched → Prop
  | .inl outcome, s => TellsInTime runId outcome s
  | .inr _, s => Opened runId s

theorem fail_watched {errorCode : String} (hs : Opened config.runId s) :
    Watches config.runId (do return .inl (← fail config errorCode)) (AfterWatched config.runId) s :=
  (fail_watches hs).bind fun _ _ h => watches_pure h

theorem callTool_watches {action : PlannerAction} (hs : Opened config.runId s) :
    Watches config.runId (callTool config l action) (AfterWatched config.runId) s := by
  have hrec (c : ResearchCall) (h : c.Records) := quiet_records h
  refine leaves_ite (fun _ => fail_watched hs) fun _ => ?_
  refine (quiet_watches (importsExceeded_only hrec) hs fun _ _ => opened_keeps).bind fun exceeded s hs => ?_
  refine leaves_ite (fun _ => fail_watched hs) fun _ => ?_
  refine (quiet_watches (perform_only (c := .progress ..) trivial) hs fun _ _ => opened_keeps).bind fun _ s hs => ?_
  refine (quiet_watches (dispatch_only hrec (fun _ _ _ => trivial) fun _ => quiet_tool) hs fun _ _ => opened_keeps).bind
    fun turn s hs => ?_
  refine (quiet_watches (perform_only (c := .listSteps _) trivial) hs fun _ _ => opened_keeps).bind fun steps s hs => ?_
  exact (quiet_watches (perform_only (c := .checkpoint _) trivial) hs fun _ _ => opened_keeps).bind fun _ s hs => watches_pure hs

theorem actOn_watches {planned : Option PlannerAction} (hs : Opened config.runId s) :
    Watches config.runId (actOn config l planned) (AfterWatched config.runId) s := by
  rcases planned with _ | action
  · exact watches_pure hs
  cases action with
  | finish summary => exact (succeed_watches hs).bind fun _ _ h => watches_pure h
  | _ =>
    simp only [actOn]
    split
    · refine (quiet_watches (deny_only fun _ => quiet_records) hs fun _ _ => opened_keeps).bind fun _ s hs => ?_
      exact leaves_ite (fun _ => fail_watched hs) fun _ => watches_pure hs
    · exact callTool_watches hs

/-- What is read of a run that is not running is told. -/
theorem read_tells {run : ResearchRun} {stepsExecuted evidenceAppended : Nat} (hrun : s.world.run? runId = some run)
    (hmoved : s.moved = none) (htime : s.inTime = (run.status ≠ .succeeded && run.status ≠ .failed : Bool)) :
    TellsInTime runId ⟨run.status, stepsExecuted, evidenceAppended⟩ s := by
  have hstatus : s.world.status? runId = some run.status := by simp [ResearchWorld.status?, hrun]
  by_cases hfinished : run.status = .succeeded ∨ run.status = .failed
  · refine iff_of_false (fun ht => ?_) ?_
    · have hmoved' := (ht.finished hfinished).2
      rw [hmoved] at hmoved'
      cases hmoved'
    · rcases hfinished with h | h <;> simp [htime, h]
  · refine iff_of_true ⟨fun h => absurd h hfinished, fun status hs _ => ?_⟩ ?_
    · exact Option.some.inj (hstatus.symm.trans hs)
    · simp only [not_or] at hfinished
      simp [htime, hfinished.1, hfinished.2]

/-- A stop is told as running, which is true unless it was paused or cancelled. -/
theorem stop_tells {stepsExecuted evidenceAppended : Nat} :
    TellsInTime runId ⟨.running, stepsExecuted, evidenceAppended⟩
      { s with inTime := s.world.goesOn runId } := by
  by_cases hstopped : s.world.status? runId = some .paused ∨ s.world.status? runId = some .cancelled
  · refine iff_of_false (fun ht => ?_) (by simpa [ResearchWorld.goesOn] using fun h => hstopped.resolve_left h)
    rcases hstopped with h | h
    · exact absurd (ht.stopped _ h (.inr rfl)) nofun
    · exact absurd (ht.stopped _ h (.inl rfl)) nofun
  · simp only [not_or] at hstopped
    refine iff_of_true ⟨fun h => (h.elim nofun nofun : False).elim, fun status hstatus h => ?_⟩ (by simpa [ResearchWorld.goesOn] using hstopped)
    rcases h with rfl | rfl
    · exact absurd hstatus hstopped.2
    · exact absurd hstatus hstopped.1

/-- What a read finds. -/
theorem getRun_watches {R : Option ResearchRun → Watched → Prop}
    (h : ∀ s', KeepsRun runId s s' → R (s'.world.run? runId)
      { s' with inTime := s'.inTime && s'.world.unfinished runId }) :
    Watches runId (ResearchCall.getRun runId).perform R s := by
  refine perform_watches fun s' env a hkeeps _ ha => ?_
  simp only [ResearchCall.effect, Prod.mk.injEq, and_true] at ha ⊢
  obtain rfl := Except.ok.inj ha
  exact h s' hkeeps

theorem iteration_watches (hs : Opened config.runId s) :
    Watches config.runId (iteration config l) (AfterWatched config.runId) s := by
  refine Watches.bind (getRun_watches (R := fun live s => ∃ s', Opened config.runId s' ∧ live = s'.world.run? config.runId ∧
    s = { s' with inTime := s'.world.unfinished config.runId })
    fun s' hkeeps => ?_) fun live s hlive => ?_
  · have hs' := opened_keeps hkeeps hs
    exact ⟨s', hs', rfl, by simp [hs'.inTime]⟩
  obtain ⟨s', hs', rfl, rfl⟩ := hlive
  cases hrow : s'.world.run? config.runId with
  | none =>
    have hthere := hs'.run
    simp [ResearchWorld.status?, hrow] at hthere
  | some run =>
    have hstatus : s'.world.status? config.runId = some run.status := by simp [ResearchWorld.status?, hrow]
    refine leaves_ite (fun hnot => ?_) fun hrunning => ?_
    · refine watches_pure (read_tells hrow hs'.moved ?_)
      simp [ResearchWorld.unfinished, hstatus]
    have hrunning := not_not.1 hrunning
    have hopen : Opened config.runId { s' with inTime := s'.world.unfinished config.runId } :=
      ⟨hs'.moved, by simp [ResearchWorld.unfinished, hstatus, hrunning], hs'.run⟩
    refine Watches.bind (perform_watches (c := .shouldStop) (R := fun (stop : Bool) s =>
      if stop then ∃ s' : Watched, s = { s' with inTime := s'.world.goesOn config.runId } else Opened config.runId s)
      fun s' env a hkeeps _ ha => ?_) fun stop s hstop => ?_
    · have hs' := opened_keeps hkeeps hopen
      simp only [ResearchCall.effect, Prod.mk.injEq, and_true] at ha ⊢
      obtain rfl := Except.ok.inj ha
      cases hstop : env.stop with
      | true =>
        refine ⟨s', ?_⟩
        simp [ResearchCall.moved, ResearchCall.inTime, hstop, hs'.inTime]
      | false => exact ⟨hs'.moved, by simp [ResearchCall.inTime, hstop, hs'.inTime], hs'.run⟩
    cases stop with
    | true =>
      obtain ⟨s', rfl⟩ := hstop
      exact watches_pure stop_tells
    | false =>
      refine (quiet_watches (perform_only (c := .listSteps _) trivial) hstop fun _ _ => opened_keeps).bind fun steps s hs => ?_
      refine leaves_ite (fun _ => fail_watched hs) fun _ => ?_
      refine (quiet_watches (planAction_only (fun _ => quiet_records) (fun _ _ _ => trivial) (fun _ _ => trivial)
        fun _ => trivial) hs fun _ _ => opened_keeps).bind fun planned s hs => ?_
      exact actOn_watches hs

theorem loop_watches (fuel : Nat) (hs : Opened config.runId s) :
    Watches config.runId (loop config fuel l) (TellsInTime config.runId) s := by
  induction fuel generalizing l s with
  | zero => exact watches_throw
  | succ fuel ih =>
    refine (iteration_watches hs).bind fun r s hr => ?_
    cases r with
    | inl outcome => exact watches_pure hr
    | inr l => exact ih hr

/-- **What an execution tells is true exactly when it was in time**, along every path. -/
theorem execute_watches (planned : RunMode → Bool) (fuel : Nat) (hmoved : s.moved = none) (htime : s.inTime = true) :
    Watches runId (execute planned fuel runId) (TellsInTime runId) s := by
  refine Watches.bind (getRun_watches (R := fun found s => ∃ s' : Watched, s'.moved = none ∧ found = s'.world.run? runId ∧
    s = { s' with inTime := s'.world.unfinished runId })
    fun s' hkeeps => ?_) fun found s hfound => ?_
  · exact ⟨s', hkeeps.moved.trans hmoved, rfl, by simp [hkeeps.inTime, htime]⟩
  obtain ⟨s', hmoved', rfl, rfl⟩ := hfound
  cases hrow : s'.world.run? runId with
  | none => exact watches_throw
  | some run =>
    have hstatus : s'.world.status? runId = some run.status := by simp [ResearchWorld.status?, hrow]
    obtain rfl : run.runId = runId := (Table.lookup_some hrow).2
    refine leaves_ite (fun hnot => ?_) fun hrunning => ?_
    · refine watches_pure (read_tells hrow hmoved' ?_)
      simp [ResearchWorld.unfinished, hstatus]
    have hopen : Opened run.runId { s' with inTime := s'.world.unfinished run.runId } := ⟨hmoved', by simp [ResearchWorld.unfinished, hstatus, not_not.1 hrunning], by simp [hstatus]⟩
    refine leaves_ite (fun _ => fail_watches hopen) fun _ => ?_
    refine (quiet_watches (x := countToolSteps run.runId) ?_ hopen fun _ _ => opened_keeps).bind fun toolCalls s hs => ?_
    · exact Only.bind (perform_only (c := .listSteps _) trivial) fun _ => only_pure _
    · exact loop_watches fuel hs

end ResearchRunExecutor

open ResearchRunExecutor in
/-- **An execution tells the truth when its run was still where it took it to be**, beside any commands and other
executions, for every planner and whatever the tools answer: where its last call returns, the outcome is true exactly
when each of its calls was in time. -/
theorem outcome_tells_iff (planned : RunMode → Bool) (fuel : Nat) (runId : Uuid) (world : ResearchWorld) :
    ∀ s, Relation.ReflTransGen (Serial.Among (watchedExec runId) RunCommands) ⟨⟨world, none, true⟩, (execute planned fuel runId).run⟩ s →
      ∀ env outcome watched, s.last? (watchedExec runId) env = some (.ok outcome, watched) →
        (Tells runId outcome watched ↔ watched.inTime = true) := by
  intro s hs env outcome watched hlast
  have hstart : Watches runId (execute planned fuel runId) (TellsInTime runId) ⟨world, none, true⟩ :=
    execute_watches planned fuel rfl rfl
  unfold Watches Leaves at hstart
  exact Safe.last (fun _ => keepsRun_refl) (fun _ _ _ => KeepsRun.trans) (fun _ _ => keepsRun_commands)
    (fun _ _ _ h => h) hstart hs hlast

/-- Run 1, which a planner finishes at once. -/
def finishedRun : ResearchRun where
  runId := 1
  notebookId := 2
  actorId := 3
  goal := "rivers"
  mode := .sourceDiscovery
  tools := []
  approvedTools := []
  budget := {}
  status := .running

def finishEnv : ResearchEnv := { newId := 7, proposal := .obj [("tool", .str "finish"), ("args", .obj [("summary", .str "done")])] }

open ResearchRunExecutor in
/-- The execution after so many calls. -/
def finishing (calls : Nat) : Serial ResearchCall ResearchAnswer Watched (Except ResearchError ExecutorOutcome) :=
  ((List.replicate calls finishEnv).map Serial.Move.call).foldl
    (Serial.move (watchedExec 1) fun r : (RunMode → Bool) × Nat => (execute r.1 r.2 1).run)
    ⟨⟨{ runs := [finishedRun] }, none, true⟩, (execute (fun _ => true) 9 1).run⟩

open ResearchRunExecutor in
theorem finishing_reached (calls : Nat) : Relation.ReflTransGen (Serial.Among (watchedExec 1) RunCommands)
    ⟨⟨{ runs := [finishedRun] }, none, true⟩, (execute (fun _ => true) 9 1).run⟩ (finishing calls) :=
  Serial.among_calls _ _

/-- By itself the execution ends its run, and says so. -/
theorem outcome_tells_iff_finished : ∃ outcome watched, (finishing 11).last? (watchedExec 1) finishEnv = some (.ok outcome, watched) ∧
    outcome.runStatus = .succeeded ∧ Tells 1 outcome watched := by
  have hdone : ((finishing 11).last? (watchedExec 1) finishEnv).any fun r =>
      (match r.1 with | .ok outcome => outcome.runStatus = .succeeded | .error _ => false : Bool) && r.2.inTime := by decide +kernel
  obtain ⟨⟨r, watched⟩, hlast, hdone⟩ := Option.any_eq_true .. |>.1 hdone
  simp only [Bool.and_eq_true] at hdone
  cases r with
  | error e => cases hdone.1
  | ok outcome =>
    exact ⟨outcome, watched, hlast, by simpa using hdone.1,
      (outcome_tells_iff _ 9 1 _ _ (finishing_reached 11) finishEnv outcome watched hlast).2 hdone.2⟩

/-- The run is cancelled when the execution is about to end it. -/
def cancelledMeanwhile : Serial ResearchCall ResearchAnswer Watched (Except ResearchError ExecutorOutcome) :=
  ⟨{ (finishing 10).shared with
      world := ((ResearchCall.casStatus 1 .running .cancelled {}).exec {} (finishing 10).shared.world).2 }, (finishing 10).current⟩

open ResearchRunExecutor in
/-- **It is told to have succeeded.** -/
theorem cancelled_told_succeeded : ¬ ∀ planned fuel runId world s,
    Relation.ReflTransGen (Serial.Among (watchedExec runId) RunCommands) ⟨⟨world, none, true⟩, (execute planned fuel runId).run⟩ s →
      ∀ env outcome watched, s.last? (watchedExec runId) env = some (.ok outcome, watched) → Tells runId outcome watched := by
  intro h
  have hcall : Relation.ReflTransGen (Serial.Among (watchedExec 1) RunCommands)
      ⟨⟨{ runs := [finishedRun] }, none, true⟩, (execute (fun _ => true) 9 1).run⟩
      (([finishEnv].map Serial.Move.call).foldl
        (Serial.move (watchedExec 1) fun r : (RunMode → Bool) × Nat => (execute r.1 r.2 1).run) cancelledMeanwhile) := by
    refine ((finishing_reached 10).tail ?_).trans (Serial.among_calls [finishEnv] _)
    refine .others (.call (.casStatus 1 .running .cancelled {}) {} fun id expected target updates heq => ?_)
    cases heq
    rfl
  have htold : ((([finishEnv].map Serial.Move.call).foldl
      (Serial.move (watchedExec 1) fun r : (RunMode → Bool) × Nat => (execute r.1 r.2 1).run) cancelledMeanwhile).last?
        (watchedExec 1) finishEnv).any fun r =>
      (match r.1 with | .ok outcome => outcome.runStatus = .succeeded | .error _ => false : Bool) &&
        r.2.world.status? 1 = some .cancelled := by decide +kernel
  obtain ⟨⟨r, watched⟩, hlast, htold⟩ := Option.any_eq_true .. |>.1 htold
  simp only [Bool.and_eq_true, decide_eq_true_eq] at htold
  cases r with
  | error e => cases htold.1
  | ok outcome =>
    have hstopped := (h _ 9 1 _ _ hcall finishEnv outcome watched hlast).stopped _ htold.2 (.inl rfl)
    have hsucceeded : outcome.runStatus = .succeeded := by simpa using htold.1
    rw [hsucceeded] at hstopped
    cases hstopped

end MilpbookLM
