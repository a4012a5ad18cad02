/-
That an execution goes through the phases of the orchestration: it enters its loop on
a read of a running run, leaves it on a read of any other, on a stop or on the
transition that ends the run, and has left it when it returns (`execute_phases`).
-/
import MilpbookLM.Research.Authorization

namespace MilpbookLM

open Interleave Prog

inductive LoopPhase
  | opening | inside | left
  deriving DecidableEq

/-- Where the executor is after these calls and their answers, the latest first. -/
def loopPhase : List (Σ c, ResearchAnswer c) → LoopPhase
  | [] => .opening
  | ⟨.getRun _, answer⟩ :: _ =>
    match answer with
    | .ok (some (run : ResearchRun)) => if run.status = .running then .inside else .left
    | _ => .left
  | ⟨.shouldStop, answer⟩ :: t =>
    match answer with
    | .ok (true : Bool) => .left
    | _ => loopPhase t
  | ⟨.casStatus .., _⟩ :: _ => .left
  | _ :: t => loopPhase t

/-- The calls of an executor that read or move its run, or ask whether to stop. -/
def InPhase (runId : Uuid) (t : List (Σ c, ResearchAnswer c)) : ResearchCall → Prop
  | .getRun id => id = runId ∧ loopPhase t ≠ .left
  | .shouldStop => loopPhase t = .inside
  | .casStatus id expected target _ =>
    id = runId ∧ expected = .running ∧ (target = .succeeded ∨ target = .failed) ∧ loopPhase t = .inside
  | _ => True

/-- The row of a key has it. -/
def RunRead : (c : ResearchCall) → ResearchAnswer c → Prop
  | .getRun runId, answer => ∀ run : ResearchRun, answer = .ok (some run) → run.runId = runId
  | _, _ => True

theorem runRead_exec (env : ResearchEnv) (c : ResearchCall) (w : ResearchWorld) : RunRead c (c.exec env w).1 := by
  cases c with
  | getRun runId =>
    intro run h
    simp only [ResearchCall.exec] at h
    split at h
    · cases h
    · exact (Table.lookup_some (Except.ok.inj h)).2
  | _ => trivial

/-- A call of none of these. -/
def ResearchCall.Quiet : ResearchCall → Prop
  | .getRun _ | .shouldStop | .casStatus .. => False
  | _ => True

namespace ResearchRunExecutor

variable {config : RunConfig} {runId : Uuid} {s : LoopState} {α : Type} {t : List (Σ c, ResearchAnswer c)}
  {phase : LoopPhase}

/-- Along every path the executor keeps to its phases, and is as `R` says where the program returns. -/
abbrev Phases (runId : Uuid) (x : ResearchProgram α) (R : α → List (Σ c, ResearchAnswer c) → Prop)
    (t : List (Σ c, ResearchAnswer c)) : Prop :=
  Ensures RunRead (InPhase runId) x R t

theorem quiet_records {c : ResearchCall} (h : c.Records) : c.Quiet := by cases c <;> trivial

theorem quiet_phases {x : ResearchProgram α} (hx : Only ResearchCall.Quiet x.run) (ht : loopPhase t = phase) :
    Phases runId x (fun _ t => loopPhase t = phase) t := by
  refine (Only.keeps (I := fun t => loopPhase t = phase) hx ht (fun t c _ hc => ?_) fun t c r ht hc => ?_).mono
    fun _ _ ht _ _ => ht
  · cases c with
    | getRun | casStatus | shouldStop => exact hc.elim
    | _ => trivial
  · cases c with
    | getRun | casStatus | shouldStop => exact hc.elim
    | _ => exact ht

/-- A call of its own; the executor is in a phase the answer decides. -/
theorem perform_phases {c : ResearchCall} {R : ResearchResult c → List (Σ c, ResearchAnswer c) → Prop}
    (hok : InPhase runId t c) (hR : ∀ a, RunRead c (.ok a) → R a (⟨c, .ok a⟩ :: t)) : Phases runId c.perform R t := by
  refine ⟨hok, fun r hr a ha => ?_⟩
  cases ha
  exact hR a hr

theorem fail_phases {errorCode : String} (ht : loopPhase t = .inside) :
    Phases config.runId (fail config errorCode) (fun _ t => loopPhase t = .left) t := by
  refine Ensures.bind (R := fun _ t => loopPhase t = .left) ?_ fun _ _ _ ht => ensures_pure ht
  exact perform_phases ⟨rfl, rfl, .inr rfl, ht⟩ fun _ _ => rfl

theorem succeed_phases {summary : String} (ht : loopPhase t = .inside) :
    Phases config.runId (succeed config summary) (fun _ t => loopPhase t = .left) t := by
  refine (quiet_phases (perform_only (c := .listEvidence _) trivial) ht).bind fun rows t _ ht => ?_
  refine Ensures.bind (R := fun _ t => loopPhase t = .left) ?_ fun _ t _ ht => ?_
  · exact perform_phases ⟨rfl, rfl, .inl rfl, ht⟩ fun _ _ => rfl
  · exact (quiet_phases (perform_only (c := .listSteps _) trivial) ht).bind fun _ _ _ ht => ensures_pure ht

/-! ## The loop -/

/-- Where the executor is when an iteration is over. -/
def AfterIteration : ExecutorOutcome ⊕ LoopState → List (Σ c, ResearchAnswer c) → Prop
  | .inl _, t => loopPhase t = .left
  | .inr _, t => loopPhase t = .inside

/-- An iteration that ends on a failure of the run. -/
theorem fail_iteration {errorCode : String} (ht : loopPhase t = .inside) :
    Phases config.runId (do return .inl (← fail config errorCode)) AfterIteration t :=
  (fail_phases ht).bind fun _ _ _ ht => ensures_pure ht

theorem callTool_phases {action : PlannerAction} (haction : ∀ c : ResearchCall, c.tool? = some action.tool → c.Quiet)
    (ht : loopPhase t = .inside) : Phases config.runId (callTool config s action) AfterIteration t := by
  have hrec (c : ResearchCall) (h : c.Records) := quiet_records h
  refine ensures_ite (fun _ => fail_iteration ht) fun _ => ?_
  refine (quiet_phases (importsExceeded_only hrec) ht).bind fun exceeded t _ ht => ?_
  refine ensures_ite (fun _ => fail_iteration ht) fun _ => ?_
  refine (quiet_phases (perform_only (c := .progress ..) trivial) ht).bind fun _ t _ ht => ?_
  refine (quiet_phases (dispatch_only hrec (fun _ _ _ => trivial) haction) ht).bind fun turn t _ ht => ?_
  refine (quiet_phases (perform_only (c := .listSteps _) trivial) ht).bind fun steps t _ ht => ?_
  exact (quiet_phases (perform_only (c := .checkpoint _) trivial) ht).bind fun _ _ _ ht => ensures_pure ht

theorem quiet_tool {c : ResearchCall} {tool : String} (h : c.tool? = some tool) : c.Quiet := by
  cases c with
  | getRun | casStatus | shouldStop => cases h
  | _ => trivial

theorem actOn_phases {planned : Option PlannerAction} (ht : loopPhase t = .inside) :
    Phases config.runId (actOn config s planned) AfterIteration t := by
  rcases planned with _ | action
  · exact ensures_pure ht
  cases action with
  | finish summary => exact (succeed_phases ht).bind fun _ _ _ ht => ensures_pure ht
  | _ =>
    simp only [actOn]
    split
    · refine (quiet_phases (deny_only fun _ => quiet_records) ht).bind fun _ t _ ht => ?_
      exact ensures_ite (fun _ => fail_iteration ht) fun _ => ensures_pure ht
    · exact callTool_phases (fun _ => quiet_tool) ht

theorem iteration_phases (ht : loopPhase t = .inside) : Phases config.runId (iteration config s) AfterIteration t := by
  have hread : InPhase config.runId t (.getRun config.runId) := ⟨rfl, by rw [ht]; nofun⟩
  refine Ensures.bind (perform_phases (R := fun live t => ∃ u, t = ⟨.getRun config.runId, .ok live⟩ :: u) hread
    fun _ _ => ⟨_, rfl⟩) fun live t _ hlive => ?_
  obtain ⟨u, rfl⟩ := hlive
  rcases live with _ | run
  · exact ensures_pure rfl
  by_cases hrun : run.status = .running
  swap
  · simp only [hrun, ne_eq, not_false_eq_true, if_true]
    exact ensures_pure (if_neg hrun)
  have hinside : loopPhase (⟨.getRun config.runId, .ok (some run)⟩ :: u) = .inside := if_pos hrun
  refine ensures_ite (fun h => absurd hrun h) fun _ => ?_
  refine Ensures.bind (perform_phases (c := .shouldStop)
    (R := fun (stop : Bool) t => loopPhase t = if stop then .left else .inside) hinside ?_) fun stop t _ hstop => ?_
  · intro stop _
    cases stop with
    | true => rfl
    | false => exact hinside
  cases stop with
  | true => exact ensures_pure hstop
  | false =>
    refine (quiet_phases (perform_only (c := .listSteps _) trivial) hstop).bind fun priorSteps t _ ht => ?_
    refine ensures_ite (fun _ => fail_iteration ht) fun _ => ?_
    refine (quiet_phases (planAction_only (fun _ => quiet_records) (fun _ _ _ => trivial) (fun _ _ => trivial)
      fun _ => trivial) ht).bind fun planned t _ ht => ?_
    exact actOn_phases ht

theorem loop_phases (fuel : Nat) (ht : loopPhase t = .inside) :
    Phases config.runId (loop config fuel s) (fun _ t => loopPhase t = .left) t := by
  induction fuel generalizing s t with
  | zero => exact ensures_throw
  | succ fuel ih =>
    refine (iteration_phases ht).bind fun r t _ hr => ?_
    cases r with
    | inl outcome => exact ensures_pure hr
    | inr s => exact ih hr

theorem drive_phases {planned : RunMode → Bool} {fuel : Nat} {run : ResearchRun}
    (ht : loopPhase t = if run.status = .running then .inside else .left) :
    Phases run.runId (drive planned fuel run) (fun _ t => loopPhase t = .left) t := by
  by_cases hrun : run.status = .running
  · rw [if_pos hrun] at ht
    refine ensures_ite (fun h => absurd hrun h) fun _ => ?_
    refine ensures_ite (fun _ => fail_phases ht) fun _ => ?_
    refine (quiet_phases (x := countToolSteps run.runId) ?_ ht).bind fun toolCalls t _ ht => ?_
    · exact Only.bind (perform_only (c := .listSteps _) trivial) fun _ => only_pure _
    · exact loop_phases fuel ht
  · rw [if_neg hrun] at ht
    exact ensures_ite (fun _ => ensures_pure ht) fun h => absurd hrun h

end ResearchRunExecutor

open ResearchRunExecutor in
/-- **An execution goes through the phases**: it moves its run, and asks whether to stop, inside its
loop only, and has left the loop when it returns. -/
theorem execute_phases (planned : RunMode → Bool) (fuel : Nat) (runId : Uuid) :
    Ensures RunRead (InPhase runId) (execute planned fuel runId) (fun _ t => loopPhase t = .left) [] := by
  refine Ensures.bind (perform_phases (c := .getRun runId)
    (R := fun found t => t = [⟨.getRun runId, .ok found⟩] ∧ RunRead (.getRun runId) (.ok found)) ⟨rfl, nofun⟩
    fun _ h => ⟨rfl, h⟩) fun found t _ hfound => ?_
  obtain ⟨rfl, hread⟩ := hfound
  rcases found with _ | run
  · exact ensures_throw
  · obtain rfl : run.runId = runId := hread run rfl
    exact drive_phases rfl

end MilpbookLM
