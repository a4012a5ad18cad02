/-
Which calls each part of the executor may make, and from it that no tool is called
that the run does not authorise, whatever the planner proposes and whatever the
tools and the store answer (`tools_authorized`).
-/
import MilpbookLM.Research.Executor

namespace MilpbookLM

open Interleave Prog

/-- A call on the rows of a run, or on the audit log, that begins no step. -/
def ResearchCall.Records : ResearchCall → Prop
  | .listSteps _ | .finishStep .. | .appendEvidence .. | .listEvidence _ | .markPromoted .. | .auditDenied .. => True
  | _ => False

/-- A tool that is called is authorised. -/
def Permitted (config : RunConfig) (c : ResearchCall) : Prop := ∀ tool, c.tool? = some tool → Authorized config tool

theorem permitted_of_none {config : RunConfig} {c : ResearchCall} (h : c.tool? = none) : Permitted config c := by
  intro tool ht
  rw [h] at ht
  cases ht

theorem permitted_records {config : RunConfig} {c : ResearchCall} (h : c.Records) : Permitted config c := by
  cases c <;> first | exact permitted_of_none rfl | exact h.elim

namespace ResearchRunExecutor

/-! ## What a dispatched action calls -/

section Only

variable {S : ResearchCall → Prop} {config : RunConfig} {stepId : Uuid} {action : PlannerAction}

theorem perform_only {c : ResearchCall} (h : S c) : Only S c.perform.run := ⟨h, fun _ => trivial⟩

variable (hrec : ∀ c, ResearchCall.Records c → S c)

include hrec

theorem deny_only {reason tool stepId detail} : Only S (deny config reason tool stepId detail).run := by
  refine Only.bind (perform_only (hrec _ trivial)) fun _ => ?_
  cases stepId with
  | none => exact only_pure ()
  | some stepId => exact perform_only (hrec _ trivial)

theorem recordEvidence_only {tool originLocator summary} :
    Only S (recordEvidence config tool stepId originLocator summary).run := by
  refine Only.bind (perform_only (c := .appendEvidence ..) (hrec _ trivial)) fun _ => ?_
  exact Only.bind (perform_only (hrec _ trivial)) fun _ => only_pure _

theorem importMissing_only : Only S (importMissing stepId).run :=
  Only.bind (perform_only (hrec _ trivial)) fun _ => only_pure _

theorem evidenceById_only {runId evidenceId} : Only S (evidenceById runId evidenceId).run :=
  Only.bind (perform_only (c := .listEvidence _) (hrec _ trivial)) fun _ => only_pure _

theorem dispatchFailed_only {tool e} : Only S (dispatchFailed config stepId tool e).run := by
  cases e with
  | browserUnavailable code detail =>
    refine Only.bind (perform_only (c := .appendEvidence ..) (hrec _ trivial)) fun _ => ?_
    exact Only.bind (perform_only (hrec _ trivial)) fun _ => only_pure _
  | raised => exact Only.bind (perform_only (hrec _ trivial)) fun _ => only_pure _
  | interrupted => exact only_throw _

/-- An action calls its own tool, and records. -/
theorem dispatchAction_only (htool : ∀ c : ResearchCall, c.tool? = some action.tool → S c) :
    Only S (dispatchAction config stepId action).run := by
  cases action with
  | search query =>
    refine Only.bind (perform_only (c := .search query) (htool _ rfl)) fun _ => ?_
    exact Only.bind (recordEvidence_only hrec) fun _ => only_pure _
  | fetch url =>
    refine Only.bind ?_ fun fetched => ?_
    · refine Only.guarded (Only.map (perform_only (htool (.fetch url) rfl))) fun e => ?_
      cases e with
      | interrupted => exact only_throw _
      | browserUnavailable | raised => exact only_pure _
    · cases fetched with
      | error e => exact Only.bind (perform_only (hrec _ trivial)) fun _ => only_pure _
      | ok fetched => exact Only.bind (recordEvidence_only hrec) fun _ => only_pure _
  | browserOpen url =>
    refine Only.bind (perform_only (c := .listSteps _) (hrec _ trivial)) fun steps => ?_
    split
    · exact Only.bind (deny_only hrec) fun _ => only_pure _
    · refine Only.bind (perform_only (c := .browserOpen url) (htool _ rfl)) fun _ => ?_
      exact Only.bind (recordEvidence_only hrec) fun _ => only_pure _
  | browserObserve focus =>
    refine Only.bind (perform_only (c := .browserObserve focus) (htool _ rfl)) fun _ => ?_
    exact Only.bind (recordEvidence_only hrec) fun _ => only_pure _
  | browserInteract gesture selector value =>
    refine Only.bind (perform_only (c := .browserInteract gesture selector value) (htool _ rfl)) fun _ => ?_
    exact Only.bind (recordEvidence_only hrec) fun _ => only_pure _
  | sourceImport evidenceId title =>
    dsimp only [dispatchAction]
    split
    · exact only_throw _
    · refine Only.bind (evidenceById_only hrec) fun target => ?_
      rcases target with _ | ⟨_, _, _, _ | url, _⟩
      · exact importMissing_only hrec
      · exact importMissing_only hrec
      · refine Only.bind (perform_only (c := .importFetched config url title) (htool _ rfl)) fun _ => ?_
        refine Only.bind (perform_only (c := .markPromoted ..) (hrec _ trivial)) fun _ => ?_
        exact Only.bind (perform_only (hrec _ trivial)) fun _ => only_pure _
  | retrieve query =>
    refine Only.bind (perform_only (c := .retrieve config query) (htool _ rfl)) fun _ => ?_
    exact Only.bind (recordEvidence_only hrec) fun _ => only_pure _
  | finish summary => exact only_throw _

theorem importsExceeded_only {tool} : Only S (importsExceeded config tool).run := by
  refine only_ite (fun _ => ?_) fun _ => only_pure _
  refine Only.bind ?_ fun promotions => only_pure _
  exact Only.bind (perform_only (c := .listEvidence _) (hrec _ trivial)) fun _ => only_pure _

theorem planAction_only {priorSteps} (hbegin : ∀ number kind tool, S (.beginStep config.runId number kind tool))
    (hprogress : ∀ phase detail, S (.progress phase detail)) (hnext : ∀ context, S (.nextAction context)) :
    Only S (planAction config priorSteps).run := by
  refine Only.bind (perform_only (hprogress _ _)) fun _ => ?_
  refine Only.bind (perform_only (c := .beginStep ..) (hbegin _ _ _)) fun stepId => ?_
  refine Only.bind ?_ fun planned => ?_
  · refine Only.guarded (Only.map (perform_only (hnext _))) fun e => ?_
    split
    · exact only_pure _
    · exact only_throw _
  · cases planned with
    | error e => exact Only.bind (deny_only hrec) fun _ => only_pure _
    | ok action => exact Only.bind (perform_only (hrec _ trivial)) fun _ => only_pure _

theorem dispatch_only (hbegin : ∀ number kind tool, S (.beginStep config.runId number kind tool))
    (htool : ∀ c : ResearchCall, c.tool? = some action.tool → S c) : Only S (dispatch config action).run := by
  refine Only.bind (perform_only (c := .listSteps _) (hrec _ trivial)) fun steps => ?_
  refine Only.bind (perform_only (c := .beginStep ..) (hbegin _ _ _)) fun stepId => ?_
  exact Only.guarded (dispatchAction_only hrec htool) fun e => dispatchFailed_only hrec

end Only

/-! ## What the loop calls -/

section Permitted

variable {config : RunConfig} {s : LoopState} {action : PlannerAction}

/-- A call of no tool. -/
theorem quiet_only {c : ResearchCall} (h : c.tool? = none) : Only (Permitted config) c.perform.run :=
  perform_only (permitted_of_none h)

theorem fail_permitted {errorCode} : Only (Permitted config) (fail config errorCode).run :=
  Only.bind (quiet_only (c := .casStatus ..) rfl) fun _ => only_pure _

theorem succeed_permitted {summary} : Only (Permitted config) (succeed config summary).run := by
  refine Only.bind (quiet_only (c := .listEvidence _) rfl) fun _ => ?_
  refine Only.bind (quiet_only (c := .casStatus ..) rfl) fun _ => ?_
  exact Only.bind (quiet_only (c := .listSteps _) rfl) fun _ => only_pure _

theorem callTool_permitted (h : Authorized config action.tool) : Only (Permitted config) (callTool config s action).run := by
  have hdispatch : Only (Permitted config) (dispatch config action).run :=
    dispatch_only (fun _ => permitted_records) (fun _ _ _ => permitted_of_none rfl) fun c hc tool ht => by
      rw [hc] at ht
      cases ht
      exact h
  refine only_ite (fun _ => ?_) fun _ => ?_
  · exact Only.bind fail_permitted fun _ => only_pure _
  refine Only.bind (importsExceeded_only fun _ => permitted_records) fun exceeded => ?_
  refine only_ite (fun _ => ?_) fun _ => ?_
  · exact Only.bind fail_permitted fun _ => only_pure _
  refine Only.bind (quiet_only rfl) fun _ => ?_
  refine Only.bind hdispatch fun turn => ?_
  refine Only.bind (quiet_only (c := .listSteps _) rfl) fun steps => ?_
  exact Only.bind (quiet_only rfl) fun _ => only_pure _

theorem actOn_permitted {planned : Option PlannerAction} : Only (Permitted config) (actOn config s planned).run := by
  rcases planned with _ | action
  · exact only_pure _
  cases action with
  | finish summary => exact Only.bind succeed_permitted fun _ => only_pure _
  | _ =>
    simp only [actOn]
    split
    · refine Only.bind (deny_only fun _ => permitted_records) fun _ => ?_
      refine only_ite (fun _ => ?_) fun _ => only_pure _
      exact Only.bind fail_permitted fun _ => only_pure _
    · next hauth => exact callTool_permitted (authorizeToolCall_none.1 hauth)

theorem iteration_permitted : Only (Permitted config) (iteration config s).run := by
  refine Only.bind (quiet_only (c := .getRun _) rfl) fun live => ?_
  cases live with
  | none => exact only_pure _
  | some run =>
    refine only_ite (fun _ => only_pure _) fun _ => ?_
    refine Only.bind (quiet_only (c := .shouldStop) rfl) fun stop => ?_
    refine only_ite (fun _ => only_pure _) fun _ => ?_
    refine Only.bind (quiet_only (c := .listSteps _) rfl) fun priorSteps => ?_
    refine only_ite (fun _ => ?_) fun _ => ?_
    · exact Only.bind fail_permitted fun _ => only_pure _
    · have hplan : Only (Permitted config) (planAction config priorSteps).run :=
        planAction_only (fun _ => permitted_records) (fun _ _ _ => permitted_of_none rfl) (fun _ _ => permitted_of_none rfl)
          fun _ => permitted_of_none rfl
      exact Only.bind hplan fun planned => actOn_permitted

theorem loop_permitted (fuel : Nat) : Only (Permitted config) (loop config fuel s).run := by
  induction fuel generalizing s with
  | zero => exact only_throw _
  | succ fuel ih =>
    refine Only.bind iteration_permitted fun r => ?_
    cases r with
    | inl outcome => exact only_pure _
    | inr s => exact ih

theorem drive_permitted {planned fuel} {run : ResearchRun} :
    Only (Permitted run.toRunConfig) (drive planned fuel run).run := by
  refine only_ite (fun _ => only_pure _) fun _ => ?_
  refine only_ite (fun _ => fail_permitted) fun _ => ?_
  refine Only.bind ?_ fun toolCalls => loop_permitted fuel
  exact Only.bind (quiet_only (c := .listSteps _) rfl) fun _ => only_pure _

end Permitted

end ResearchRunExecutor

/-! ## Every tool call -/

/-- After the calls `t` of an execution: a tool that is called is one that the run
authorises, as the execution read it from the store at its start. -/
def ToolAuthorized (runId : Uuid) (t : List (Σ c, ResearchAnswer c)) (c : ResearchCall) : Prop :=
  ∀ tool, c.tool? = some tool →
    ∃ run : ResearchRun, t.getLast? = some ⟨.getRun runId, .ok (some run)⟩ ∧ Authorized run.toRunConfig tool

open ResearchRunExecutor in
/-- **No tool runs without authorisation**: along every path of an execution, with any
proposals of the planner and any answers of the store and the tools. -/
theorem tools_authorized (planned : RunMode → Bool) (fuel : Nat) (runId : Uuid) :
    Along (fun _ _ => True) (ToolAuthorized runId) (execute planned fuel runId).run (fun _ _ => True) [] := by
  refine Along.seq (x := (ResearchCall.getRun runId).perform) ⟨fun _ ht => (nomatch ht), fun found _ => ?_⟩
  rcases found with e | _ | run
  · trivial
  · trivial
  refine Only.along drive_permitted fun t c ht hc tool htool => ⟨run, ?_, hc tool htool⟩
  obtain ⟨before, rfl⟩ := ht
  simp

end MilpbookLM
