/-
Opening a browser without an approval. What the steps of tool calls tell is known
(`LeftBy`): only a failed fetch tells the URL it asked for, followed by the text of
its exception. The check looks for the URL in it anywhere, and so also finds one that
this text only begins with, or quotes (`automation_same_url_iff`).
-/
import MilpbookLM.Lib.Serial
import MilpbookLM.Research.Authorization

namespace MilpbookLM

open Interleave Prog ResearchRunExecutor

/-! ## What a step tells of its call -/

/-- The step of a call that told nothing yet. -/
def Untold (action : PlannerAction) (step : ResearchStep) : Prop :=
  step.toolName = some action.tool ∧ step.status ≠ .succeeded ∧ step.summary = none

/-- The step of a failed fetch of `url`, with the text of its exception. -/
def ToldFailure (url text : String) (step : ResearchStep) : Prop :=
  step.toolName = some ResearchTool.webFetch.value ∧ step.status = .failed ∧ step.summary = some (fetchFailure url text)

/-- A step that a call of the action leaves, at its end or where it was stopped. -/
def LeftBy (action : PlannerAction) (step : ResearchStep) : Prop :=
  Untold action step ∨ step.toolName = some action.tool ∧ step.status = .succeeded ∨
    ∃ url text, action = .fetch url ∧ ToldFailure url text step

/-- An action, and the step of its call. -/
structure ToolRecord where
  action : PlannerAction
  step : ResearchStep
  left : LeftBy action step

/-- It is a fetch that requested `url` and failed. -/
def ToolRecord.FailedFetch (r : ToolRecord) (url : String) : Prop := r.action = .fetch url ∧ r.step.status = .failed

/-! ### Every call leaves such a step -/

/-- Others leave the steps of the run as they are. -/
def SameSteps (runId : Uuid) (w w' : ResearchWorld) : Prop := ∀ s, s.runId = runId → (s ∈ w'.steps ↔ s ∈ w.steps)

/-- The steps of the run are some of those before, and the step `stepId`, of which `P` holds. -/
def StepsAnd (runId stepId : Uuid) (before : List ResearchStep) (P : ResearchStep → Prop) (w : ResearchWorld) : Prop :=
  ∀ s ∈ w.steps, s.runId = runId → s ∈ before ∧ s.stepId ≠ stepId ∨ s.stepId = stepId ∧ P s

/-- A call that writes no step. -/
def ResearchCall.WritesNoStep : ResearchCall → Prop
  | .beginStep .. | .finishStep .. => False
  | _ => True

theorem steps_exec {c : ResearchCall} {env : ResearchEnv} {w : ResearchWorld} (h : c.WritesNoStep) :
    (c.exec env w).2.steps = w.steps := by
  cases hr : env.raises with
  | some e => simp only [ResearchCall.exec, hr]
  | none =>
    simp only [ResearchCall.exec, hr]
    cases c with
    | beginStep | finishStep => exact h.elim
    | casStatus =>
      simp only [ResearchCall.effect, ResearchWorld.casStatus]
      split
      · rfl
      · split <;> rfl
    | appendEvidence =>
      simp only [ResearchCall.effect, ResearchWorld.appendEvidence]
      split <;> rfl
    | _ => rfl

section Steps

variable {α : Type} {config : RunConfig} {action : PlannerAction} {runId stepId : Uuid} {before : List ResearchStep}
  {P P' : ResearchStep → Prop} {cond : ResearchCall → ResearchEnv → ResearchWorld → Prop}
  {inv : ResearchWorld → Prop} {w w' : ResearchWorld}

theorem StepsAnd.mono (h : StepsAnd runId stepId before P w) (hP : ∀ s, P s → P' s) :
    StepsAnd runId stepId before P' w := by
  intro s hs hr
  exact (h s hs hr).imp_right fun ⟨hid, hp⟩ => ⟨hid, hP s hp⟩

theorem SameSteps.stepsAnd (hr : SameSteps runId w w') (h : StepsAnd runId stepId before P w) :
    StepsAnd runId stepId before P w' :=
  fun s hs hrun => h s ((hr s hrun).1 hs) hrun

/-- Finishing the step changes it alone. -/
theorem StepsAnd.finish {status summary errorCode evidenceId} (h : StepsAnd runId stepId before P w)
    (hP : ∀ s, P s → P' (ResearchWorld.finishedStep status summary errorCode evidenceId s)) :
    StepsAnd runId stepId before P' (w.finishStep stepId status summary errorCode evidenceId) := by
  intro s hs hr
  rcases Table.mem_update hs with ⟨hmem, hne⟩ | ⟨old, hold, hid, rfl⟩
  · rcases h s hmem hr with hbefore | ⟨hid, -⟩
    · exact .inl hbefore
    · exact absurd hid (by simpa using hne)
  · have hid : old.stepId = stepId := by simpa using hid
    rcases h old hold hr with ⟨-, hne⟩ | ⟨-, hp⟩
    · exact absurd hid hne
    · exact .inr ⟨hid, hP old hp⟩

/-- A part of the call: `R` holds of the step where it returns, `F` where it raises. -/
abbrev TellsOf (runId stepId : Uuid) (before : List ResearchStep)
    (cond : ResearchCall → ResearchEnv → ResearchWorld → Prop) (inv : ResearchWorld → Prop) (x : ResearchProgram α)
    (R F : ResearchStep → Prop) (w : ResearchWorld) : Prop :=
  Leaves (fun c env w => c.exec env w) (SameSteps runId) cond inv x (fun _ => StepsAnd runId stepId before R)
    (StepsAnd runId stepId before F) w

theorem call_tells {c : ResearchCall} (hc : c.WritesNoStep) (hinv : ∀ w, StepsAnd runId stepId before P w → inv w)
    (hw : StepsAnd runId stepId before P w) : TellsOf runId stepId before cond inv c.perform P P w := by
  refine Only.leaves (perform_only (S := ResearchCall.WritesNoStep) hc) hw hinv (fun _ _ => SameSteps.stepsAnd) ?_
  intro c env w hc hw
  simpa only [StepsAnd, steps_exec hc] using hw

theorem finish_tells {status summary errorCode evidenceId}
    (hP : ∀ s, P s → P' (ResearchWorld.finishedStep status summary errorCode evidenceId s))
    (hinv : ∀ w, StepsAnd runId stepId before P w → inv w) (hinv' : ∀ w, StepsAnd runId stepId before P' w → inv w)
    (hw : StepsAnd runId stepId before P w) :
    TellsOf runId stepId before cond inv (ResearchCall.finishStep stepId status summary errorCode evidenceId).perform
      P' P w := by
  refine ⟨hinv w hw, fun w₀ env hr _ => ?_⟩
  have hw₀ := hr.stepsAnd hw
  cases hraise : env.raises with
  | some e =>
    simp only [ResearchCall.exec, hraise]
    exact ⟨hinv _ hw₀, hw₀⟩
  | none =>
    simp only [ResearchCall.exec, hraise]
    exact ⟨hinv' _ (hw₀.finish hP), hw₀.finish hP⟩

end Steps

section Dispatch

variable {config : RunConfig} {action : PlannerAction} {stepId : Uuid} {before : List ResearchStep}
  {cond : ResearchCall → ResearchEnv → ResearchWorld → Prop} {inv : ResearchWorld → Prop} {w : ResearchWorld}


/-- A step that failed and told nothing still tells nothing. -/
theorem untold_failed {errorCode evidenceId} (step : ResearchStep) (h : Untold action step) :
    Untold action (ResearchWorld.finishedStep .failed none errorCode evidenceId step) :=
  ⟨h.1, by simp [ResearchWorld.finishedStep], h.2.2⟩

theorem untold_succeeded {summary errorCode evidenceId} (step : ResearchStep) (h : Untold action step) :
    LeftBy action (ResearchWorld.finishedStep .succeeded summary errorCode evidenceId step) :=
  .inr (.inl ⟨h.1, rfl⟩)

variable (hinv : ∀ w, StepsAnd config.runId stepId before (LeftBy action) w → inv w)

include hinv

theorem untold_inv (w : ResearchWorld) (hw : StepsAnd config.runId stepId before (Untold action) w) : inv w :=
  hinv w (hw.mono fun _ => .inl)

theorem failed_tells {errorCode evidenceId} (hw : StepsAnd config.runId stepId before (Untold action) w) :
    TellsOf config.runId stepId before cond inv
      (ResearchCall.finishStep stepId .failed none errorCode evidenceId).perform (LeftBy action) (Untold action) w :=
  finish_tells (fun s hs => .inl (untold_failed s hs)) (untold_inv hinv) hinv hw

theorem recordEvidence_tells {tool originLocator summary} (hw : StepsAnd config.runId stepId before (Untold action) w) :
    TellsOf config.runId stepId before cond inv (recordEvidence config tool stepId originLocator summary)
      (LeftBy action) (Untold action) w := by
  refine Leaves.bind (call_tells (c := .appendEvidence ..) trivial (untold_inv hinv) hw) fun evidence w _ hw => ?_
  refine Leaves.bind (finish_tells untold_succeeded (untold_inv hinv) hinv hw) fun _ w hi hw => ?_
  exact leaves_pure hi hw

theorem dispatchFailed_tells {tool e} (hw : StepsAnd config.runId stepId before (Untold action) w) :
    TellsOf config.runId stepId before cond inv (dispatchFailed config stepId tool e) (LeftBy action)
      (Untold action) w := by
  have huntold := untold_inv hinv
  cases e with
  | browserUnavailable code detail =>
    refine Leaves.bind (call_tells (c := .appendEvidence ..) trivial huntold hw) fun evidence w _ hw => ?_
    exact Leaves.bind (failed_tells hinv hw) fun _ w hi hw => leaves_pure hi hw
  | raised => exact Leaves.bind (failed_tells hinv hw) fun _ w hi hw => leaves_pure hi hw
  | interrupted => exact leaves_throw (huntold w hw) hw

theorem dispatchAction_tells (hw : StepsAnd config.runId stepId before (Untold action) w) :
    TellsOf config.runId stepId before cond inv (dispatchAction config stepId action) (LeftBy action) (Untold action) w := by
  have huntold := untold_inv hinv
  have hrecord {tool originLocator summary} {f : String → ToolTurn} {w}
      (hw : StepsAnd config.runId stepId before (Untold action) w) : TellsOf config.runId stepId before cond inv
        (do return f (← recordEvidence config tool stepId originLocator summary)) (LeftBy action) (Untold action) w :=
    Leaves.bind (recordEvidence_tells hinv hw) fun _ w hi hw => leaves_pure hi hw
  have hmissing {w} (hw : StepsAnd config.runId stepId before (Untold action) w) :
      TellsOf config.runId stepId before cond inv (importMissing stepId) (LeftBy action) (Untold action) w :=
    Leaves.bind (failed_tells hinv hw) fun _ w hi hw => leaves_pure hi hw
  cases action with
  | search query =>
    exact Leaves.bind (call_tells (c := .search query) trivial huntold hw) fun hits w _ hw => hrecord hw
  | fetch url =>
    refine Leaves.bind (R := fun _ => StepsAnd config.runId stepId before (Untold (.fetch url))) ?_ fun fetched w _ hw => ?_
    · refine Leaves.guarded (Leaves.map (call_tells (c := .fetch url) trivial huntold hw)) fun e w hi hw => ?_
      cases e with
      | interrupted => exact leaves_throw hi hw
      | browserUnavailable | raised => exact leaves_pure hi hw
    · cases fetched with
      | error e =>
        refine Leaves.bind (finish_tells ?_ huntold hinv hw) fun _ w hi hw => leaves_pure hi hw
        exact fun s hs => .inr (.inr ⟨url, e.text, rfl, hs.1, rfl, rfl⟩)
      | ok fetched => exact hrecord hw
  | browserOpen url =>
    refine Leaves.bind (call_tells (c := .listSteps _) trivial huntold hw) fun steps w _ hw => ?_
    split
    · refine Leaves.bind ?_ fun _ w hi hw => leaves_pure hi hw
      exact Leaves.bind (call_tells (c := .auditDenied ..) trivial huntold hw) fun _ w _ hw =>
        failed_tells hinv hw
    · exact Leaves.bind (call_tells (c := .browserOpen url) trivial huntold hw) fun pageUrl w _ hw => hrecord hw
  | browserObserve focus =>
    exact Leaves.bind (call_tells (c := .browserObserve focus) trivial huntold hw) fun pageUrl w _ hw => hrecord hw
  | browserInteract gesture selector value =>
    exact Leaves.bind (call_tells (c := .browserInteract gesture selector value) trivial huntold hw)
      fun pageUrl w _ hw => hrecord hw
  | sourceImport evidenceId title =>
    dsimp only [dispatchAction]
    split
    · exact leaves_throw (huntold w hw) hw
    · refine Leaves.bind (R := fun _ => StepsAnd config.runId stepId before (Untold (.sourceImport evidenceId title)))
        ?_ fun target w _ hw => ?_
      · exact Leaves.bind (call_tells (c := .listEvidence _) trivial huntold hw) fun rows w hi hw => leaves_pure hi hw
      rcases target with _ | ⟨_, _, _, _ | url, _⟩
      · exact hmissing hw
      · exact hmissing hw
      refine Leaves.bind (call_tells (c := .importFetched config url title) trivial huntold hw) fun version w _ hw => ?_
      refine Leaves.bind (call_tells (c := .markPromoted ..) trivial huntold hw) fun _ w _ hw => ?_
      exact Leaves.bind (finish_tells untold_succeeded huntold hinv hw) fun _ w hi hw => leaves_pure hi hw
  | retrieve query =>
    exact Leaves.bind (call_tells (c := .retrieve config query) trivial huntold hw) fun chunks w _ hw => hrecord hw
  | finish summary => exact leaves_throw (huntold w hw) hw

end Dispatch

/-- The steps of the run are those there were, and what the call leaves. -/
def LeavesOneStep (config : RunConfig) (action : PlannerAction) (before w : ResearchWorld) : Prop :=
  ∀ s ∈ w.steps, s.runId = config.runId → s ∈ before.steps ∨ LeftBy action s

/-- **What a call leaves**: at its end or where it is stopped, whatever its calls come to. -/
theorem dispatch_tells {config : RunConfig} {action : PlannerAction} {w : ResearchWorld} :
    Leaves (fun c env w => c.exec env w) (SameSteps config.runId) (fun _ _ _ => True)
      (LeavesOneStep config action w) (dispatch config action) (fun _ _ => True) (fun _ => True) w := by
  have hsame {w'} (hr : SameSteps config.runId w w') : LeavesOneStep config action w w' :=
    fun s hs hrun => .inl ((hr s hrun).1 hs)
  have hleft {stepId w'} (hw : StepsAnd config.runId stepId w.steps (LeftBy action) w') :
      LeavesOneStep config action w w' :=
    fun s hs hrun => (hw s hs hrun).imp And.left And.right
  have htrans {w' w''} (h : SameSteps config.runId w w') (h' : SameSteps config.runId w' w'') :
      SameSteps config.runId w w'' :=
    fun s hrun => (h' s hrun).trans (h s hrun)
  refine Leaves.bind (R := fun _ => SameSteps config.runId w) ?_ fun steps w₁ _ hw₁ => ?_
  · refine Leaves.mono (Only.leaves (perform_only (S := ResearchCall.WritesNoStep) trivial) (fun _ _ => Iff.rfl)
      (fun _ => hsame) (fun _ _ hr hw => htrans hw hr) ?_) (fun _ _ _ h => h) fun _ _ _ => trivial
    intro c env w' hc hw
    exact htrans hw fun s _ => by rw [steps_exec hc]
  refine Leaves.bind (R := fun stepId => StepsAnd config.runId stepId w.steps (Untold action)) ?_ fun stepId w₂ _ hw₂ => ?_
  · refine ⟨hsame hw₁, fun w₂ env hr _ => ?_⟩
    have hw₂ := htrans hw₁ hr
    cases hraise : env.raises with
    | some e =>
      simp only [ResearchCall.exec, hraise]
      exact ⟨hsame hw₂, trivial⟩
    | none =>
      simp only [ResearchCall.exec, hraise, ResearchCall.effect, ResearchWorld.insertStep]
      split
      · exact ⟨hsame hw₂, trivial⟩
      · next hnew =>
        have hbegun : StepsAnd config.runId env.newId w.steps (Untold action)
            { w₂ with steps := w₂.steps ++ [
              { stepId := env.newId, runId := config.runId, stepNumber := steps.length + 1
                stepKind := kindByTool action, toolName := some action.tool }] } := by
          intro s hs hrun
          rcases List.mem_append.1 hs with hold | hlast
          · refine .inl ⟨(hw₂ s hrun).1 hold, fun hid => hnew (List.any_eq_true.2 ⟨s, hold, ?_⟩)⟩
            simp [hid]
          · obtain rfl := List.mem_singleton.1 hlast
            exact .inr ⟨rfl, rfl, by simp, rfl⟩
        exact ⟨hleft (hbegun.mono fun _ => .inl), hbegun⟩
  · refine (Leaves.guarded (dispatchAction_tells (fun _ => hleft) hw₂) fun e w _ hw =>
      dispatchFailed_tells (fun _ => hleft) hw).mono (fun _ _ _ _ => trivial) fun _ _ _ => trivial

/-! ## The search -/

/-- `url` is found in what the failed fetch of `requested` tells: its text begins with it, or quotes it. -/
def Mentions (url requested text : String) : Prop :=
  url.toList <+: (requested ++ ": " ++ text).toList ∨
    ("fetch failed for " ++ url).toList <:+: (requested ++ ": " ++ text).toList

/-- "fetch failed for " occurs in itself only where it begins. -/
theorem marker_infix {url text : List Char} :
    "fetch failed for ".toList ++ url <:+: "fetch failed for ".toList ++ text ↔
      url <+: text ∨ "fetch failed for ".toList ++ url <:+: text := by
  rw [show "fetch failed for ".toList =
    ['f', 'e', 't', 'c', 'h', ' ', 'f', 'a', 'i', 'l', 'e', 'd', ' ', 'f', 'o', 'r', ' '] from rfl]
  generalize hmark :
    ['f', 'e', 't', 'c', 'h', ' ', 'f', 'a', 'i', 'l', 'e', 'd', ' ', 'f', 'o', 'r', ' '] ++ url = marker
  simp only [List.cons_append, List.nil_append, List.infix_cons_iff]
  subst hmark
  simp [List.cons_prefix_cons]

theorem occursIn_fetchFailure {url requested text : String} :
    occursIn ("fetch failed for " ++ url) (fetchFailure requested text) = true ↔ Mentions url requested text := by
  have hmark : ("fetch failed for " ++ url).toList = "fetch failed for ".toList ++ url.toList := String.toList_append
  have htext : (fetchFailure requested text).toList =
      "fetch failed for ".toList ++ (requested ++ ": " ++ text).toList := String.toList_append
  rw [occursIn, decide_eq_true_eq, Mentions, hmark, htext]
  exact marker_infix

/-- The check passes where the turn of a step has the marker. -/
theorem denial_none {approvedTools : List String} {steps : List ResearchStep} {url : String}
    (h : ResearchTool.browserOpen.value ∉ approvedTools) :
    browserAutomationDenial approvedTools (turnsFrom steps) url = none ↔
      ∃ step ∈ steps, step.toolName = some ResearchTool.webFetch.value ∧ step.status ≠ .succeeded ∧
        occursIn ("fetch failed for " ++ url) (step.summary.getD "") = true := by
  simp only [browserAutomationDenial, if_neg h]
  split
  · next hany =>
    refine ⟨fun _ => ?_, fun _ => rfl⟩
    obtain ⟨turn, hturn, htold⟩ := List.any_eq_true.1 hany
    simp only [turnsFrom, List.mem_filterMap, Option.map_eq_some_iff] at hturn
    obtain ⟨step, hstep, tool, htool, rfl⟩ := hturn
    simp only [Bool.and_eq_true, decide_eq_true_eq, Bool.not_eq_true', decide_eq_false_iff_not] at htold
    exact ⟨step, hstep, htool.trans (by rw [htold.1.1]), htold.1.2, htold.2⟩
  · next hany =>
    refine ⟨fun h => (nomatch h), ?_⟩
    rintro ⟨step, hstep, htool, hstatus, htold⟩
    refine absurd (List.any_eq_true.2 ?_) hany
    refine ⟨⟨ResearchTool.webFetch.value, false, step.errorCode, step.summary.getD "", step.evidenceId.map Uuid.str⟩,
      List.mem_filterMap.2 ⟨step, hstep, ?_⟩, ?_⟩
    · simp [htool, hstatus]
    · simpa using htold

/-- The marker is found only in what a failed fetch told. -/
theorem LeftBy.failure {action : PlannerAction} {step : ResearchStep} {url : String} (h : LeftBy action step)
    (hstatus : step.status ≠ .succeeded)
    (hmark : occursIn ("fetch failed for " ++ url) (step.summary.getD "") = true) :
    ∃ requested text, action = .fetch requested ∧ ToldFailure requested text step ∧ Mentions url requested text := by
  rcases h with ⟨-, -, hnone⟩ | ⟨-, hsucc⟩ | ⟨requested, text, rfl, htold⟩
  · rw [hnone, occursIn, decide_eq_true_eq] at hmark
    simp [List.infix_nil] at hmark
  · exact absurd hsucc hstatus
  · refine ⟨requested, text, rfl, htold, ?_⟩
    rwa [htold.2.2, Option.getD_some, occursIn_fetchFailure] at hmark

/-- **The same URL**: a page may be opened without an approval only where a fetch of
exactly its URL failed, if and only if one did, or no failed fetch mentions the URL. -/
theorem automation_same_url_iff {approvedTools : List String} (h : ResearchTool.browserOpen.value ∉ approvedTools)
    (history : List ToolRecord) (url : String) :
    (browserAutomationDenial approvedTools (turnsFrom (history.map (·.step))) url = none →
        ∃ r ∈ history, r.FailedFetch url) ↔
      (∃ r ∈ history, r.FailedFetch url) ∨
        ∀ r ∈ history, ∀ requested text, r.action = .fetch requested → ToldFailure requested text r.step →
          ¬ Mentions url requested text := by
  rw [denial_none h]
  constructor
  · intro hsame
    by_cases hfailed : ∃ r ∈ history, r.FailedFetch url
    · exact .inl hfailed
    · refine .inr fun r hr requested text _ htold hmention => hfailed (hsame ?_)
      refine ⟨r.step, List.mem_map_of_mem hr, htold.1, by simp [htold.2.1], ?_⟩
      rwa [htold.2.2, Option.getD_some, occursIn_fetchFailure]
  · rintro hcond ⟨step, hstep, -, hstatus, hmark⟩
    obtain ⟨r, hr, rfl⟩ := List.mem_map.1 hstep
    obtain ⟨requested, text, haction, htold, hmention⟩ := r.left.failure hstatus hmark
    rcases hcond with hfailed | hnone
    · exact hfailed
    · exact absurd hmention (hnone r hr requested text haction htold)

/-- The record of a failed fetch. -/
def failedFetch (url text : String) : ToolRecord where
  action := .fetch url
  step :=
    { stepId := 1, runId := 2, stepNumber := 2, stepKind := "fetch", toolName := some ResearchTool.webFetch.value
      status := .failed, summary := some (fetchFailure url text), errorCode := some "HTTPError" }
  left := .inr (.inr ⟨url, text, rfl, rfl, rfl, rfl⟩)

/-- A fetch of the page itself failed. -/
theorem automation_same_url_failed :
    browserAutomationDenial [] (turnsFrom [(failedFetch "https://rivers.org" "404").step]) "https://rivers.org" = none ∧
      ∃ r ∈ [failedFetch "https://rivers.org" "404"], r.FailedFetch "https://rivers.org" := by
  have hnone : browserAutomationDenial [] (turnsFrom [(failedFetch "https://rivers.org" "404").step])
      "https://rivers.org" = none := by decide +kernel
  exact ⟨hnone, (automation_same_url_iff (by simp) [failedFetch "https://rivers.org" "404"] "https://rivers.org").2
    (.inl ⟨_, List.mem_singleton_self _, rfl, rfl⟩) hnone⟩

/-- A page below it failed, and the page that was never asked for may be opened. -/
theorem automation_other_url :
    ¬ ∀ (approvedTools : List String) (history : List ToolRecord) (url : String),
      ResearchTool.browserOpen.value ∉ approvedTools →
      browserAutomationDenial approvedTools (turnsFrom (history.map (·.step))) url = none →
        ∃ r ∈ history, r.FailedFetch url := by
  intro h
  obtain ⟨r, hr, haction, -⟩ := h [] [failedFetch "https://rivers.org/delta" "404"] "https://rivers.org" (by simp)
    (by decide +kernel)
  rw [List.mem_singleton.1 hr] at haction
  simp [failedFetch] at haction

end MilpbookLM
