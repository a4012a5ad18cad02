/-
The executor of a research run (`ResearchRunExecutor.execute`), a program over the
calls of `ResearchCall`: it asks the planner for an action until the run ends or
stops running, authorises each, and dispatches it to its tool. The loop runs on
fuel; where that is spent the program ends as one whose process was stopped.
-/
import MilpbookLM.Research.Store

namespace MilpbookLM

open Interleave

abbrev ResearchProgram (α : Type) := ExceptT ResearchError (Prog ResearchCall ResearchAnswer) α

/-- The program that makes one call. -/
def ResearchCall.perform (c : ResearchCall) : ResearchProgram (ResearchResult c) := ExceptT.mk (Prog.perform c)

structure ExecutorOutcome where
  runStatus : ResearchRunStatus
  stepsExecuted : Nat
  evidenceAppended : Nat

namespace ResearchRunExecutor

/-- `_KIND_BY_TOOL`. -/
def kindByTool : PlannerAction → String
  | .search _ => "search"
  | .fetch _ => "fetch"
  | .browserOpen _ | .browserObserve _ | .browserInteract .. => "browser"
  | .sourceImport .. => "import"
  | .retrieve _ => "retrieve"
  | .finish _ => ""

/-- `_PHASE_BY_TOOL`. -/
def phaseByTool : PlannerAction → String
  | .search _ => "searching"
  | .fetch _ => "reading"
  | .sourceImport .. => "importing"
  | .retrieve _ => "retrieving"
  | _ => "executing tool"

/-- `_turns_from`. -/
def turnsFrom (steps : List ResearchStep) : List ToolTurn :=
  steps.filterMap fun step => step.toolName.map fun tool =>
    { tool
      ok := step.status = .succeeded
      refusalCode := step.errorCode
      summary := step.summary.getD ""
      evidenceId := step.evidenceId.map Uuid.str }

/-! ## Records -/

/-- `_deny`. -/
def deny (config : RunConfig) (reason tool : String) (stepId : Option Uuid) (detail : Option ActionParseError) :
    ResearchProgram Unit := do
  (ResearchCall.auditDenied config tool reason detail).perform
  match stepId with
  | some stepId => (ResearchCall.finishStep stepId .failed none (some ("denied:" ++ reason)) none).perform
  | none => pure ()

/-- `_fail`. -/
def fail (config : RunConfig) (errorCode : String) : ResearchProgram ExecutorOutcome := do
  let _ ← (ResearchCall.casStatus config.runId .running .failed { errorCode := some errorCode }).perform
  return ⟨.failed, 0, 0⟩

/-- What `_succeed` tells of the imports. -/
def promoted (rows : List ResearchEvidence) : List CandidateImport :=
  rows.filterMap fun row => row.promotedSourceVersionId.map fun version => ⟨row.evidenceId, version, row.originLocator⟩

/-- `_succeed`. -/
def succeed (config : RunConfig) (summary : String) : ResearchProgram ExecutorOutcome := do
  let rows : List ResearchEvidence ← (ResearchCall.listEvidence config.runId).perform
  let _ ← (ResearchCall.casStatus config.runId .running .succeeded
    { finalSummary := some summary, candidateImports := some (promoted rows) }).perform
  let steps : List ResearchStep ← (ResearchCall.listSteps config.runId).perform
  return ⟨.succeeded, steps.length, rows.length⟩

/-- `_count_tool_steps`. -/
def countToolSteps (runId : Uuid) : ResearchProgram Nat := do
  let steps : List ResearchStep ← (ResearchCall.listSteps runId).perform
  return steps.countP (·.toolName.isSome)

/-- `_count_promotions`. -/
def countPromotions (runId : Uuid) : ResearchProgram Nat := do
  let rows : List ResearchEvidence ← (ResearchCall.listEvidence runId).perform
  return rows.countP (·.promotedSourceVersionId.isSome)

/-- `_evidence_by_id`. -/
def evidenceById (runId evidenceId : Uuid) : ResearchProgram (Option ResearchEvidence) := do
  let rows : List ResearchEvidence ← (ResearchCall.listEvidence runId).perform
  return rows.find? (·.evidenceId = evidenceId)

/-! ## Tools -/

/-- The evidence of a call that went well, and its step finished with it. -/
def recordEvidence (config : RunConfig) (tool : String) (stepId : Uuid) (originLocator summary : Option String) :
    ResearchProgram String := do
  let evidence : ResearchEvidence ← (ResearchCall.appendEvidence config.runId tool originLocator).perform
  (ResearchCall.finishStep stepId .succeeded summary none (some evidence.evidenceId)).perform
  return evidence.evidenceId.str

/-- `except Exception`: anything but the end of the process. -/
def caught {α : Type} (x : ResearchProgram α) : ResearchProgram (Except ResearchError α) :=
  tryCatch (.ok <$> x) fun
    | .interrupted => throw .interrupted
    | e => pure (.error e)

/-- There is no such evidence, or none that can be fetched. -/
def importMissing (stepId : Uuid) : ResearchProgram ToolTurn := do
  (ResearchCall.finishStep stepId .failed none (some "import_target_missing") none).perform
  return ⟨ResearchTool.sourceImport.value, false, some "import_target_missing", "evidence not fetchable", none⟩

/-- What the step of a failed fetch tells. -/
def fetchFailure (url text : String) : String := "fetch failed for " ++ (url ++ ": " ++ text)

/-- The body of `_dispatch`. -/
def dispatchAction (config : RunConfig) (stepId : Uuid) (action : PlannerAction) : ResearchProgram ToolTurn := do
  let tool := action.tool
  match action with
  | .search query =>
    let hits : List SearchHit ← (ResearchCall.search query).perform
    let summary := "\n".intercalate (hits.map fun hit => "url=" ++ hit.url ++ " title=" ++ hit.title)
    let evidence ← recordEvidence config tool stepId none (some summary)
    return ⟨tool, true, none, summary, some evidence⟩
  | .fetch url =>
    match ← caught (ResearchCall.fetch url).perform with
    | .error e =>
      let summary := fetchFailure url e.text
      (ResearchCall.finishStep stepId .failed (some summary) (some e.name) none).perform
      return ⟨tool, false, some e.name, summary, none⟩
    | .ok (fetched : FetchRecord) =>
      let summary := "fetch ok: " ++ fetched.finalUrl ++ " sha256=" ++ fetched.contentSha256
      let evidence ← recordEvidence config tool stepId (some fetched.finalUrl) (some summary)
      return ⟨tool, true, none, summary, some evidence⟩
  | .browserOpen url =>
    let steps : List ResearchStep ← (ResearchCall.listSteps config.runId).perform
    match browserAutomationDenial config.approvedTools (turnsFrom steps) url with
    | some denial =>
      deny config denial tool (some stepId) none
      return ⟨tool, false, some denial, "browser automation not authorized", none⟩
    | none =>
      let pageUrl : String ← (ResearchCall.browserOpen url).perform
      let evidence ← recordEvidence config tool stepId (some pageUrl) none
      return ⟨tool, true, none, "browser open: " ++ pageUrl, some evidence⟩
  | .browserObserve focus =>
    let pageUrl : String ← (ResearchCall.browserObserve focus).perform
    let evidence ← recordEvidence config tool stepId (some pageUrl) none
    return ⟨tool, true, none, "observed: " ++ pageUrl, some evidence⟩
  | .browserInteract gesture selector value =>
    let pageUrl : String ← (ResearchCall.browserInteract gesture selector value).perform
    let evidence ← recordEvidence config tool stepId (some pageUrl) none
    return ⟨tool, true, none, "interacted: " ++ gesture, some evidence⟩
  | .sourceImport evidenceId title =>
    match Uuid.parse evidenceId with
    | none => throw (.raised "ValueError" "badly formed hexadecimal UUID string")
    | some evidenceId =>
      match ← evidenceById config.runId evidenceId with
      | none => importMissing stepId
      | some target =>
        match target.originLocator with
        | none => importMissing stepId
        | some url =>
          let version : Uuid ← (ResearchCall.importFetched config url title).perform
          let _ ← (ResearchCall.markPromoted target.evidenceId version).perform
          let summary := "imported source_version=" ++ version.str
          (ResearchCall.finishStep stepId .succeeded (some summary) none none).perform
          return ⟨tool, true, none, summary, none⟩
  | .retrieve query =>
    let chunks : Nat ← (ResearchCall.retrieve config query).perform
    let evidence ← recordEvidence config tool stepId none none
    return ⟨tool, true, none, "retrieved " ++ toString chunks ++ " chunks", some evidence⟩
  | .finish _ => throw (.raised "AssertionError" "unhandled action")

/-- What `_dispatch` makes of an exception. -/
def dispatchFailed (config : RunConfig) (stepId : Uuid) (tool : String) : ResearchError → ResearchProgram ToolTurn
  | .browserUnavailable code detail => do
    let evidence : ResearchEvidence ← (ResearchCall.appendEvidence config.runId tool none).perform
    (ResearchCall.finishStep stepId .failed none (some code) (some evidence.evidenceId)).perform
    return ⟨tool, false, some code, code ++ ": " ++ detail, some evidence.evidenceId.str⟩
  | .raised name text => do
    (ResearchCall.finishStep stepId .failed none (some name) none).perform
    return ⟨tool, false, some name, "tool failure: " ++ text, none⟩
  | .interrupted => throw .interrupted

/-- `_dispatch`. -/
def dispatch (config : RunConfig) (action : PlannerAction) : ResearchProgram ToolTurn := do
  let steps : List ResearchStep ← (ResearchCall.listSteps config.runId).perform
  let stepId : Uuid ←
    (ResearchCall.beginStep config.runId (steps.length + 1) (kindByTool action) (some action.tool)).perform
  tryCatch (dispatchAction config stepId action) (dispatchFailed config stepId action.tool)

/-! ## The loop -/

def plannerContext (config : RunConfig) (priorSteps : List ResearchStep) : PlannerContext where
  runId := config.runId
  notebookId := config.notebookId
  goal := config.goal
  mode := config.mode
  tools := config.tools
  turns := turnsFrom priorSteps

/-- The planner's proposal, parsed; an ActionParseError may also be the planner's own. -/
def proposedAction (context : PlannerContext) : ResearchProgram (Except ActionParseError PlannerAction) :=
  tryCatch (parseAction <$> (ResearchCall.nextAction context).perform) fun
    | .raised "ActionParseError" text => pure (.error (.planner text))
    | e => throw e

/-- The planning step of an iteration; none where the proposal was malformed. -/
def planAction (config : RunConfig) (priorSteps : List ResearchStep) : ResearchProgram (Option PlannerAction) := do
  (ResearchCall.progress "planning" "deciding next action").perform
  let stepId : Uuid ← (ResearchCall.beginStep config.runId (priorSteps.length + 1) "plan" none).perform
  match ← proposedAction (plannerContext config priorSteps) with
  | .error e =>
    deny config "malformed_action" "none" (some stepId) (some e)
    return none
  | .ok action =>
    (ResearchCall.finishStep stepId .succeeded none none none).perform
    return some action

/-- What the loop keeps in memory. -/
structure LoopState where
  stepsExecuted : Nat := 0
  evidenceAppended : Nat := 0
  toolCalls : Nat := 0
  lastDenial : Option (String × String) := none
  consecutiveDenials : Nat := 0

/-- One denial more. -/
def LoopState.denied (s : LoopState) (tool denial : String) : LoopState :=
  { s with
    lastDenial := some (tool, denial)
    consecutiveDenials := if s.lastDenial = some (tool, denial) then s.consecutiveDenials + 1 else 1 }

/-- DENIAL_LOOP_THRESHOLD. -/
def denialLoopThreshold : Nat := 2

/-- `tool == SOURCE_IMPORT and self._count_promotions(run_id) >= run.budget.max_imports`. -/
def importsExceeded (config : RunConfig) (tool : String) : ResearchProgram Bool :=
  if tool = ResearchTool.sourceImport.value then do
    let promotions ← countPromotions config.runId
    return promotions ≥ config.budget.maxImports
  else return false

/-- An authorised call within the budgets of tool calls and imports. -/
def callTool (config : RunConfig) (s : LoopState) (action : PlannerAction) :
    ResearchProgram (ExecutorOutcome ⊕ LoopState) := do
  let s := { s with lastDenial := none, consecutiveDenials := 0 }
  if s.toolCalls ≥ config.budget.maxToolCalls then return .inl (← fail config "budget_tool_calls_exceeded")
  let exceeded ← importsExceeded config action.tool
  if exceeded then return .inl (← fail config "budget_imports_exceeded")
  (ResearchCall.progress (phaseByTool action) action.tool).perform
  let turn ← dispatch config action
  let steps : List ResearchStep ← (ResearchCall.listSteps config.runId).perform
  (ResearchCall.checkpoint (steps.length + 1)).perform
  return .inr { s with
    toolCalls := s.toolCalls + 1
    stepsExecuted := s.stepsExecuted + 1
    evidenceAppended := if turn.evidenceId.isSome then s.evidenceAppended + 1 else s.evidenceAppended }

/-- What is made of a planned action. -/
def actOn (config : RunConfig) (s : LoopState) : Option PlannerAction → ResearchProgram (ExecutorOutcome ⊕ LoopState)
  | none => return .inr { s with lastDenial := none, consecutiveDenials := 0 }
  | some (.finish summary) => return .inl (← succeed config summary)
  | some action => do
    match authorizeToolCall config action.tool with
    | some denial =>
      deny config denial action.tool none none
      let s := s.denied action.tool denial
      if s.consecutiveDenials ≥ denialLoopThreshold then return .inl (← fail config "action_denied_loop")
      return .inr s
    | none => callTool config s action

/-- One iteration of the loop: its outcome, or what it keeps. -/
def iteration (config : RunConfig) (s : LoopState) : ResearchProgram (ExecutorOutcome ⊕ LoopState) := do
  let live : Option ResearchRun ← (ResearchCall.getRun config.runId).perform
  match live with
  | none => return .inl ⟨.failed, s.stepsExecuted, s.evidenceAppended⟩
  | some run =>
    if run.status ≠ .running then return .inl ⟨run.status, s.stepsExecuted, s.evidenceAppended⟩
    let stop : Bool ← (ResearchCall.shouldStop).perform
    if stop then return .inl ⟨.running, s.stepsExecuted, s.evidenceAppended⟩
    let priorSteps : List ResearchStep ← (ResearchCall.listSteps config.runId).perform
    if priorSteps.length ≥ config.budget.maxSteps then return .inl (← fail config "budget_steps_exceeded")
    let action ← planAction config priorSteps
    actOn config { s with stepsExecuted := s.stepsExecuted + 1 } action

def loop (config : RunConfig) : Nat → LoopState → ResearchProgram ExecutorOutcome
  | 0, _ => throw .interrupted
  | fuel + 1, s => do
    match ← iteration config s with
    | .inl outcome => return outcome
    | .inr s => loop config fuel s

/-- What `execute` does with the run it found; `planned` are the modes that have a planner. -/
def drive (planned : RunMode → Bool) (fuel : Nat) (run : ResearchRun) : ResearchProgram ExecutorOutcome := do
  if run.status ≠ .running then return ⟨run.status, 0, 0⟩
  if !planned run.mode then fail run.toRunConfig ("planner_unavailable_for_mode_" ++ run.mode.value)
  else
    let toolCalls ← countToolSteps run.runId
    loop run.toRunConfig fuel { toolCalls }

/-- `execute`. -/
def execute (planned : RunMode → Bool) (fuel : Nat) (runId : Uuid) : ResearchProgram ExecutorOutcome := do
  let found : Option ResearchRun ← (ResearchCall.getRun runId).perform
  match found with
  | none => throw (.raised "LookupError" ("research run " ++ runId.str ++ " not found"))
  | some run => drive planned fuel run

end ResearchRunExecutor

end MilpbookLM
