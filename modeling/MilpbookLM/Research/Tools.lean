/-
The research tools and what stands between a planner and them: its proposal is parsed
into one of eight actions (`parseAction`), a call is authorised from the run's own
configuration (`authorizeToolCall`), and a browser is opened only where that was
approved or a static fetch of the page failed before (`browserAutomationDenial`).
-/
import MilpbookLM.Base.Json
import MilpbookLM.Base.Text
import MilpbookLM.Base.Uuid

namespace MilpbookLM

/-! ## The domain -/

inductive ResearchRunStatus
  | created | running | paused | succeeded | failed | cancelled
  deriving DecidableEq

/-- RUN_TRANSITIONS. -/
def runTransitions : ResearchRunStatus → List ResearchRunStatus
  | .created => [.running, .cancelled]
  | .running => [.paused, .succeeded, .failed, .cancelled]
  | .paused => [.running, .cancelled]
  | .succeeded | .failed | .cancelled => []

def runTransitionAllowed (current target : ResearchRunStatus) : Bool := target ∈ runTransitions current

inductive RunMode
  | sourceDiscovery | deepResearch
  deriving DecidableEq

def RunMode.value : RunMode → String
  | sourceDiscovery => "source_discovery"
  | deepResearch => "deep_research"

inductive ResearchTool
  | webSearch | webFetch | browserOpen | browserObserve | browserInteract | sourceImport | notebookRetrieve
  deriving DecidableEq

def ResearchTool.value : ResearchTool → String
  | webSearch => "web.search"
  | webFetch => "web.fetch"
  | browserOpen => "browser.open"
  | browserObserve => "browser.observe"
  | browserInteract => "browser.interact"
  | sourceImport => "source.import"
  | notebookRetrieve => "notebook.retrieve"

/-- RESEARCH_TOOL_SURFACE. -/
def researchToolSurface : List String :=
  [ResearchTool.webSearch, .webFetch, .browserOpen, .browserObserve, .browserInteract, .sourceImport,
    .notebookRetrieve].map ResearchTool.value

/-- SIDE_EFFECT_TOOLS. -/
def sideEffectTools : List String := [ResearchTool.sourceImport.value, ResearchTool.browserInteract.value]

theorem steps_within : 1 ≤ 64 ∧ 64 ≤ 64 := by decide

theorem toolCalls_within : 1 ≤ 48 ∧ 48 ≤ 48 := by decide

theorem imports_within : 8 ≤ 8 := by decide

/-- A budget, which none outside the global ceilings is made of. -/
structure ResearchBudget where
  maxSteps : Nat := 64
  maxToolCalls : Nat := 48
  maxImports : Nat := 8
  steps : 1 ≤ maxSteps ∧ maxSteps ≤ 64 := by first | exact steps_within | decide
  toolCalls : 1 ≤ maxToolCalls ∧ maxToolCalls ≤ 48 := by first | exact toolCalls_within | decide
  imports : maxImports ≤ 8 := by first | exact imports_within | decide

/-- What is frozen into a run at its creation. -/
structure RunConfig where
  runId : Uuid
  notebookId : Uuid
  actorId : Uuid
  goal : String
  mode : RunMode
  tools : List String
  approvedTools : List String
  budget : ResearchBudget

/-- A piece of evidence that was imported. -/
structure CandidateImport where
  evidenceId : Uuid
  sourceVersionId : Uuid
  originLocator : Option String

structure ResearchRun extends RunConfig where
  status : ResearchRunStatus := .created
  errorCode : Option String := none
  finalSummary : Option String := none
  candidateImports : Option (List CandidateImport) := none
  revision : Nat := 0

/-! ## Actions -/

inductive PlannerAction
  | search (query : String)
  | fetch (url : String)
  | browserOpen (url : String)
  | browserObserve (focus : Option String)
  | browserInteract (gesture selector : String) (value : Option String)
  | sourceImport (evidenceId title : String)
  | retrieve (query : String)
  | finish (summary : String)

/-- `_action_tool`. -/
def PlannerAction.tool : PlannerAction → String
  | .search _ => ResearchTool.webSearch.value
  | .fetch _ => ResearchTool.webFetch.value
  | .browserOpen _ => ResearchTool.browserOpen.value
  | .browserObserve _ => ResearchTool.browserObserve.value
  | .browserInteract .. => ResearchTool.browserInteract.value
  | .sourceImport .. => ResearchTool.sourceImport.value
  | .retrieve _ => ResearchTool.notebookRetrieve.value
  | .finish _ => "finish"

/-- What the parser refuses, each with what its message tells. -/
inductive ActionParseError
  | notMapping
  | outsideSurface (tool : Json)
  | argsNotMapping
  | unexpectedArgs (tool : String) (extra : List String)
  | notNonEmptyString (name : String)
  | focusNotString
  | unknownGesture (gesture : String)
  | valueNotString
  | unhandledTool (tool : String)
  /-- The planner itself raised one. -/
  | planner (message : String)

/-- `BrowserGesture.ALL`. -/
def browserGestures : List String := ["click", "type", "scroll", "press"]

/-- `_TOOL_FIELDS`. -/
def toolFields (tool : String) : List String :=
  if tool = ResearchTool.webSearch.value then ["query"]
  else if tool = ResearchTool.webFetch.value then ["url"]
  else if tool = ResearchTool.browserOpen.value then ["url"]
  else if tool = ResearchTool.browserObserve.value then ["focus"]
  else if tool = ResearchTool.browserInteract.value then ["gesture", "selector", "value"]
  else if tool = ResearchTool.sourceImport.value then ["evidence_id", "title"]
  else if tool = ResearchTool.notebookRetrieve.value then ["query"]
  else []

/-- `_reject_extra_args`. -/
def rejectExtraArgs (tool : String) (args : Dict) : Except ActionParseError Unit :=
  let extra := (args.map (·.1)).filter (· ∉ toolFields tool)
  if extra ≠ [] then throw (.unexpectedArgs tool extra) else pure ()

/-- `_args`. -/
def actionArgs (payload : Dict) : Except ActionParseError Dict :=
  match (payload.get "args").dict? with
  | some args => pure args
  | none => throw .argsNotMapping

/-- `_string_arg`. -/
def stringArg (args : Dict) (name : String) : Except ActionParseError String :=
  match (args.get name).str? with
  | some value => if isBlank value.toList then throw (.notNonEmptyString name) else pure value
  | none => throw (.notNonEmptyString name)

/-- `value is not None and not isinstance(value, str)` is refused. -/
def optionalStringArg (args : Dict) (name : String) (e : ActionParseError) : Except ActionParseError (Option String) :=
  match args.get name with
  | .null => pure none
  | .str value => pure (some value)
  | _ => throw e

/-- `parse_action`. -/
def parseAction (payload : Json) : Except ActionParseError PlannerAction := do
  match payload.dict? with
  | none => throw .notMapping
  | some payload =>
    match payload.get "tool" with
    | .str tool =>
      if tool = "finish" then
        let args ← actionArgs payload
        return .finish (← stringArg args "summary")
      else if tool ∉ researchToolSurface then throw (.outsideSurface (.str tool))
      else
        let args ← actionArgs payload
        rejectExtraArgs tool args
        if tool = ResearchTool.webSearch.value then return .search (← stringArg args "query")
        else if tool = ResearchTool.webFetch.value then return .fetch (← stringArg args "url")
        else if tool = ResearchTool.browserOpen.value then return .browserOpen (← stringArg args "url")
        else if tool = ResearchTool.browserObserve.value then
          return .browserObserve (← optionalStringArg args "focus" .focusNotString)
        else if tool = ResearchTool.browserInteract.value then
          let gesture ← stringArg args "gesture"
          if gesture ∉ browserGestures then throw (.unknownGesture gesture)
          let value ← optionalStringArg args "value" .valueNotString
          return .browserInteract gesture (← stringArg args "selector") value
        else if tool = ResearchTool.sourceImport.value then
          return .sourceImport (← stringArg args "evidence_id") (← stringArg args "title")
        else if tool = ResearchTool.notebookRetrieve.value then return .retrieve (← stringArg args "query")
        else throw (.unhandledTool tool)
    | tool => throw (.outsideSurface tool)

/-! ## Decisions -/

/-- `authorize_tool_call`: the reason of the denial, none where the call may proceed. -/
def authorizeToolCall (run : RunConfig) (tool : String) : Option String :=
  if tool ∉ researchToolSurface then some "tool_not_in_surface"
  else if tool ∉ run.tools then some "tool_not_enabled_on_run"
  else if tool ∈ sideEffectTools ∧ tool ∉ run.approvedTools then some "side_effect_not_approved"
  else none

/-- A prior tool outcome, as the planner sees it. -/
structure ToolTurn where
  tool : String
  ok : Bool
  refusalCode : Option String
  summary : String
  evidenceId : Option String := none

/-- `marker in text`. -/
def occursIn (marker text : String) : Bool := decide (marker.toList <:+: text.toList)

/-- `browser_automation_denial`. -/
def browserAutomationDenial (approvedTools : List String) (priorTurns : List ToolTurn) (url : String) : Option String :=
  if ResearchTool.browserOpen.value ∈ approvedTools then none
  else if priorTurns.any fun turn =>
    turn.tool = ResearchTool.webFetch.value && !turn.ok && occursIn ("fetch failed for " ++ url) turn.summary then none
  else some "browser_automation_not_authorized"

/-! ## What an authorised call is -/

/-- The tool is one of the seven and one of the run's, and approved where it has side effects. -/
structure Authorized (run : RunConfig) (tool : String) : Prop where
  surface : tool ∈ researchToolSurface
  enabled : tool ∈ run.tools
  approved : tool ∈ sideEffectTools → tool ∈ run.approvedTools

theorem authorizeToolCall_none {run : RunConfig} {tool : String} :
    authorizeToolCall run tool = none ↔ Authorized run tool := by
  constructor
  · intro h
    simp only [authorizeToolCall] at h
    split at h
    · cases h
    · next hsurface =>
      split at h
      · cases h
      · next henabled =>
        split at h
        · cases h
        · next happroved =>
          exact ⟨by simpa using hsurface, by simpa using henabled, fun hs => by
            by_contra ha
            exact happroved ⟨hs, ha⟩⟩
  · rintro ⟨hsurface, henabled, happroved⟩
    rw [authorizeToolCall, if_neg (not_not.2 hsurface), if_neg (not_not.2 henabled),
      if_neg fun h => h.2 (happroved h.1)]

end MilpbookLM
