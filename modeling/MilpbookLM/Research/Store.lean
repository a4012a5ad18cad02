/-
The rows of the research runs, and the calls an executor makes on them and on the
tools (`ResearchCall.exec`). A call is one transaction, or one request to a tool or
to the planner. The environment decides what a tool or the planner answers and which
calls raise; a call that raises has no effect. What `import_fetched` acquired is kept
in `imported`, also where no evidence was linked to it.
-/
import MilpbookLM.Lib.Interleave
import MilpbookLM.Lib.Table
import MilpbookLM.Research.Tools
import Mathlib.Data.List.Sort

namespace MilpbookLM

open Interleave

/-! ## Rows -/

inductive StepStatus
  | running | succeeded | failed
  deriving DecidableEq

/-- A row of research_run_steps; `summary` is what its tool_result tells. -/
structure ResearchStep where
  stepId : Uuid
  runId : Uuid
  stepNumber : Nat
  stepKind : String
  toolName : Option String
  status : StepStatus := .running
  summary : Option String := none
  errorCode : Option String := none
  evidenceId : Option Uuid := none

/-- A row of research_evidence_snapshots. -/
structure ResearchEvidence where
  evidenceId : Uuid
  runId : Uuid
  originTool : String
  originLocator : Option String
  promotedSourceVersionId : Option Uuid := none

structure ResearchWorld where
  runs : List ResearchRun := []
  steps : List ResearchStep := []
  evidence : List ResearchEvidence := []
  /-- The run and the source version of each import. -/
  imported : List (Uuid × Uuid) := []

/-! ## Calls -/

inductive ResearchError
  | browserUnavailable (code detail : String)
  /-- Any other exception: its type and its text. -/
  | raised (name text : String)
  /-- The process was stopped, which no handler catches. -/
  | interrupted
  deriving DecidableEq

/-- `type(exc).__name__`. -/
def ResearchError.name : ResearchError → String
  | .browserUnavailable .. => "BrowserUnavailableError"
  | .raised name _ => name
  | .interrupted => "CancelledError"

/-- `str(exc)`. -/
def ResearchError.text : ResearchError → String
  | .browserUnavailable code detail => code ++ ": " ++ detail
  | .raised _ text => text
  | .interrupted => ""

/-- The fields of a run that come with its new status. -/
structure RunUpdates where
  errorCode : Option String := none
  finalSummary : Option String := none
  candidateImports : Option (List CandidateImport) := none

structure PlannerContext where
  runId : Uuid
  notebookId : Uuid
  goal : String
  mode : RunMode
  tools : List String
  turns : List ToolTurn

structure SearchHit where
  url : String
  title : String

structure FetchRecord where
  finalUrl : String
  contentSha256 : String

inductive ResearchCall
  | getRun (runId : Uuid)
  | casStatus (runId : Uuid) (expected target : ResearchRunStatus) (updates : RunUpdates)
  | listSteps (runId : Uuid)
  /-- `_begin_step`: a fresh id, and its row. -/
  | beginStep (runId : Uuid) (stepNumber : Nat) (kind : String) (toolName : Option String)
  | finishStep (stepId : Uuid) (status : StepStatus) (summary errorCode : Option String) (evidenceId : Option Uuid)
  | appendEvidence (runId : Uuid) (originTool : String) (originLocator : Option String)
  | listEvidence (runId : Uuid)
  | markPromoted (evidenceId sourceVersionId : Uuid)
  | auditDenied (config : RunConfig) (tool reason : String) (detail : Option ActionParseError)
  | shouldStop
  | progress (phase detail : String)
  | checkpoint (nextStep : Nat)
  | nextAction (context : PlannerContext)
  | search (query : String)
  | fetch (url : String)
  | browserOpen (url : String)
  | browserObserve (focus : Option String)
  | browserInteract (gesture selector : String) (value : Option String)
  | importFetched (config : RunConfig) (url title : String)
  /-- The answer is the number of the chunks found. -/
  | retrieve (config : RunConfig) (query : String)

/-- What a call returns. -/
def ResearchResult : ResearchCall → Type
  | .getRun _ => Option ResearchRun
  | .casStatus .. => Option ResearchRun
  | .listSteps _ => List ResearchStep
  | .beginStep .. => Uuid
  | .appendEvidence .. => ResearchEvidence
  | .listEvidence _ => List ResearchEvidence
  | .markPromoted .. => Bool
  | .shouldStop => Bool
  | .nextAction _ => Json
  | .search _ => List SearchHit
  | .fetch _ => FetchRecord
  | .browserOpen _ | .browserObserve _ | .browserInteract .. => String
  | .importFetched .. => Uuid
  | .retrieve .. => Nat
  | _ => Unit

/-- What a call comes to: it returns, or raises. -/
abbrev ResearchAnswer (c : ResearchCall) : Type := Except ResearchError (ResearchResult c)

/-- The tool a call is of, where it is one of a tool's port. -/
def ResearchCall.tool? : ResearchCall → Option String
  | .search _ => some ResearchTool.webSearch.value
  | .fetch _ => some ResearchTool.webFetch.value
  | .browserOpen _ => some ResearchTool.browserOpen.value
  | .browserObserve _ => some ResearchTool.browserObserve.value
  | .browserInteract .. => some ResearchTool.browserInteract.value
  | .importFetched .. => some ResearchTool.sourceImport.value
  | .retrieve .. => some ResearchTool.notebookRetrieve.value
  | _ => none

/-- Whether the call raises, the fresh id, and what the planner and the tools answer. -/
structure ResearchEnv where
  raises : Option ResearchError := none
  newId : Uuid := 0
  stop : Bool := false
  proposal : Json := .null
  hits : List SearchHit := []
  record : FetchRecord := ⟨"", ""⟩
  pageUrl : String := ""
  chunks : Nat := 0

/-! ## What a call does -/

namespace ResearchWorld

variable (w : ResearchWorld)

/-- `get_run`. -/
def run? (runId : Uuid) : Option ResearchRun := Table.lookup (fun r : ResearchRun => r.runId) w.runs runId

/-- `list_steps`. -/
def listSteps (runId : Uuid) : List ResearchStep :=
  (w.steps.filter (·.runId = runId)).insertionSort fun s s' => s.stepNumber ≤ s'.stepNumber

/-- `list_evidence`. -/
def listEvidence (runId : Uuid) : List ResearchEvidence := w.evidence.filter (·.runId = runId)

/-- The run after `cas_status`. -/
def castRun (target : ResearchRunStatus) (updates : RunUpdates) (r : ResearchRun) : ResearchRun :=
  { r with
    status := target
    revision := r.revision + 1
    errorCode := updates.errorCode <|> r.errorCode
    finalSummary := updates.finalSummary <|> r.finalSummary
    candidateImports := updates.candidateImports <|> r.candidateImports }

/-- `cas_status`. -/
def casStatus (runId : Uuid) (expected target : ResearchRunStatus) (updates : RunUpdates) :
    Option ResearchRun × ResearchWorld :=
  match w.run? runId with
  | none => (none, w)
  | some run =>
    if run.status ≠ expected then (none, w)
    else
      (some (castRun target updates run),
        { w with runs := Table.update (fun r => r.runId = runId) (castRun target updates) w.runs })

/-- `insert_step`: ids are unique, and the numbers of a run's steps are. -/
def insertStep (row : ResearchStep) : Except ResearchError Uuid × ResearchWorld :=
  if w.steps.any fun s => s.stepId = row.stepId || s.runId = row.runId && s.stepNumber = row.stepNumber then
    (.error (.raised "IntegrityError" "duplicate key value"), w)
  else (.ok row.stepId, { w with steps := w.steps ++ [row] })

/-- The row after `finish_step`: what is not given stays as it is. -/
def finishedStep (status : StepStatus) (summary errorCode : Option String) (evidenceId : Option Uuid)
    (s : ResearchStep) : ResearchStep :=
  { s with
    status
    summary := summary <|> s.summary
    errorCode := errorCode <|> s.errorCode
    evidenceId := evidenceId <|> s.evidenceId }

/-- `finish_step`. -/
def finishStep (stepId : Uuid) (status : StepStatus) (summary errorCode : Option String) (evidenceId : Option Uuid) :
    ResearchWorld :=
  { w with
    steps := Table.update (fun s => s.stepId = stepId) (finishedStep status summary errorCode evidenceId) w.steps }

/-- `append_evidence`. -/
def appendEvidence (row : ResearchEvidence) : Except ResearchError ResearchEvidence × ResearchWorld :=
  if w.evidence.any fun e => e.evidenceId = row.evidenceId then
    (.error (.raised "IntegrityError" "duplicate key value"), w)
  else (.ok row, { w with evidence := w.evidence ++ [row] })

/-- `mark_promoted`: a link is made once. -/
def markPromoted (evidenceId sourceVersionId : Uuid) : Bool × ResearchWorld :=
  let unlinked : ResearchEvidence → Bool := fun e => e.evidenceId = evidenceId && e.promotedSourceVersionId = none
  (w.evidence.any unlinked,
    { w with
      evidence := Table.update unlinked (fun e => { e with promotedSourceVersionId := some sourceVersionId }) w.evidence })

end ResearchWorld

/-- What each call does, and answers. -/
def ResearchCall.effect (env : ResearchEnv) : (c : ResearchCall) → ResearchWorld → ResearchAnswer c × ResearchWorld
  | .getRun runId, w => (.ok (w.run? runId), w)
  | .casStatus runId expected target updates, w =>
    (.ok (w.casStatus runId expected target updates).1, (w.casStatus runId expected target updates).2)
  | .listSteps runId, w => (.ok (w.listSteps runId), w)
  | .beginStep runId stepNumber stepKind toolName, w =>
    w.insertStep { stepId := env.newId, runId, stepNumber, stepKind, toolName }
  | .finishStep stepId status summary errorCode evidenceId, w =>
    (.ok (), w.finishStep stepId status summary errorCode evidenceId)
  | .appendEvidence runId originTool originLocator, w =>
    w.appendEvidence { evidenceId := env.newId, runId, originTool, originLocator }
  | .listEvidence runId, w => (.ok (w.listEvidence runId), w)
  | .markPromoted evidenceId sourceVersionId, w =>
    (.ok (w.markPromoted evidenceId sourceVersionId).1, (w.markPromoted evidenceId sourceVersionId).2)
  | .auditDenied .., w => (.ok (), w)
  | .shouldStop, w => (.ok env.stop, w)
  | .progress .., w => (.ok (), w)
  | .checkpoint _, w => (.ok (), w)
  | .nextAction _, w => (.ok env.proposal, w)
  | .search _, w => (.ok env.hits, w)
  | .fetch _, w => (.ok env.record, w)
  | .browserOpen _, w => (.ok env.pageUrl, w)
  | .browserObserve _, w => (.ok env.pageUrl, w)
  | .browserInteract .., w => (.ok env.pageUrl, w)
  | .importFetched config _ _, w => (.ok env.newId, { w with imported := (config.runId, env.newId) :: w.imported })
  | .retrieve .., w => (.ok env.chunks, w)

/-- A call that raises has no effect. -/
def ResearchCall.exec (env : ResearchEnv) (c : ResearchCall) (w : ResearchWorld) : ResearchAnswer c × ResearchWorld :=
  match env.raises with
  | some e => (.error e, w)
  | none => c.effect env w

end MilpbookLM
