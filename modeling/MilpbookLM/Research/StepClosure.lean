/-
The steps that an execution begins. The calls of an execution fall into pages, one for each step, with
the calls made until the next step begins (`pages`); a page is closed by the finish of its step, which
tells what the calls came to (`ClosedBy`). A call that raises where nothing is left to finish the step
leaves the page open: `MayFail` says which calls may raise all the same, and where no others do, every
page is closed at the end, and the rows say so (`steps_closed`).
-/
import MilpbookLM.Research.Automation
import MilpbookLM.Research.LoopPhases
import MilpbookLM.Research.Termination

namespace MilpbookLM.StepClosure

open Interleave Prog ResearchRunExecutor

/-! ## Pages -/

/-- A call, and its answer. -/
abbrev ResearchEvent := Σ c, ResearchAnswer c

/-- A step that was begun, with the calls made until the next one began, the latest first. -/
structure StepPage where
  stepId : Uuid
  tool : Option String
  calls : ResearchTrace

/-- What a step was finished with. -/
structure StepFinish where
  stepId : Uuid
  status : StepStatus
  evidenceId : Option Uuid

/-- The step that was begun, and its tool. -/
def begun? : ResearchEvent → Option (Uuid × Option String)
  | ⟨.beginStep _ _ _ tool, answer⟩ =>
    match answer with
    | .ok (stepId : Uuid) => some (stepId, tool)
    | .error _ => none
  | _ => none

def finished? : ResearchEvent → Option StepFinish
  | ⟨.finishStep stepId status _ _ evidenceId, .ok _⟩ => some ⟨stepId, status, evidenceId⟩
  | _ => none

/-- The evidence that was appended. -/
def appended? : ResearchEvent → Option Uuid
  | ⟨.appendEvidence .., answer⟩ =>
    match answer with
    | .ok (evidence : ResearchEvidence) => some evidence.evidenceId
    | .error _ => none
  | _ => none

def appendFailed : ResearchEvent → Bool
  | ⟨.appendEvidence .., .error _⟩ => true
  | _ => false

/-- A call of a tool's port, and it returned. -/
def toolReturned (ev : ResearchEvent) : Bool := ev.1.tool?.isSome && ev.2.isOk

def pages : ResearchTrace → List StepPage
  | [] => []
  | ev :: trace =>
    match begun? ev with
    | some (stepId, tool) => ⟨stepId, tool, []⟩ :: pages trace
    | none =>
      match pages trace with
      | [] => []
      | page :: before => { page with calls := ev :: page.calls } :: before

/-- The finishes, the latest first. -/
def finishes (trace : ResearchTrace) : List StepFinish := trace.filterMap finished?

namespace StepPage

variable (page : StepPage)

def reached : Bool := page.calls.any toolReturned

def appended : List Uuid := page.calls.filterMap appended?

/-- Evidence was appended, each time that this was tried; an import appends none. -/
def Recorded (tool : String) : Prop :=
  tool = ResearchTool.sourceImport.value ∨ page.appended ≠ [] ∧ page.calls.any appendFailed = false

end StepPage

/-- The page's step is finished so: a tool's succeeded if and only if its port returned and the evidence was appended,
and it has the evidence that was appended for it, if any. -/
structure ClosedBy (page : StepPage) (finish : StepFinish) : Prop where
  same : finish.stepId = page.stepId
  made : ∃ ev ∈ page.calls, finished? ev = some finish
  ended : finish.status = .succeeded ∨ finish.status = .failed
  succeeded : ∀ tool, page.tool = some tool →
    (finish.status = .succeeded ↔ page.reached = true ∧ page.Recorded tool)
  evidence : finish.evidenceId = page.appended.head?

/-- The pages are closed, one by one. -/
def Idle (trace : ResearchTrace) : Prop := List.Forall₂ ClosedBy (pages trace) (finishes trace)

/-- The step is open, with such calls so far; the pages before it are closed. -/
structure Opened (stepId : Uuid) (tool : Option String) (reached : Bool) (appended : List Uuid) (unrecorded : Bool)
    (trace : ResearchTrace) : Prop where
  page : ∃ page before, pages trace = page :: before ∧ page.stepId = stepId ∧ page.tool = tool ∧
    page.reached = reached ∧ page.appended = appended ∧ page.calls.any appendFailed = unrecorded ∧
    List.Forall₂ ClosedBy before (finishes trace)

/-- A call that is of no account to a page. -/
structure Neutral (ev : ResearchEvent) : Prop where
  begun : begun? ev = none
  finished : finished? ev = none
  returned : toolReturned ev = false
  appended : appended? ev = none
  failed : appendFailed ev = false

section Pages

variable {trace : ResearchTrace} {ev : ResearchEvent} {stepId : Uuid} {tool : Option String} {reached unrecorded : Bool}
  {appended : List Uuid}

theorem finishes_cons_none (h : finished? ev = none) : finishes (ev :: trace) = finishes trace := by
  simp [finishes, h]

theorem finishes_cons_some {finish : StepFinish} (h : finished? ev = some finish) :
    finishes (ev :: trace) = finish :: finishes trace := by
  simp [finishes, h]

theorem pages_cons_none (h : begun? ev = none) {page before} (hpages : pages trace = page :: before) :
    pages (ev :: trace) = { page with calls := ev :: page.calls } :: before := by
  simp only [pages, h, hpages]

theorem Idle.neutral (h : Idle trace) (hev : Neutral ev) : Idle (ev :: trace) := by
  rw [Idle, finishes_cons_none hev.finished]
  cases hpages : pages trace with
  | nil =>
    simp only [pages, hev.begun, hpages]
    rw [Idle, hpages] at h
    exact h
  | cons page before =>
    rw [pages_cons_none hev.begun hpages]
    rw [Idle, hpages] at h
    obtain ⟨finish, rest, hclosed, hrest, heq⟩ := List.forall₂_cons_left_iff.1 h
    rw [heq]
    obtain ⟨made, hmade, hfinish⟩ := hclosed.made
    refine .cons ⟨hclosed.same, ⟨made, List.mem_cons_of_mem _ hmade, hfinish⟩, hclosed.ended, ?_, ?_⟩ hrest
    · simpa [StepPage.reached, StepPage.Recorded, StepPage.appended, hev.returned, hev.appended, hev.failed]
        using hclosed.succeeded
    · simpa [StepPage.appended, hev.appended] using hclosed.evidence

/-- A step begins. -/
theorem Idle.begin (h : Idle trace) (hbegun : begun? ev = some (stepId, tool)) (hfinished : finished? ev = none) :
    Opened stepId tool false [] false (ev :: trace) := by
  refine ⟨⟨stepId, tool, []⟩, pages trace, ?_, rfl, rfl, rfl, rfl, rfl, ?_⟩
  · simp only [pages, hbegun]
  · rw [finishes_cons_none hfinished]
    exact h

/-- A call of an open step. -/
theorem Opened.call (h : Opened stepId tool reached appended unrecorded trace) (ev : ResearchEvent)
    (hbegun : begun? ev = none) (hfinished : finished? ev = none) :
    Opened stepId tool (toolReturned ev || reached) ((appended? ev).toList ++ appended) (appendFailed ev || unrecorded)
      (ev :: trace) := by
  obtain ⟨page, before, hpages, rfl, rfl, rfl, rfl, rfl, hclosed⟩ := h
  refine ⟨_, before, pages_cons_none hbegun hpages, rfl, rfl, ?_, ?_, ?_, ?_⟩
  · simp [StepPage.reached]
  · cases ha : appended? ev <;> simp [StepPage.appended, ha]
  · simp
  · rw [finishes_cons_none hfinished]
    exact hclosed

theorem Opened.neutral (h : Opened stepId tool reached appended unrecorded trace) (hev : Neutral ev) :
    Opened stepId tool reached appended unrecorded (ev :: trace) := by
  simpa [hev.returned, hev.appended, hev.failed] using h.call ev hev.begun hev.finished

/-- **An open step is finished**, with what its calls came to. -/
theorem Opened.finish {status : StepStatus} {evidenceId : Option Uuid}
    (h : Opened stepId tool reached appended unrecorded trace) (hbegun : begun? ev = none)
    (hfinished : finished? ev = some ⟨stepId, status, evidenceId⟩) (hreturned : toolReturned ev = false)
    (happended : appended? ev = none) (hfailed : appendFailed ev = false)
    (hended : status = .succeeded ∨ status = .failed)
    (hsucceeded : ∀ name, tool = some name → (status = .succeeded ↔ reached = true ∧
      (name = ResearchTool.sourceImport.value ∨ appended ≠ [] ∧ unrecorded = false)))
    (hevidence : evidenceId = appended.head?) : Idle (ev :: trace) := by
  obtain ⟨page, before, hpages, rfl, rfl, rfl, rfl, rfl, hclosed⟩ := h
  rw [Idle, pages_cons_none hbegun hpages, finishes_cons_some hfinished]
  refine .cons ⟨rfl, ⟨ev, List.mem_cons_self, hfinished⟩, hended, ?_, ?_⟩ hclosed
  · simpa [StepPage.reached, StepPage.Recorded, StepPage.appended, hreturned, happended, hfailed] using hsucceeded
  · simpa [StepPage.appended, happended] using hevidence

end Pages

/-! ## What a call may come to -/

/-- The latest call raised that the browser is unavailable. -/
def Unavailable : ResearchTrace → Prop
  | ⟨_, .error (.browserUnavailable ..)⟩ :: _ => True
  | _ => False

/-- The latest call decided that the tool is refused, or that there is nothing to import. -/
def Refusing : ResearchTrace → Prop
  | ⟨.listEvidence _, .ok _⟩ :: _ => True
  | ⟨.auditDenied _ tool _ _, .ok _⟩ :: _ => tool ≠ "none"
  | _ => False

/-- After these calls, a call may raise the exception: something else is left to finish the step, or none is open.
The planner may raise ActionParseErrors; the audit log may fail but for a malformed action; a finish may fail where the
tool's own failure is recorded; and an append may fail but for the record of a refusal. -/
def MayFail (trace : ResearchTrace) (e : ResearchError) : ResearchCall → Prop
  | .nextAction _ => ∃ text, e = .raised "ActionParseError" text
  | .auditDenied _ tool _ _ => tool ≠ "none"
  | .finishStep _ status summary _ _ => status = .failed ∧ (summary.isSome ∨ Refusing trace)
  | .appendEvidence .. => ¬ Unavailable trace
  | .markPromoted .. => False
  | _ => True

/-- It raises only so, or the process is stopped. -/
def Closing (c : ResearchCall) (env : ResearchEnv) (s : ResearchRecord) : Prop :=
  ∀ e, (c.exec env s.1).1 = .error e → e ≠ .interrupted → MayFail s.2 e c

/-! ## Triples -/

section Told

variable {α β : Type} {runId : Uuid} {x : ResearchProgram α} {P : ResearchTrace → Prop} {R : α → ResearchTrace → Prop}
  {F G : ResearchError → ResearchTrace → Prop}

/-- After calls that `P` admits, a part of an execution returns with `R`, or raises with `F`. -/
def Told (runId : Uuid) (P : ResearchTrace → Prop) (x : ResearchProgram α) (R : α → ResearchTrace → Prop)
    (F : ResearchError → ResearchTrace → Prop) : Prop :=
  ∀ s, P s.2 → x.run.Safe recordedExec (Beside (SameSteps runId)) Closing (fun _ => True)
    (fun r s => match r with | .ok a => R a s.2 | .error e => F e s.2) s

theorem told_pure {a : α} (h : ∀ trace, P trace → R a trace) : Told runId P (pure a) R F := fun s hs => ⟨trivial, h s.2 hs⟩

theorem told_throw {e : ResearchError} (h : ∀ trace, P trace → F e trace) : Told runId P (throw e : ResearchProgram α) R F :=
  fun s hs => ⟨trivial, h s.2 hs⟩

theorem Told.bind {f : α → ResearchProgram β} {S : β → ResearchTrace → Prop} (hx : Told runId P x R F)
    (hf : ∀ a, Told runId (R a) (f a) S F) : Told runId P (x >>= f) S F := by
  refine fun s hs => Safe.seq ((hx s hs).mono fun r s _ h => ?_)
  cases r with
  | ok a => exact hf a s h
  | error e => exact h

theorem Told.map {f : α → β} {S : β → ResearchTrace → Prop} (hx : Told runId P x (fun a => S (f a)) F) :
    Told runId P (f <$> x) S F := by
  refine fun s hs => Safe.map ((hx s hs).mono fun r s _ h => ?_)
  cases r with
  | ok a => exact h
  | error e => exact h

theorem Told.guarded {f : ResearchError → ResearchProgram α} (hx : Told runId P x R G)
    (hf : ∀ e, Told runId (G e) (f e) R F) : Told runId P (tryCatch x f) R F := by
  refine fun s hs => Safe.guarded ((hx s hs).mono fun r s _ h => ?_)
  cases r with
  | ok a => exact h
  | error e => exact hf e s h

theorem told_ite {c : Prop} [Decidable c] {y : ResearchProgram α} (hx : c → Told runId P x R F)
    (hy : ¬ c → Told runId P y R F) : Told runId P (if c then x else y) R F :=
  fun s hs => safe_ite (fun h => hx h s hs) fun h => hy h s hs

theorem Told.mono {P' : ResearchTrace → Prop} {R' : α → ResearchTrace → Prop} (h : Told runId P x R F)
    (hP : ∀ trace, P' trace → P trace) (hR : ∀ a trace, R a trace → R' a trace) (hF : ∀ e trace, F e trace → G e trace) :
    Told runId P' x R' G := by
  refine fun s hs => (h s (hP _ hs)).mono fun r s _ hr => ?_
  cases r with
  | ok a => exact hR a _ hr
  | error e => exact hF e _ hr

/-- One call. -/
theorem told_perform {c : ResearchCall} {R : ResearchResult c → ResearchTrace → Prop}
    (hok : ∀ trace a, P trace → R a (⟨c, .ok a⟩ :: trace))
    (herror : ∀ trace e, P trace → (e ≠ .interrupted → MayFail trace e c) → F e (⟨c, .error e⟩ :: trace)) :
    Told runId P c.perform R F := by
  refine fun s hs => ⟨trivial, fun s' env hr hc => ⟨trivial, ?_⟩⟩
  have hp : P s'.2 := by rw [hr.2]; exact hs
  simp only [recorded]
  cases ha : (c.exec env s'.1).1 with
  | ok a => exact hok _ a hp
  | error e => exact herror _ e hp (hc e ha)

end Told

/-! ## The calls of an execution -/

/-- A call that is of no account to a page, whatever it answers. -/
def Aside : ResearchCall → Prop
  | .getRun _ | .casStatus .. | .listSteps _ | .listEvidence _ | .markPromoted .. | .auditDenied .. | .shouldStop
  | .progress .. | .checkpoint _ | .nextAction _ => True
  | _ => False

theorem aside_neutral {c : ResearchCall} (h : Aside c) (answer : ResearchAnswer c) : Neutral ⟨c, answer⟩ := by
  cases c <;> first | exact h.elim | exact ⟨rfl, rfl, rfl, rfl, rfl⟩

/-- Unless the process was stopped, no step is left open. -/
def Left (e : ResearchError) (trace : ResearchTrace) : Prop := e ≠ .interrupted → Idle trace

/-- The call failed, and its step is to be finished as failed, with the evidence of a refusal or with none. -/
def Failing (stepId : Uuid) (tool : String) (e : ResearchError) (trace : ResearchTrace) : Prop :=
  e ≠ .interrupted → ∃ reached unrecorded, Opened stepId (some tool) reached [] unrecorded trace ∧
    (reached = true → tool ≠ ResearchTool.sourceImport.value ∧ unrecorded = true) ∧ ¬ Refusing trace ∧
    ∀ code detail, e = .browserUnavailable code detail → Unavailable trace

section Calls

variable {runId stepId : Uuid} {tool : String} {config : RunConfig} {trace : ResearchTrace} {state : LoopState}

theorem not_refusing_error {c : ResearchCall} {e : ResearchError} : ¬ Refusing (⟨c, .error e⟩ :: trace) := by
  cases c <;> exact id

/-- A call that raised leaves its step to be finished as failed. -/
theorem failing_error {c : ResearchCall} {e : ResearchError} {reached unrecorded : Bool}
    (h : Opened stepId (some tool) reached [] unrecorded (⟨c, .error e⟩ :: trace))
    (hreached : reached = true → tool ≠ ResearchTool.sourceImport.value ∧ unrecorded = true) :
    Failing stepId tool e (⟨c, .error e⟩ :: trace) := by
  refine fun _ => ⟨reached, unrecorded, h, hreached, not_refusing_error, fun code detail he => ?_⟩
  subst he
  trivial

/-- No step is open, and none is opened. -/
theorem aside_idle {c : ResearchCall} (hc : Aside c) : Told runId Idle c.perform (fun _ => Idle) Left :=
  told_perform (fun _ a h => h.neutral (aside_neutral hc (.ok a))) fun _ e h _ _ => h.neutral (aside_neutral hc (.error e))

/-- A step is open, and its page gains nothing. -/
theorem aside_opened {c : ResearchCall} (hc : Aside c) : Told runId (Opened stepId (some tool) false [] false) c.perform
    (fun _ => Opened stepId (some tool) false [] false) (Failing stepId tool) :=
  told_perform (fun _ a h => h.neutral (aside_neutral hc (.ok a))) fun _ e h _ =>
    failing_error (h.neutral (aside_neutral hc (.error e))) nofun

/-- The tool's port. -/
theorem port_opened {c : ResearchCall} (hc : c.tool? = some tool) :
    Told runId (Opened stepId (some tool) false [] false) c.perform (fun _ => Opened stepId (some tool) true [] false)
      (fun e trace => Opened stepId (some tool) false [] false trace ∧ Failing stepId tool e trace) := by
  have hquiet (answer : ResearchAnswer c) : begun? ⟨c, answer⟩ = none ∧ finished? ⟨c, answer⟩ = none ∧
      appended? ⟨c, answer⟩ = none ∧ appendFailed ⟨c, answer⟩ = false := by
    cases c <;> first | exact ⟨rfl, rfl, rfl, rfl⟩ | cases hc
  refine told_perform (fun trace a h => ?_) fun trace e h _ => ?_
  · obtain ⟨hbegun, hfinished, happended, hfailed⟩ := hquiet (.ok a)
    have hreturned : toolReturned ⟨c, .ok a⟩ = true := by simp [toolReturned, hc]; rfl
    simpa [hreturned, happended, hfailed] using h.call _ hbegun hfinished
  · obtain ⟨hbegun, hfinished, happended, hfailed⟩ := hquiet (.error e)
    have hreturned : toolReturned ⟨c, .error e⟩ = false := by simp [toolReturned]; exact fun _ => rfl
    have hopened : Opened stepId (some tool) false [] false (⟨c, .error e⟩ :: trace) := by
      simpa [hreturned, happended, hfailed] using h.call _ hbegun hfinished
    exact ⟨hopened, failing_error hopened nofun⟩

theorem port_told {c : ResearchCall} (hc : c.tool? = some tool) :
    Told runId (Opened stepId (some tool) false [] false) c.perform (fun _ => Opened stepId (some tool) true [] false)
      (Failing stepId tool) :=
  (port_opened hc).mono (fun _ h => h) (fun _ _ h => h) fun _ _ h => h.2

/-- The evidence of a call that went well, and its step finished with it. -/
theorem recordEvidence_told {originLocator summary} (htool : tool ≠ ResearchTool.sourceImport.value) :
    Told runId (Opened stepId (some tool) true [] false) (recordEvidence config tool stepId originLocator summary)
      (fun _ => Idle) (Failing stepId tool) := by
  refine Told.bind (R := fun (evidence : ResearchEvidence) => Opened stepId (some tool) true [evidence.evidenceId] false)
    ?_ fun evidence => ?_
  · refine told_perform (c := .appendEvidence config.runId tool originLocator) (fun _ evidence h => ?_) fun _ e h _ => ?_
    · exact h.call ⟨.appendEvidence config.runId tool originLocator, .ok evidence⟩ rfl rfl
    · exact failing_error (h.call ⟨.appendEvidence config.runId tool originLocator, .error e⟩ rfl rfl) fun _ => ⟨htool, rfl⟩
  · refine Told.bind (R := fun _ => Idle) ?_ fun _ => told_pure fun _ h => h
    refine told_perform (c := .finishStep stepId .succeeded summary none (some evidence.evidenceId)) (fun _ _ h => ?_)
      fun _ e h hmay hne => ?_
    · exact h.finish rfl rfl rfl rfl rfl (.inl rfl) (fun name hname => by simp) rfl
    · exact absurd (hmay hne).1 nofun

/-- A step whose tool was not reached is finished as failed; where that fails, it is still open. -/
theorem refused_told {summary errorCode} :
    Told runId (Opened stepId (some tool) false [] false)
      (ResearchCall.finishStep stepId .failed summary errorCode none).perform (fun _ => Idle) (Failing stepId tool) := by
  refine told_perform (c := .finishStep stepId .failed summary errorCode none) (fun _ _ h => ?_) fun _ e h _ => ?_
  · exact h.finish rfl rfl rfl rfl rfl (.inr rfl) (fun name hname => by simp) rfl
  · have hopened := h.call ⟨.finishStep stepId .failed summary errorCode none, .error e⟩ rfl rfl
    exact failing_error hopened nofun

theorem importMissing_told : Told runId (Opened stepId (some tool) false [] false) (importMissing stepId)
    (fun _ => Idle) (Failing stepId tool) :=
  Told.bind refused_told fun _ => told_pure fun _ h => h

/-- **What a dispatched call does**: at its end its step is finished, and where it raises, the step is to be finished
as failed. -/
theorem dispatchAction_told {action : PlannerAction} :
    Told runId (fun trace => Opened stepId (some action.tool) false [] false trace ∧ ¬ Refusing trace)
      (dispatchAction config stepId action) (fun _ => Idle) (Failing stepId action.tool) := by
  have hrecord {f : String → ToolTurn} {tool originLocator summary} (htool : tool ≠ ResearchTool.sourceImport.value) :
      Told runId (Opened stepId (some tool) true [] false)
        (do return f (← recordEvidence config tool stepId originLocator summary)) (fun _ => Idle) (Failing stepId tool) :=
    Told.bind (recordEvidence_told htool) fun _ => told_pure fun _ h => h
  have hthrow {name text} :
      Told runId (fun trace => Opened stepId (some action.tool) false [] false trace ∧ ¬ Refusing trace)
      (throw (.raised name text) : ResearchProgram ToolTurn) (fun _ => Idle) (Failing stepId action.tool) :=
    told_throw fun _ h _ => ⟨false, false, h.1, (fun hf => by cases hf), h.2, fun _ _ hf => by cases hf⟩
  have hstart {α : Type} {x : ResearchProgram α} {R : α → ResearchTrace → Prop}
      (h : Told runId (Opened stepId (some action.tool) false [] false) x R (Failing stepId action.tool)) :
      Told runId (fun trace => Opened stepId (some action.tool) false [] false trace ∧ ¬ Refusing trace) x R
        (Failing stepId action.tool) :=
    h.mono (fun _ h => h.1) (fun _ _ h => h) fun _ _ h => h
  cases action with
  | search query =>
    refine Told.bind (hstart (port_told (c := .search query) rfl)) fun hits => ?_
    exact hrecord (by simp [PlannerAction.tool, ResearchTool.value])
  | fetch url =>
    refine Told.bind (R := fun fetched trace => Opened stepId (some ResearchTool.webFetch.value)
      fetched.isOk [] false trace) (hstart ?_) fun fetched => ?_
    · refine Told.guarded (Told.map (port_opened (c := .fetch url) rfl)) fun e => ?_
      cases e with
      | interrupted => exact told_throw fun _ _ hne => absurd rfl hne
      | browserUnavailable | raised => exact told_pure fun _ h => h.1
    · cases fetched with
      | error e => exact Told.bind refused_told fun _ => told_pure fun _ h => h
      | ok fetched => exact hrecord (by simp [ResearchTool.value])
  | browserOpen url =>
    refine Told.bind (hstart (aside_opened (c := .listSteps _) trivial)) fun steps => ?_
    split
    · refine Told.bind ?_ fun _ => told_pure fun _ h => h
      exact Told.bind (aside_opened (c := .auditDenied ..) trivial) fun _ => refused_told
    · refine Told.bind (port_told (c := .browserOpen url) rfl) fun pageUrl => ?_
      exact hrecord (by simp [PlannerAction.tool, ResearchTool.value])
  | browserObserve focus =>
    refine Told.bind (hstart (port_told (c := .browserObserve focus) rfl)) fun pageUrl => ?_
    exact hrecord (by simp [PlannerAction.tool, ResearchTool.value])
  | browserInteract gesture selector value =>
    refine Told.bind (hstart (port_told (c := .browserInteract gesture selector value) rfl)) fun pageUrl => ?_
    exact hrecord (by simp [PlannerAction.tool, ResearchTool.value])
  | sourceImport evidenceId title =>
    dsimp only [dispatchAction]
    split
    · exact hthrow
    · refine hstart (Told.bind (R := fun _ => Opened stepId (some ResearchTool.sourceImport.value) false [] false)
        ?_ fun target => ?_)
      · exact Told.bind (aside_opened (c := .listEvidence _) trivial) fun rows => told_pure fun _ h => h
      rcases target with _ | ⟨_, _, _, _ | url, _⟩
      · exact importMissing_told
      · exact importMissing_told
      · refine Told.bind (port_told (c := .importFetched config url title) rfl) fun version => ?_
        refine Told.bind (R := fun _ => Opened stepId (some ResearchTool.sourceImport.value) true [] false) ?_ fun _ => ?_
        · exact told_perform (fun _ a h => h.neutral (aside_neutral (c := .markPromoted ..) trivial (.ok a)))
            fun _ e _ hmay hne => (hmay hne).elim
        · refine Told.bind (R := fun _ => Idle) ?_ fun _ => told_pure fun _ h => h
          refine told_perform (c := .finishStep stepId .succeeded _ none none) (fun _ _ h => ?_) fun _ e h hmay hne => ?_
          · exact h.finish rfl rfl rfl rfl rfl (.inl rfl) (fun name hname => by simp_all) rfl
          · exact absurd (hmay hne).1 fun hcall => by cases hcall
  | retrieve query =>
    refine Told.bind (hstart (port_told (c := .retrieve config query) rfl)) fun chunks => ?_
    exact hrecord (by simp [PlannerAction.tool, ResearchTool.value])
  | finish summary => exact hthrow

/-- The handlers finish the step. -/
theorem dispatchFailed_told {e : ResearchError} :
    Told runId (Failing stepId tool e) (dispatchFailed config stepId tool e) (fun _ => Idle) Left := by
  cases e with
  | browserUnavailable code detail =>
    refine Told.bind (R := fun (evidence : ResearchEvidence) trace => ∃ reached unrecorded,
      Opened stepId (some tool) reached [evidence.evidenceId] unrecorded trace ∧
        (reached = true → tool ≠ ResearchTool.sourceImport.value ∧ unrecorded = true) ∧ ¬ Refusing trace) ?_
      fun evidence => ?_
    · refine told_perform (c := .appendEvidence config.runId tool none) (fun _ evidence h => ?_) fun _ e h hmay hne => ?_
      · obtain ⟨reached, unrecorded, hopened, hreached, -, -⟩ := h nofun
        have hcalled := hopened.call ⟨.appendEvidence config.runId tool none, .ok evidence⟩ rfl rfl
        exact ⟨reached, unrecorded, hcalled, hreached, id⟩
      · obtain ⟨_, _, _, _, _, hunavailable⟩ := h nofun
        exact absurd (hunavailable code detail rfl) (hmay hne)
    · refine Told.bind (R := fun _ => Idle) ?_ fun _ => told_pure fun _ h => h
      refine told_perform (c := .finishStep stepId .failed none (some code) (some evidence.evidenceId))
        (fun _ _ h => ?_) fun _ e h hmay hne => ?_
      · obtain ⟨reached, unrecorded, hopened, hreached, -⟩ := h
        refine hopened.finish rfl rfl rfl rfl rfl (.inr rfl) (fun name hname => ?_) rfl
        cases hname
        refine ⟨nofun, fun ⟨hr, hrecorded⟩ => ?_⟩
        obtain ⟨hne, hun⟩ := hreached hr
        rcases hrecorded with himport | ⟨-, hrecorded⟩
        · exact absurd himport hne
        · rw [hun] at hrecorded
          cases hrecorded
      · obtain ⟨_, _, _, _, hrefusing⟩ := h
        exact absurd ((hmay hne).2.resolve_left nofun) hrefusing
  | raised name text =>
    refine Told.bind (R := fun _ => Idle) ?_ fun _ => told_pure fun _ h => h
    refine told_perform (c := .finishStep stepId .failed none (some name) none) (fun _ _ h => ?_) fun _ e h hmay hne => ?_
    · obtain ⟨reached, unrecorded, hopened, hreached, -, -⟩ := h nofun
      refine hopened.finish rfl rfl rfl rfl rfl (.inr rfl) (fun name hname => ?_) rfl
      cases hname
      refine ⟨nofun, fun ⟨hr, hrecorded⟩ => ?_⟩
      rcases hrecorded with himport | ⟨hnone, -⟩
      · exact absurd himport (hreached hr).1
      · exact absurd rfl hnone
    · obtain ⟨_, _, _, _, hrefusing, _⟩ := h nofun
      exact absurd ((hmay hne).2.resolve_left nofun) hrefusing
  | interrupted => exact told_throw fun _ _ hne => absurd rfl hne

/-- A dispatched call leaves no step open. -/
theorem dispatch_told {action : PlannerAction} :
    Told runId Idle (dispatch config action) (fun _ => Idle) Left := by
  refine Told.bind (aside_idle (c := .listSteps _) trivial) fun steps => ?_
  refine Told.bind
    (R := fun (stepId : Uuid) trace => Opened stepId (some action.tool) false [] false trace ∧ ¬ Refusing trace) ?_ fun stepId => Told.guarded dispatchAction_told fun e => dispatchFailed_told
  refine told_perform (c := .beginStep config.runId _ (kindByTool action) (some action.tool)) (fun _ stepId h => ?_)
    fun _ e h _ _ => ?_
  · exact ⟨h.begin rfl rfl, id⟩
  · exact h.neutral ⟨rfl, rfl, rfl, rfl, rfl⟩

/-- **A planning step** is finished: with the action, or as malformed. -/
theorem planAction_told {priorSteps} : Told runId Idle (planAction config priorSteps) (fun _ => Idle) Left := by
  refine Told.bind (aside_idle (c := .progress ..) trivial) fun _ => ?_
  refine Told.bind (R := fun (stepId : Uuid) => Opened stepId none false [] false) ?_ fun stepId => ?_
  · refine told_perform (c := .beginStep config.runId _ "plan" none) (fun _ stepId h => h.begin rfl rfl) fun _ e h _ _ => ?_
    exact h.neutral ⟨rfl, rfl, rfl, rfl, rfl⟩
  refine Told.bind (R := fun _ => Opened stepId none false [] false) ?_ fun planned => ?_
  · refine Told.guarded (G := fun e trace => e ≠ .interrupted →
      (∃ text, e = .raised "ActionParseError" text) ∧ Opened stepId none false [] false trace) (Told.map ?_) fun e => ?_
    · refine told_perform (c := .nextAction _) (fun _ a h => h.neutral (aside_neutral (c := .nextAction _) trivial (.ok a)))
        fun _ e h hmay hne => ⟨hmay hne, h.neutral (aside_neutral (c := .nextAction _) trivial (.error e))⟩
    · split
      next => exact told_pure fun _ h => (h nofun).2
      next hother =>
        refine told_throw fun _ h hne => ?_
        obtain ⟨⟨text, rfl⟩, -⟩ := h hne
        exact absurd rfl (hother text)
  · cases planned with
    | ok action =>
      refine Told.bind (R := fun _ => Idle) ?_ fun _ => told_pure fun _ h => h
      refine told_perform (c := .finishStep stepId .succeeded none none none) (fun _ _ h => ?_) fun _ e h hmay hne => ?_
      · exact h.finish rfl rfl rfl rfl rfl (.inl rfl) nofun rfl
      · exact absurd (hmay hne).1 nofun
    | error e =>
      refine Told.bind (R := fun _ => Idle) ?_ fun _ => told_pure fun _ h => h
      refine Told.bind (R := fun _ trace => Opened stepId none false [] false trace ∧ ¬ Refusing trace) ?_ fun _ => ?_
      · refine told_perform (c := .auditDenied config "none" "malformed_action" (some e)) (fun _ a h => ?_)
          fun _ e h hmay hne => absurd rfl (hmay hne)
        exact ⟨h.neutral (aside_neutral (c := .auditDenied ..) trivial (.ok a)), fun hne => hne rfl⟩
      · refine told_perform (c := .finishStep stepId .failed none (some "denied:malformed_action") none) (fun _ _ h => ?_)
          fun _ e h hmay hne => absurd ((hmay hne).2.resolve_left nofun) h.2
        exact h.1.finish rfl rfl rfl rfl rfl (.inr rfl) nofun rfl

theorem fail_told {errorCode} : Told runId Idle (fail config errorCode) (fun _ => Idle) Left :=
  Told.bind (aside_idle (c := .casStatus ..) trivial) fun _ => told_pure fun _ h => h

theorem succeed_told {summary} : Told runId Idle (succeed config summary) (fun _ => Idle) Left := by
  refine Told.bind (aside_idle (c := .listEvidence _) trivial) fun _ => ?_
  refine Told.bind (aside_idle (c := .casStatus ..) trivial) fun _ => ?_
  exact Told.bind (aside_idle (c := .listSteps _) trivial) fun _ => told_pure fun _ h => h

theorem callTool_told {action} : Told runId Idle (callTool config state action) (fun _ => Idle) Left := by
  have hfail {errorCode} : Told runId Idle
      (do return .inl (← fail config errorCode) : ResearchProgram (ExecutorOutcome ⊕ LoopState)) (fun _ => Idle) Left :=
    Told.bind fail_told fun _ => told_pure fun _ h => h
  refine told_ite (fun _ => hfail) fun _ => ?_
  refine Told.bind (R := fun _ => Idle) ?_ fun exceeded => ?_
  · refine told_ite (fun _ => ?_) fun _ => told_pure fun _ h => h
    refine Told.bind (R := fun _ => Idle) ?_ fun promotions => told_pure fun _ h => h
    exact Told.bind (aside_idle (c := .listEvidence _) trivial) fun _ => told_pure fun _ h => h
  refine told_ite (fun _ => hfail) fun _ => ?_
  refine Told.bind (aside_idle (c := .progress ..) trivial) fun _ => ?_
  refine Told.bind dispatch_told fun turn => ?_
  refine Told.bind (aside_idle (c := .listSteps _) trivial) fun steps => ?_
  exact Told.bind (aside_idle (c := .checkpoint _) trivial) fun _ => told_pure fun _ h => h

theorem actOn_told {planned} : Told runId Idle (actOn config state planned) (fun _ => Idle) Left := by
  rcases planned with _ | action
  · exact told_pure fun _ h => h
  cases action with
  | finish summary => exact Told.bind succeed_told fun _ => told_pure fun _ h => h
  | _ =>
    simp only [actOn]
    split
    · refine Told.bind (R := fun _ => Idle) ?_ fun _ => ?_
      · exact Told.bind (aside_idle (c := .auditDenied ..) trivial) fun _ => told_pure fun _ h => h
      · refine told_ite (fun _ => ?_) fun _ => told_pure fun _ h => h
        exact Told.bind fail_told fun _ => told_pure fun _ h => h
    · exact callTool_told

theorem iteration_told : Told runId Idle (iteration config state) (fun _ => Idle) Left := by
  refine Told.bind (aside_idle (c := .getRun _) trivial) fun live => ?_
  cases live with
  | none => exact told_pure fun _ h => h
  | some run =>
    refine told_ite (fun _ => told_pure fun _ h => h) fun _ => ?_
    refine Told.bind (aside_idle (c := .shouldStop) trivial) fun stop => ?_
    refine told_ite (fun _ => told_pure fun _ h => h) fun _ => ?_
    refine Told.bind (aside_idle (c := .listSteps _) trivial) fun priorSteps => ?_
    refine told_ite (fun _ => Told.bind fail_told fun _ => told_pure fun _ h => h) fun _ => ?_
    exact Told.bind planAction_told fun _ => actOn_told

theorem loop_told (fuel : Nat) : Told runId Idle (loop config fuel state) (fun _ => Idle) Left := by
  induction fuel generalizing state with
  | zero => exact told_throw fun _ _ hne => absurd rfl hne
  | succ fuel ih =>
    refine Told.bind iteration_told fun r => ?_
    cases r with
    | inl outcome => exact told_pure fun _ h => h
    | inr state' => exact ih

/-- **An execution** leaves no step open, where its calls raise only as they may. -/
theorem execute_told {planned fuel} : Told runId Idle (execute planned fuel runId) (fun _ => Idle) Left := by
  refine Told.bind (aside_idle (c := .getRun _) trivial) fun found => ?_
  cases found with
  | none => exact told_throw fun _ h _ => h
  | some run =>
    refine told_ite (fun _ => told_pure fun _ h => h) fun _ => ?_
    refine told_ite (fun _ => fail_told) fun _ => ?_
    refine Told.bind (R := fun _ => Idle) ?_ fun toolCalls => loop_told fuel
    exact Told.bind (aside_idle (c := .listSteps _) trivial) fun _ => told_pure fun _ h => h

end Calls

/-! ## The rows -/

/-- What the row of a step tells, after these calls. -/
def filed (stepId : Uuid) : ResearchTrace → StepStatus × Option Uuid
  | [] => (.running, none)
  | ev :: trace =>
    if (begun? ev).any (·.1 = stepId) then (.running, none)
    else
      match finished? ev with
      | some finish => if finish.stepId = stepId then (finish.status, finish.evidenceId <|> (filed stepId trace).2)
        else filed stepId trace
      | none => filed stepId trace

/-- Each step that was begun has its row, and no other; and the rows tell what the calls came to. -/
structure Filed (runId : Uuid) (s : ResearchRecord) : Prop where
  once : ((pages s.2).map (·.stepId)).Nodup
  stored : ∀ page ∈ pages s.2, ∃ row ∈ s.1.steps, row.runId = runId ∧ row.stepId = page.stepId
  told : ∀ row ∈ s.1.steps, row.runId = runId → row.stepId ∈ (pages s.2).map (·.stepId) →
    (row.status, row.evidenceId) = filed row.stepId s.2

/-- A call that begins no step but of the run. -/
def BeginsOwn (runId : Uuid) : ResearchCall → Prop
  | .beginStep r .. => r = runId
  | _ => True

section Rows

variable {runId stepId : Uuid} {trace : ResearchTrace} {ev : ResearchEvent} {s s' : ResearchRecord}

theorem filed_cons_none (hbegun : begun? ev = none) (hfinished : finished? ev = none) :
    filed stepId (ev :: trace) = filed stepId trace := by
  simp [filed, hbegun, hfinished]

theorem ids_cons_none (trace : ResearchTrace) {ev : ResearchEvent} (hbegun : begun? ev = none) :
    (pages (ev :: trace)).map (·.stepId) = (pages trace).map (·.stepId) := by
  cases hpages : pages trace with
  | nil => simp [pages, hbegun, hpages]
  | cons page before => rw [pages_cons_none hbegun hpages, List.map_cons, List.map_cons]

theorem Filed.beside (hr : Beside (SameSteps runId) s s') (h : Filed runId s) : Filed runId s' := by
  obtain ⟨hsteps, htrace⟩ := hr
  refine ⟨htrace ▸ h.once, fun page hpage => ?_, fun row hrow hrun hid => ?_⟩
  · obtain ⟨row, hrow, hrun, hid⟩ := h.stored page (htrace ▸ hpage)
    exact ⟨row, (hsteps row hrun).2 hrow, hrun, hid⟩
  · rw [htrace] at hid ⊢
    exact h.told row ((hsteps row hrun).1 hrow) hrun hid

/-- A call that writes no step. -/
theorem Filed.same {ev : ResearchEvent} {w : ResearchWorld} (h : Filed runId s) (hbegun : begun? ev = none)
    (hfinished : finished? ev = none) (hsteps : w.steps = s.1.steps) : Filed runId (w, ev :: s.2) := by
  have hids := ids_cons_none s.2 hbegun
  refine ⟨hids ▸ h.once, fun page hpage => ?_, fun row hrow hrun hid => ?_⟩
  · have hmem : page.stepId ∈ (pages s.2).map (·.stepId) := hids ▸ List.mem_map_of_mem hpage
    obtain ⟨old, hold, hsame⟩ := List.mem_map.1 hmem
    obtain ⟨row, hrow, hrun, hid⟩ := h.stored old hold
    exact ⟨row, hsteps ▸ hrow, hrun, hid.trans hsame⟩
  · rw [filed_cons_none hbegun hfinished]
    exact h.told row (hsteps ▸ hrow) hrun (hids ▸ hid)

/-- The row of a step that begins is new. -/
theorem Filed.begin {row : ResearchStep} {ev : ResearchEvent} {tool : Option String} (h : Filed runId s)
    (hnew : ¬ s.1.steps.any fun old => old.stepId = row.stepId || old.runId = row.runId && old.stepNumber = row.stepNumber)
    (hrun : row.runId = runId) (hrow : row.status = .running ∧ row.evidenceId = none)
    (hbegun : begun? ev = some (row.stepId, tool)) : Filed runId ({ s.1 with steps := s.1.steps ++ [row] }, ev :: s.2) := by
  have hother : ∀ old ∈ s.1.steps, old.stepId ≠ row.stepId := by
    intro old hold hid
    exact hnew (List.any_eq_true.2 ⟨old, hold, by simp [hid]⟩)
  have hpages : pages (ev :: s.2) = ⟨row.stepId, tool, []⟩ :: pages s.2 := by simp only [pages, hbegun]
  have hfresh : row.stepId ∉ (pages s.2).map (·.stepId) := by
    intro hmem
    obtain ⟨page, hpage, hid⟩ := List.mem_map.1 hmem
    obtain ⟨old, hold, -, hold'⟩ := h.stored page hpage
    exact hother old hold (hold'.trans hid)
  refine ⟨?_, fun page hpage => ?_, fun r hr hrun' hid => ?_⟩
  · rw [hpages, List.map_cons]
    exact List.nodup_cons.2 ⟨hfresh, h.once⟩
  · rw [hpages] at hpage
    rcases List.mem_cons.1 hpage with rfl | hpage
    · exact ⟨row, by simp, hrun, rfl⟩
    · obtain ⟨old, hold, hrun, hid⟩ := h.stored page hpage
      exact ⟨old, List.mem_append_left _ hold, hrun, hid⟩
  · rcases List.mem_append.1 hr with hold | hlast
    · have hne := hother r hold
      rw [hpages, List.map_cons, List.mem_cons] at hid
      have hfinished : finished? ev = none := by
        obtain ⟨c, answer⟩ := ev
        cases c <;> first | rfl | cases hbegun
      have hkept : filed r.stepId (ev :: s.2) = filed r.stepId s.2 := by
        simp [filed, hbegun, hfinished, Ne.symm hne]
      rw [hkept]
      exact h.told r hold hrun' (hid.resolve_left hne)
    · obtain rfl := List.mem_singleton.1 hlast
      simp [filed, hbegun, hrow]

/-- A finish changes the rows of its step. -/
theorem Filed.finish {status summary errorCode evidenceId} (h : Filed runId s) :
    Filed runId (s.1.finishStep stepId status summary errorCode evidenceId,
      ⟨.finishStep stepId status summary errorCode evidenceId, .ok ()⟩ :: s.2) := by
  have hbegun : begun? ⟨.finishStep stepId status summary errorCode evidenceId, .ok ()⟩ = none := rfl
  have hids := ids_cons_none s.2 hbegun
  have hfiled (id : Uuid) : filed id (⟨.finishStep stepId status summary errorCode evidenceId, .ok ()⟩ :: s.2) =
      if stepId = id then (status, evidenceId <|> (filed id s.2).2) else filed id s.2 := rfl
  refine ⟨hids ▸ h.once, fun page hpage => ?_, fun row hrow hrun hid => ?_⟩
  · have hmem : page.stepId ∈ (pages s.2).map (·.stepId) := hids ▸ List.mem_map_of_mem hpage
    obtain ⟨old, hold, hsame⟩ := List.mem_map.1 hmem
    obtain ⟨row, hrow, hrun, hid⟩ := h.stored old hold
    refine ⟨_, List.mem_map_of_mem hrow, ?_⟩
    split
    · exact ⟨hrun, hid.trans hsame⟩
    · exact ⟨hrun, hid.trans hsame⟩
  · rw [hids] at hid
    rw [hfiled]
    rcases Table.mem_update hrow with ⟨hmem, hne⟩ | ⟨old, hold, hsame, rfl⟩
    · have hne : stepId ≠ row.stepId := fun heq => by simp [heq] at hne
      rw [if_neg hne]
      exact h.told row hmem hrun hid
    · have hsame : old.stepId = stepId := by simpa using hsame
      have hold := h.told old hold hrun hid
      have hsame' : stepId = (ResearchWorld.finishedStep status summary errorCode evidenceId old).stepId := hsame.symm
      rw [if_pos hsame', ← hsame', ← hsame, ← hold]
      rfl

/-- **Every call of an execution** keeps the rows and what is told of them in step. -/
theorem Filed.exec {c : ResearchCall} {env : ResearchEnv} (hc : BeginsOwn runId c) (h : Filed runId s) :
    Filed runId (recordedExec c env s).2 := by
  have hquiet (hw : c.WritesNoStep) (answer : ResearchAnswer c) :
      begun? ⟨c, answer⟩ = none ∧ finished? ⟨c, answer⟩ = none := by
    cases c <;> first | exact ⟨rfl, rfl⟩ | exact hw.elim
  by_cases hwrites : c.WritesNoStep
  · obtain ⟨hbegun, hfinished⟩ := hquiet hwrites (c.exec env s.1).1
    exact h.same hbegun hfinished (steps_exec hwrites)
  · simp only [recorded]
    cases hraise : env.raises with
    | some e =>
      simp only [ResearchCall.exec, hraise]
      cases c with
      | beginStep | finishStep => exact h.same rfl rfl rfl
      | _ => exact absurd trivial hwrites
    | none =>
      simp only [ResearchCall.exec, hraise]
      cases c with
      | finishStep stepId status summary errorCode evidenceId => exact h.finish
      | beginStep r number kind tool =>
        simp only [ResearchCall.effect, ResearchWorld.insertStep]
        split
        next => exact h.same rfl rfl rfl
        next hnew => exact h.begin hnew hc ⟨rfl, rfl⟩ rfl
      | _ => exact absurd trivial hwrites

/-! ### Pages that are closed -/

theorem pages_cons {page : StepPage} (h : page ∈ pages (ev :: trace)) :
    (∃ tool, begun? ev = some (page.stepId, tool)) ∧ page.calls = [] ∨
      ∃ old ∈ pages trace, page.stepId = old.stepId ∧
        (page.calls = old.calls ∨ begun? ev = none ∧ page.calls = ev :: old.calls) := by
  rw [pages] at h
  split at h
  next id tool hbegun =>
    rcases List.mem_cons.1 h with rfl | h
    · exact .inl ⟨⟨tool, hbegun⟩, rfl⟩
    · exact .inr ⟨page, h, rfl, .inl rfl⟩
  next hbegun =>
    split at h
    · cases h
    next first before hpages =>
      rw [hpages]
      rcases List.mem_cons.1 h with rfl | h
      · exact .inr ⟨first, List.mem_cons_self, rfl, .inr ⟨hbegun, rfl⟩⟩
      · exact .inr ⟨page, List.mem_cons_of_mem _ h, rfl, .inl rfl⟩

/-- The calls of a page were made. -/
theorem pages_calls {page : StepPage} {call : ResearchEvent} (h : page ∈ pages trace) (hcall : call ∈ page.calls) :
    call ∈ trace := by
  induction trace generalizing page with
  | nil => cases h
  | cons ev trace ih =>
    rcases pages_cons h with ⟨-, hnil⟩ | ⟨old, hold, -, hsame | ⟨-, hmore⟩⟩
    · rw [hnil] at hcall
      cases hcall
    · exact List.mem_cons_of_mem _ (ih hold (hsame ▸ hcall))
    · rw [hmore] at hcall
      rcases List.mem_cons.1 hcall with rfl | hcall
      · exact List.mem_cons_self
      · exact List.mem_cons_of_mem _ (ih hold hcall)

theorem filed_none (h : ∀ finish ∈ finishes trace, finish.stepId ≠ stepId) : filed stepId trace = (.running, none) := by
  induction trace with
  | nil => rfl
  | cons ev trace ih =>
    simp only [filed]
    split
    · rfl
    · cases hfinished : finished? ev with
      | none =>
        rw [finishes_cons_none hfinished] at h
        exact ih h
      | some finish =>
        rw [finishes_cons_some hfinished] at h
        exact (if_neg (h finish List.mem_cons_self)).trans (ih fun f hf => h f (List.mem_cons_of_mem _ hf))

theorem nodup_of_cons (h : ((pages (ev :: trace)).map (·.stepId)).Nodup) :
    ((pages trace).map (·.stepId)).Nodup ∧
      ∀ id tool, begun? ev = some (id, tool) → id ∉ (pages trace).map (·.stepId) := by
  cases hbegun : begun? ev with
  | none =>
    rw [ids_cons_none trace hbegun] at h
    exact ⟨h, nofun⟩
  | some begun =>
    have hpages : pages (ev :: trace) = ⟨begun.1, begun.2, []⟩ :: pages trace := by simp only [pages, hbegun]
    rw [hpages, List.map_cons, List.nodup_cons] at h
    exact ⟨h.2, fun id tool heq => by cases heq; exact h.1⟩

/-- **The row of a closed page** tells its finish. -/
theorem filed_made {page : StepPage} {call : ResearchEvent} {finish : StepFinish}
    (honce : ((pages trace).map (·.stepId)).Nodup) (honly : ((finishes trace).map (·.stepId)).Nodup)
    (hpage : page ∈ pages trace) (hcall : call ∈ page.calls) (hfinish : finished? call = some finish)
    (hsame : finish.stepId = page.stepId) : filed page.stepId trace = (finish.status, finish.evidenceId) := by
  induction trace generalizing page with
  | nil => cases hpage
  | cons ev trace ih =>
    obtain ⟨honce', hfresh⟩ := nodup_of_cons honce
    have honly' : ((finishes trace).map (·.stepId)).Nodup :=
      honly.sublist (((List.sublist_cons_self ev trace).filterMap _).map _)
    rcases pages_cons hpage with ⟨-, hnil⟩ | ⟨old, hold, hid, hcalls⟩
    · rw [hnil] at hcall
      cases hcall
    · have hnot : ¬ (begun? ev).any (·.1 = page.stepId) = true := by
        intro hany
        obtain ⟨begun, hbegun, heq⟩ := (Option.any_eq_true _ _).1 hany
        have heq : begun.1 = page.stepId := of_decide_eq_true heq
        exact hfresh begun.1 begun.2 hbegun (heq ▸ hid ▸ List.mem_map_of_mem hold)
      have hearlier (hmem : call ∈ old.calls) : filed page.stepId (ev :: trace) = (finish.status, finish.evidenceId) := by
        have hrest : filed page.stepId trace = (finish.status, finish.evidenceId) :=
          hid ▸ ih honce' honly' hold hmem (hsame.trans hid)
        rw [filed, if_neg hnot]
        cases hfinished : finished? ev with
        | none => exact hrest
        | some other =>
          have hin : finish ∈ finishes trace := List.mem_filterMap.2 ⟨call, pages_calls hold hmem, hfinish⟩
          rw [finishes_cons_some hfinished, List.map_cons, List.nodup_cons] at honly
          have hne : other.stepId ≠ page.stepId := fun heq =>
            honly.1 (heq.trans hsame.symm ▸ List.mem_map_of_mem hin)
          exact (if_neg hne).trans hrest
      rcases hcalls with hkept | ⟨hbegun, hmore⟩
      · exact hearlier (hkept ▸ hcall)
      · rw [hmore] at hcall
        rcases List.mem_cons.1 hcall with rfl | hcall
        · rw [finishes_cons_some hfinish, List.map_cons, List.nodup_cons] at honly
          have hnone : filed page.stepId trace = (.running, none) := filed_none fun f hf heq =>
            honly.1 (hsame.trans heq.symm ▸ List.mem_map_of_mem hf)
          rw [filed, if_neg hnot, hfinish]
          simp [hsame, hnone]
        · exact hearlier hcall

end Rows

/-! ## Every step is closed -/

/-- The steps that were begun are distinct; they were finished one by one, as their calls came out; and each has its
row, which tells so. -/
structure StepsClosed (runId : Uuid) (s : ResearchRecord) : Prop where
  once : ((pages s.2).map (·.stepId)).Nodup
  closed : List.Forall₂ ClosedBy (pages s.2) (finishes s.2)
  rows : ∀ page ∈ pages s.2, ∀ finish ∈ finishes s.2, finish.stepId = page.stepId →
    (∃ row ∈ s.1.steps, row.runId = runId ∧ row.stepId = page.stepId) ∧
      ∀ row ∈ s.1.steps, row.runId = runId → row.stepId = page.stepId →
        row.status = finish.status ∧ row.evidenceId = finish.evidenceId

theorem closed_ids {pages : List StepPage} {finishes : List StepFinish} (h : List.Forall₂ ClosedBy pages finishes) :
    finishes.map (·.stepId) = pages.map (·.stepId) := by
  induction h with
  | nil => rfl
  | cons hclosed _ ih => rw [List.map_cons, List.map_cons, hclosed.same, ih]

/-- A finish of a page's step is the one that closes it. -/
theorem closed_by {pages : List StepPage} {finishes : List StepFinish} (h : List.Forall₂ ClosedBy pages finishes)
    (honce : (pages.map (·.stepId)).Nodup) {page : StepPage} {finish : StepFinish} (hpage : page ∈ pages)
    (hfinish : finish ∈ finishes) (hsame : finish.stepId = page.stepId) : ClosedBy page finish := by
  induction h with
  | nil => cases hpage
  | @cons first firstFinish rest restFinishes hclosed hrest ih =>
    rw [List.map_cons, List.nodup_cons] at honce
    rcases List.mem_cons.1 hpage with rfl | hpage
    · rcases List.mem_cons.1 hfinish with rfl | hfinish
      · exact hclosed
      · have hmem : finish.stepId ∈ rest.map (·.stepId) := closed_ids hrest ▸ List.mem_map_of_mem hfinish
        exact absurd (hsame ▸ hmem) honce.1
    · rcases List.mem_cons.1 hfinish with rfl | hfinish
      · have hmem : page.stepId ∈ rest.map (·.stepId) := List.mem_map_of_mem hpage
        exact absurd (hclosed.same.symm.trans hsame ▸ hmem) honce.1
      · exact ih honce.2 hpage hfinish

theorem stepsClosed {runId : Uuid} {s : ResearchRecord} (h : Idle s.2) (hfiled : Filed runId s) : StepsClosed runId s := by
  refine ⟨hfiled.once, h, fun page hpage finish hfinish hsame => ⟨hfiled.stored page hpage, fun row hrow hrun hid => ?_⟩⟩
  have hclosed := closed_by h hfiled.once hpage hfinish hsame
  obtain ⟨call, hcall, hmade⟩ := hclosed.made
  have htold := hfiled.told row hrow hrun (hid ▸ List.mem_map_of_mem hpage)
  rw [hid, filed_made hfiled.once (closed_ids h ▸ hfiled.once) hpage hcall hmade hsame] at htold
  exact ⟨congrArg Prod.fst htold, congrArg Prod.snd htold⟩

/-! ### What an execution begins -/

section Own

variable {config : RunConfig} {state : LoopState} {runId : Uuid}

theorem begins_unplanned {c : ResearchCall} (h : c.Unplanned runId) : BeginsOwn runId c := by
  cases c <;> first | exact h | trivial

theorem begins_records (c : ResearchCall) (h : c.Records) : BeginsOwn runId c :=
  begins_unplanned (unplanned_records c h)

theorem iteration_begins : Only (BeginsOwn config.runId) (iteration config state).run := by
  refine Only.bind (perform_only (c := .getRun _) trivial) fun live => ?_
  cases live with
  | none => exact only_pure _
  | some run =>
    refine only_ite (fun _ => only_pure _) fun _ => ?_
    refine Only.bind (perform_only (c := .shouldStop) trivial) fun stop => ?_
    refine only_ite (fun _ => only_pure _) fun _ => ?_
    refine Only.bind (perform_only (c := .listSteps _) trivial) fun priorSteps => ?_
    refine only_ite (fun _ => ?_) fun _ => ?_
    · exact Only.bind (fail_unplanned.mono fun _ => begins_unplanned) fun _ => only_pure _
    · have hplan : Only (BeginsOwn config.runId) (planAction config priorSteps).run :=
        planAction_only begins_records (fun _ _ _ => rfl) (fun _ _ => trivial) fun _ => trivial
      exact Only.bind hplan fun planned => actOn_unplanned.mono fun _ => begins_unplanned

theorem loop_begins (fuel : Nat) : Only (BeginsOwn config.runId) (loop config fuel state).run := by
  induction fuel generalizing state with
  | zero => exact only_throw _
  | succ fuel ih =>
    refine Only.bind iteration_begins fun r => ?_
    cases r with
    | inl outcome => exact only_pure _
    | inr state' => exact ih

theorem drive_begins {planned fuel} {run : ResearchRun} : Only (BeginsOwn run.runId) (drive planned fuel run).run := by
  refine only_ite (fun _ => only_pure _) fun _ => ?_
  refine only_ite (fun _ => ?_) fun _ => ?_
  · exact Only.mono (@fail_unplanned run.toRunConfig _) fun _ => begins_unplanned
  · refine Only.bind ?_ fun toolCalls => @loop_begins run.toRunConfig _ fuel
    exact Only.bind (perform_only (c := .listSteps _) trivial) fun _ => only_pure _

/-- The steps that an execution begins have their rows. -/
theorem execute_filed {planned fuel} {w : ResearchWorld} :
    (execute planned fuel runId).run.Safe recordedExec (Beside (SameSteps runId)) Closing (fun _ => True)
      (fun _ s => Filed runId s) (w, []) := by
  refine Safe.seq ⟨trivial, fun s env hr _ => ⟨trivial, ?_⟩⟩
  have hnone : Filed runId (w, []) := ⟨List.nodup_nil, nofun, nofun⟩
  have hstart : Filed runId (recordedExec (.getRun runId) env s).2 := (hnone.beside hr).exec trivial
  have hread : RunRead (.getRun runId) (recordedExec (.getRun runId) env s).1 := runRead_exec env (.getRun runId) s.1
  generalize (recordedExec (.getRun runId) env s).2 = s' at hstart
  generalize (recordedExec (.getRun runId) env s).1 = answer at hread
  rcases answer with e | _ | run
  · exact hstart
  · exact ⟨trivial, hstart⟩
  · obtain rfl : run.runId = runId := hread run rfl
    exact Only.safe drive_begins hstart (fun _ _ => trivial) (fun _ _ => Filed.beside) fun _ _ _ => Filed.exec

end Own

/-- **Every research step is closed.** Where the calls of an execution raise only as they may, then whenever it returns
or raises, every step that it began was finished exactly once, and its row tells what the calls for it came to. -/
theorem steps_closed (planned : RunMode → Bool) (fuel : Nat) (runId : Uuid) (w : ResearchWorld) :
    (execute planned fuel runId).run.Safe recordedExec (Beside (SameSteps runId)) Closing (fun _ => True)
      (fun r s => r ≠ .error .interrupted → StepsClosed runId s) (w, []) := by
  have htold : Told runId Idle (execute planned fuel runId) (fun _ => Idle) Left := execute_told
  have hboth := Safe.and (htold (w, []) .nil) execute_filed
  refine (hboth.weaken fun _ _ => trivial).mono fun r s _ h hne => stepsClosed ?_ h.2
  cases r with
  | ok outcome => exact h.1
  | error e => exact h.1 fun he => hne (congrArg Except.error he)

/-- The process was stopped. -/
def stopped : Except ResearchError ExecutorOutcome → Bool
  | .error .interrupted => true
  | _ => false

/-- The planner raises something else than an ActionParseError, and its step is left running. -/
theorem step_left_running :
    ¬ ∀ (planned : RunMode → Bool) (fuel : Nat) (runId : Uuid) (w : ResearchWorld),
      (execute planned fuel runId).run.Safe recordedExec (Beside (SameSteps runId)) (fun _ _ _ => True) (fun _ => True)
        (fun r s => r ≠ .error .interrupted → StepsClosed runId s) (w, []) := by
  intro h
  let start : Serial ResearchCall ResearchAnswer ResearchRecord (Except ResearchError ExecutorOutcome) :=
    ⟨({ runs := [importingRun {}] }, []), (execute (fun _ => true) 9 1).run⟩
  let calls : List ResearchEnv := List.replicate 7 {}
  let planner : ResearchEnv := { raises := some (.raised "RuntimeError" "no model") }
  have hopen : ((((calls.map Serial.Move.call).foldl
      (Serial.move recordedExec fun _ : Unit => (execute (fun _ => true) 9 1).run) start).last? recordedExec planner).map
        fun last => (stopped last.1, (pages last.2.2).length, (finishes last.2.2).length)) = some (false, 1, 0) := by
    decide +kernel
  obtain ⟨⟨outcome, s⟩, hlast, hcounts⟩ := Option.map_eq_some_iff.1 hopen
  simp only [Prod.mk.injEq] at hcounts
  obtain ⟨hstopped, hpages, hfinishes⟩ := hcounts
  have hclosed : outcome ≠ .error .interrupted → StepsClosed 1 s := by
    refine Safe.last (fun _ => ⟨fun _ _ => Iff.rfl, rfl⟩) ?_ (fun _ _ (ho : False) => ho.elim) (fun _ _ _ h => h)
      (h (fun _ => true) 9 1 { runs := [importingRun {}] }) (Serial.among_calls calls start) hlast
    exact fun _ _ _ hr hr' => ⟨fun s hs => (hr'.1 s hs).trans (hr.1 s hs), hr'.2.trans hr.2⟩
  have hlength := (hclosed fun he => by simp [he, stopped] at hstopped).closed.length_eq
  omega

end MilpbookLM.StepClosure
