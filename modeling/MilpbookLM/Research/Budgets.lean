/-
The budgets of a run over any number of executions, one at a time, each abandoned
anywhere. An iteration of the loop adds a planning step and at most one tool call
(`iteration_keeps`), from which follow the budgets of steps and tool calls
(`steps_within_budget`) and of imports (`imports_within_budget`).
-/
import MilpbookLM.Research.Tally

namespace MilpbookLM

open Interleave Prog

namespace ResearchRunExecutor

/-! ## The loop -/

/-- The call would be dispatched: it is authorised, and within the budgets of calls and imports. -/
structure Dispatched (config : RunConfig) (t : Tally) (action : PlannerAction) : Prop where
  authorized : Authorized config action.tool
  calls : t.tools < config.budget.maxToolCalls
  imports : action.tool = ResearchTool.sourceImport.value → t.promotions < config.budget.maxImports

/-- The planner's proposal of the action meets `cond`, in a state that adds up to `t`. -/
def Proposed (cond : ResearchCall → ResearchEnv → ResearchWorld → Prop) (config : RunConfig) (t : Tally)
    (action : PlannerAction) : Prop :=
  ∃ env w context, Holds config t w ∧ cond (.nextAction context) env w ∧ env.raises = none ∧
    parseAction env.proposal = .ok action

/-- The tally is one that `G` admits. -/
def TallyIn (config : RunConfig) (G : Tally → Prop) (w : ResearchWorld) : Prop := ∃ t, Holds config t w ∧ G t

/-- A part of an execution, from a state that adds up to `t`: the tally is one that `G`
admits throughout, and `R` holds where it returns. -/
abbrev Keeps {α : Type} (config : RunConfig) (cond : ResearchCall → ResearchEnv → ResearchWorld → Prop)
    (G : Tally → Prop) (x : ResearchProgram α) (R : α → ResearchWorld → Prop) (w : ResearchWorld) : Prop :=
  Leaves researchExec (SameRun config.runId) cond (TallyIn config G) x R (fun _ => True) w

/-- What an iteration goes on with: the tally in memory is the one of the rows. -/
def Continues (config : RunConfig) (G : Tally → Prop) (r : ExecutorOutcome ⊕ LoopState) (w : ResearchWorld) : Prop :=
  ∀ s, r = .inr s → ∃ t, Holds config t w ∧ G t ∧ s.toolCalls = t.tools

section Loop

variable {config : RunConfig} {cond : ResearchCall → ResearchEnv → ResearchWorld → Prop} {G : Tally → Prop} {t : Tally}
  {w : ResearchWorld} {action : PlannerAction} {s : LoopState}

theorem quiet_keeps {c : ResearchCall} (hc : ∀ w, c.AddsNothing config.runId w) (hG : G t) (hw : Holds config t w) :
    Keeps config cond G c.perform
      (fun a w' => Holds config t w' ∧ ∃ env w₀, Holds config t w₀ ∧ cond c env w₀ ∧ .ok a = (c.exec env w₀).1) w :=
  (ResearchCall.keeps hc (fun _ hw => ⟨t, hw, hG⟩) hw).mono (fun _ _ _ h => h) fun _ _ _ => trivial

/-- A program of calls that add nothing. -/
theorem quiet_program {α : Type} {x : ResearchProgram α} (hx : Only (fun c => ∀ w, c.AddsNothing config.runId w) x.run)
    (hG : G t) (hw : Holds config t w) : Keeps config cond G x (fun _ => Holds config t) w := by
  refine (Only.leaves (P := Holds config t) hx hw (fun _ hw => ⟨t, hw, hG⟩) (fun _ _ => SameRun.holds) ?_).mono
    (fun _ _ _ h => h) fun _ _ _ => trivial
  exact fun c env w hc hw => ⟨(tally_exec (hc w)).trans hw.1, config?_exec.trans hw.2⟩

theorem exec_ok {c : ResearchCall} {env a} (h : .ok a = (c.exec env w).1) :
    env.raises = none ∧ .ok a = (c.effect env w).1 := by
  cases hr : env.raises with
  | some e =>
    simp only [ResearchCall.exec, hr] at h
    cases h
  | none =>
    simp only [ResearchCall.exec, hr] at h
    exact ⟨rfl, h⟩

/-- The steps that are listed are the tally's. -/
theorem listSteps_keeps (hG : G t) (hw : Holds config t w) :
    Keeps config cond G (ResearchCall.listSteps config.runId).perform
      (fun (steps : List ResearchStep) w => Holds config t w ∧ steps.length = t.steps ∧
        steps.countP (·.toolName.isSome) = t.tools) w := by
  refine (quiet_keeps (c := .listSteps _) (fun _ => trivial) hG hw).mono (fun steps w _ h => ?_) fun _ _ _ => trivial
  obtain ⟨hw, env, w₀, ⟨rfl, -⟩, -, hans⟩ := h
  obtain rfl : steps = w₀.listSteps config.runId := Except.ok.inj (exec_ok hans).2
  refine ⟨hw, ?_, ?_⟩
  · rw [ResearchWorld.listSteps, List.length_insertionSort, ResearchWorld.tally, List.countP_eq_length_filter]
  · rw [ResearchWorld.listSteps, (List.perm_insertionSort _ _).countP_eq, List.countP_filter]
    exact List.countP_congr fun s _ => by simp [and_comm]

theorem fail_keeps {errorCode} (hG : G t) (hw : Holds config t w) :
    Keeps config cond G (fail config errorCode) (fun _ => Holds config t) w :=
  quiet_program (Only.bind (perform_only (c := .casStatus ..) fun _ => trivial) fun _ => only_pure _) hG hw

theorem succeed_keeps {summary} (hG : G t) (hw : Holds config t w) :
    Keeps config cond G (succeed config summary) (fun _ => Holds config t) w := by
  refine quiet_program ?_ hG hw
  refine Only.bind (perform_only (c := .listEvidence _) fun _ => trivial) fun _ => ?_
  refine Only.bind (perform_only (c := .casStatus ..) fun _ => trivial) fun _ => ?_
  exact Only.bind (perform_only (c := .listSteps _) fun _ => trivial) fun _ => only_pure _

theorem deny_keeps {reason tool stepId detail} (hG : G t) (hw : Holds config t w) :
    Keeps config cond G (deny config reason tool stepId detail) (fun _ => Holds config t) w := by
  refine quiet_program ?_ hG hw
  refine Only.bind (perform_only fun _ => trivial) fun _ => ?_
  cases stepId with
  | none => exact only_pure ()
  | some stepId => exact perform_only fun _ => trivial

/-- The outcome of the iteration, and not what it goes on with. -/
theorem ends_keeps {x : ResearchProgram ExecutorOutcome} (h : Keeps config cond G x (fun _ => Holds config t) w)
    (hG : G t) : Keeps config cond G (do return .inl (← x)) (Continues config G) w :=
  Leaves.bind h fun _ _ _ hw => leaves_pure ⟨t, hw, hG⟩ fun _ hs => nomatch hs

/-- The promotions that are counted are the tally's. -/
theorem importsExceeded_keeps {tool} (hG : G t) (hw : Holds config t w) :
    Keeps config cond G (importsExceeded config tool)
      (fun exceeded w => Holds config t w ∧
        (exceeded = false → tool = ResearchTool.sourceImport.value → t.promotions < config.budget.maxImports)) w := by
  refine leaves_ite (fun _ => ?_) fun hne => leaves_pure ⟨t, hw, hG⟩ ⟨hw, fun _ h => absurd h hne⟩
  refine Leaves.bind (R := fun promotions w => Holds config t w ∧ promotions = t.promotions) ?_ fun n w _ h => ?_
  · refine Leaves.bind (quiet_keeps (c := .listEvidence _) (fun _ => trivial) hG hw) fun rows w _ h => ?_
    obtain ⟨hw, env, w₀, ⟨rfl, -⟩, -, hans⟩ := h
    obtain rfl : rows = w₀.listEvidence config.runId :=
      Except.ok.inj (exec_ok (c := .listEvidence config.runId) hans).2
    refine leaves_pure ⟨_, hw, hG⟩ ⟨hw, ?_⟩
    rw [ResearchWorld.listEvidence, List.countP_filter]
    exact List.countP_congr fun e _ => by simp [and_comm]
  · obtain ⟨hw, rfl⟩ := h
    exact leaves_pure ⟨t, hw, hG⟩ ⟨hw, fun hlt _ => by simpa using hlt⟩

theorem callTool_keeps (hauth : Authorized config action.tool) (hs : s.toolCalls = t.tools) (hG : G t)
    (hcall : Dispatched config t action → ∀ t', t.Called action.imports t' → G t') (hw : Holds config t w) :
    Keeps config cond G (callTool config s action) (Continues config G) w := by
  refine leaves_ite (fun _ => ends_keeps (fail_keeps hG hw) hG) fun hlt => ?_
  refine Leaves.bind (importsExceeded_keeps hG hw) fun exceeded w _ h => ?_
  obtain ⟨hw, himports⟩ := h
  refine leaves_ite (fun _ => ends_keeps (fail_keeps hG hw) hG) fun hexceeded => ?_
  have hdisp : Dispatched config t action :=
    ⟨hauth, hs ▸ Nat.lt_of_not_le hlt, himports (Bool.eq_false_iff.2 hexceeded)⟩
  refine Leaves.bind (quiet_keeps (c := .progress ..) (fun _ => trivial) hG hw) fun _ w _ h => ?_
  refine Leaves.bind (dispatch_keeps (fun _ hw => ⟨t, hw, hG⟩) ?_ h.1) fun turn w _ h => ?_
  · rintro w ⟨t', hc, hw⟩
    exact ⟨t', hw, hcall hdisp t' hc⟩
  obtain ⟨t', hc, hw⟩ := h
  have hG' := hcall hdisp t' hc
  refine Leaves.bind (quiet_keeps (c := .listSteps _) (fun _ => trivial) hG' hw) fun steps w _ h => ?_
  refine Leaves.bind (quiet_keeps (c := .checkpoint _) (fun _ => trivial) hG' h.1) fun _ w _ h => ?_
  refine leaves_pure ⟨t', h.1, hG'⟩ fun s' hs' => ⟨t', h.1, hG', ?_⟩
  cases hs'
  exact hs ▸ hc.2.1.symm

/-- An action that is planned was proposed, after one step more. -/
theorem planAction_keeps {priorSteps} (hG : G t) (hG' : G (t.step false)) (hw : Holds config t w) :
    Keeps config cond G (planAction config priorSteps)
      (fun planned w => Holds config (t.step false) w ∧
        ∀ action, planned = some action → Proposed cond config (t.step false) action) w := by
  refine Leaves.bind (quiet_keeps (c := .progress ..) (fun _ => trivial) hG hw) fun _ w _ h => ?_
  refine Leaves.bind (R := fun _ => Holds config (t.step false))
    (beginStep_keeps (fun _ hw => ⟨t, hw, hG⟩) (fun _ hw => ⟨_, hw, hG'⟩) h.1) fun stepId w _ hw => ?_
  refine Leaves.bind (R := fun planned w => Holds config (t.step false) w ∧
    ∀ action, planned = .ok action → Proposed cond config (t.step false) action) ?_ fun planned w _ h => ?_
  · refine Leaves.guarded (Leaves.map (Leaves.mono (ResearchCall.keeps (c := .nextAction _) (fun _ => trivial)
      (fun _ hw => ⟨_, hw, hG'⟩) hw) (fun proposal w _ h => ?_) fun _ _ h => h)) fun e w _ hw => ?_
    · obtain ⟨hw, env, w₀, hw₀, hcond, hans⟩ := h
      obtain ⟨hraises, hans⟩ := exec_ok (c := .nextAction _) hans
      obtain rfl : proposal = env.proposal := Except.ok.inj hans
      exact ⟨hw, fun action ha => ⟨env, w₀, _, hw₀, hcond, hraises, ha⟩⟩
    · split
      · exact leaves_pure ⟨_, hw, hG'⟩ ⟨hw, fun _ h => nomatch h⟩
      · exact leaves_throw ⟨_, hw, hG'⟩ trivial
  · obtain ⟨hw, hplanned⟩ := h
    cases planned with
    | error e =>
      exact Leaves.bind (deny_keeps hG' hw) fun _ w _ hw => leaves_pure ⟨_, hw, hG'⟩ ⟨hw, fun _ h => nomatch h⟩
    | ok action =>
      refine Leaves.bind (quiet_keeps (c := .finishStep ..) (fun _ => trivial) hG' hw) fun _ w _ h => ?_
      refine leaves_pure ⟨_, h.1, hG'⟩ ⟨h.1, fun a ha => ?_⟩
      cases ha
      exact hplanned action rfl

theorem actOn_keeps {planned : Option PlannerAction} (hs : s.toolCalls = t.tools) (hG : G t)
    (hcall : ∀ action, planned = some action → Dispatched config t action → ∀ t', t.Called action.imports t' → G t')
    (hw : Holds config t w) : Keeps config cond G (actOn config s planned) (Continues config G) w := by
  rcases planned with _ | action
  · refine leaves_pure ⟨t, hw, hG⟩ fun s' hs' => ⟨t, hw, hG, ?_⟩
    cases hs'
    exact hs
  cases action with
  | finish summary => exact ends_keeps (succeed_keeps hG hw) hG
  | _ =>
    simp only [actOn]
    split
    · refine Leaves.bind (deny_keeps hG hw) fun _ w _ hw => ?_
      refine leaves_ite (fun _ => ends_keeps (fail_keeps hG hw) hG) fun _ => ?_
      refine leaves_pure ⟨t, hw, hG⟩ fun s' hs' => ⟨t, hw, hG, ?_⟩
      cases hs'
      exact hs
    · next hauth => exact callTool_keeps (authorizeToolCall_none.1 hauth) hs hG (hcall _ rfl) hw

section Rules

variable (hplan : ∀ t, G t → t.steps < config.budget.maxSteps → G (t.step false))
  (hcall : ∀ t action, G t → Proposed cond config t action → Dispatched config t action →
    ∀ t', t.Called action.imports t' → G t')

include hplan hcall

/-- **One iteration.** -/
theorem iteration_keeps (hs : s.toolCalls = t.tools) (hG : G t) (hw : Holds config t w) :
    Keeps config cond G (iteration config s) (Continues config G) w := by
  have hend {outcome w} (hw : Holds config t w) :
      Keeps config cond G (pure (.inl outcome)) (Continues config G) w :=
    leaves_pure ⟨t, hw, hG⟩ fun _ hs => nomatch hs
  refine Leaves.bind (quiet_keeps (c := .getRun _) (fun _ => trivial) hG hw) fun live w _ h => ?_
  cases live with
  | none => exact hend h.1
  | some run =>
    refine leaves_ite (fun _ => hend h.1) fun _ => ?_
    refine Leaves.bind (quiet_keeps (c := .shouldStop) (fun _ => trivial) hG h.1) fun stop w _ h => ?_
    refine leaves_ite (fun _ => hend h.1) fun _ => ?_
    refine Leaves.bind (listSteps_keeps hG h.1) fun priorSteps w _ h => ?_
    obtain ⟨hw, hlen, -⟩ := h
    refine leaves_ite (fun _ => ends_keeps (fail_keeps hG hw) hG) fun hlt => ?_
    have hG' := hplan t hG (hlen ▸ Nat.lt_of_not_le hlt)
    refine Leaves.bind (planAction_keeps hG hG' hw) fun planned w _ h => ?_
    obtain ⟨hw, hproposed⟩ := h
    exact actOn_keeps (t := t.step false) hs hG' (fun action ha => hcall _ action hG' (hproposed action ha)) hw

/-- **The loop**: an iteration after another. -/
theorem loop_keeps (fuel : Nat) (hs : s.toolCalls = t.tools) (hG : G t) (hw : Holds config t w) :
    Keeps config cond G (loop config fuel s) (fun _ _ => True) w := by
  induction fuel generalizing s t w with
  | zero => exact leaves_throw ⟨t, hw, hG⟩ trivial
  | succ fuel ih =>
    refine Leaves.bind (iteration_keeps hplan hcall hs hG hw) fun r w hi h => ?_
    cases r with
    | inl outcome => exact leaves_pure hi trivial
    | inr s' =>
      obtain ⟨t', hw, hG, hs⟩ := h s' rfl
      exact ih hs hG hw

/-- **An execution.** -/
theorem execute_keeps {planned fuel} (hG : G t) (hw : Holds config t w) :
    Keeps config cond G (execute planned fuel config.runId) (fun _ _ => True) w := by
  refine Leaves.bind (quiet_keeps (c := .getRun _) (fun _ => trivial) hG hw) fun found w _ h => ?_
  obtain ⟨hw, env, w₀, ⟨-, hcfg⟩, -, hans⟩ := h
  cases found with
  | none => exact leaves_throw ⟨t, hw, hG⟩ trivial
  | some run =>
    have hrun : w₀.run? config.runId = some run := (Except.ok.inj (exec_ok (c := .getRun config.runId) hans).2).symm
    rw [ResearchWorld.config?, hrun] at hcfg
    obtain rfl : run.toRunConfig = config := Option.some.inj hcfg
    refine leaves_ite (fun _ => leaves_pure ⟨t, hw, hG⟩ trivial) fun _ => ?_
    refine leaves_ite (fun _ => (fail_keeps hG hw).mono (fun _ _ _ _ => trivial) fun _ _ h => h) fun _ => ?_
    refine Leaves.bind (R := fun n w => Holds run.toRunConfig t w ∧ n = t.tools) ?_ fun n w _ h => ?_
    · exact Leaves.bind (listSteps_keeps hG hw) fun steps w _ h => leaves_pure ⟨t, h.1, hG⟩ ⟨h.1, h.2.2⟩
    · exact loop_keeps hplan hcall fuel h.2 hG h.1

end Rules

end Loop

end ResearchRunExecutor

/-! ## Executions one after another -/

open ResearchRunExecutor

/-- The states of the executions of a run, one at a time, from its creation on. -/
abbrev Executions (config : RunConfig) (cond : ResearchCall → ResearchEnv → ResearchWorld → Prop) :
    Serial ResearchCall ResearchAnswer ResearchWorld (Except ResearchError ExecutorOutcome) → Prop :=
  Serial.Reach researchExec (fun r : (RunMode → Bool) × Nat => (execute r.1 r.2 config.runId).run)
    (Elsewhere config.runId) (Holds config ⟨0, 0, 0, 0⟩) cond

theorem executions_kept {config : RunConfig} {cond : ResearchCall → ResearchEnv → ResearchWorld → Prop}
    {G : Tally → Prop} (h0 : G ⟨0, 0, 0, 0⟩)
    (hplan : ∀ t, G t → t.steps < config.budget.maxSteps → G (t.step false))
    (hcall : ∀ t action, G t → Proposed cond config t action → Dispatched config t action →
      ∀ t', t.Called action.imports t' → G t')
    {s} (h : Executions config cond s) : G (s.shared.tally config.runId) := by
  obtain ⟨t, ⟨rfl, -⟩, hG⟩ : TallyIn config G s.shared := by
    refine Serial.invariant (SameRun config.runId) (fun _ => ⟨rfl, rfl⟩)
      (fun _ _ _ h h' => ⟨h'.1.trans h.1, h'.2.trans h.2⟩) (fun _ _ => Elsewhere.sameRun) ?_ (fun w hw => ⟨_, hw, h0⟩)
      ?_ h
    · rintro w w' hr ⟨t, hw, hG⟩
      exact ⟨t, hr.holds hw, hG⟩
    · rintro ⟨planned, fuel⟩ w ⟨t, hw, hG⟩
      exact Safe.mono (execute_keeps hplan hcall hG hw) fun _ _ _ _ => trivial
  exact hG

/-- Where the planner proposes an action that would be dispatched, `P` holds of the
tally, the planning step included. -/
def Proposing (config : RunConfig) (P : Tally → PlannerAction → Prop) :
    ResearchCall → ResearchEnv → ResearchWorld → Prop
  | .nextAction _, env, w => ∀ action, env.raises = none → parseAction env.proposal = .ok action →
      Dispatched config (w.tally config.runId) action → P (w.tally config.runId) action
  | _, _, _ => True

theorem ResearchRunExecutor.Proposed.meets {config : RunConfig} {P : Tally → PlannerAction → Prop} {t : Tally} {action : PlannerAction}
    (h : Proposed (Proposing config P) config t action) (hd : Dispatched config t action) : P t action := by
  obtain ⟨env, w, context, ⟨rfl, -⟩, hcond, hraises, hparse⟩ := h
  exact hcond action hraises hparse hd

/-! ### Schedules -/

instance (config : RunConfig) (tool : String) : Decidable (Authorized config tool) :=
  decidable_of_iff _ authorizeToolCall_none

instance (config : RunConfig) (t : Tally) (action : PlannerAction) : Decidable (Dispatched config t action) :=
  decidable_of_iff (Authorized config action.tool ∧ t.tools < config.budget.maxToolCalls ∧
    (action.tool = ResearchTool.sourceImport.value → t.promotions < config.budget.maxImports))
    ⟨fun h => ⟨h.1, h.2.1, h.2.2⟩, fun h => ⟨h.1, h.2, h.3⟩⟩

instance (config : RunConfig) (P : Tally → PlannerAction → Prop) [∀ t action, Decidable (P t action)] (c : ResearchCall)
    (env : ResearchEnv) (w : ResearchWorld) : Decidable (Proposing config P c env w) :=
  match c with
  | .nextAction _ =>
    match h : parseAction env.proposal with
    | .ok action =>
      decidable_of_iff (env.raises = none → Dispatched config (w.tally config.runId) action →
          P (w.tally config.runId) action)
        ⟨fun hp a hr ha hd => by
          obtain rfl : action = a := Except.ok.inj (h.symm.trans ha)
          exact hp hr hd, fun hp hr hd => hp action hr h hd⟩
    | .error _ => .isTrue fun a _ ha => nomatch h.symm.trans ha
  | .getRun _ | .casStatus .. | .listSteps _ | .beginStep .. | .finishStep .. | .appendEvidence .. | .listEvidence _
  | .markPromoted .. | .auditDenied .. | .shouldStop | .progress .. | .checkpoint _ | .search _ | .fetch _
  | .browserOpen _ | .browserObserve _ | .browserInteract .. | .importFetched .. | .retrieve .. => .isTrue trivial

/-- A run that fetches and imports, with such a budget. -/
def importingRun (budget : ResearchBudget) : ResearchRun where
  runId := 1
  notebookId := 2
  actorId := 3
  goal := "rivers"
  mode := .sourceDiscovery
  tools := [ResearchTool.webFetch.value, ResearchTool.sourceImport.value]
  approvedTools := [ResearchTool.sourceImport.value]
  budget
  status := .running

/-- One execution of the run, which makes a call with each of the environments. -/
def executed (budget : ResearchBudget) (envs : List ResearchEnv) :
    Serial ResearchCall ResearchAnswer ResearchWorld (Except ResearchError ExecutorOutcome) :=
  (envs.map Serial.Move.call).foldl
    (Serial.move researchExec fun r : (RunMode → Bool) × Nat => (execute r.1 r.2 (importingRun budget).runId).run)
    ⟨{ runs := [importingRun budget] }, (execute (fun _ => true) 9 (importingRun budget).runId).run⟩

theorem executions_executed {budget : ResearchBudget} {cond : ResearchCall → ResearchEnv → ResearchWorld → Prop}
    {envs : List ResearchEnv}
    (h : Serial.Meets researchExec
      (fun r : (RunMode → Bool) × Nat => (execute r.1 r.2 (importingRun budget).runId).run) cond
      ⟨{ runs := [importingRun budget] }, (execute (fun _ => true) 9 (importingRun budget).runId).run⟩
      (envs.map Serial.Move.call)) :
    Executions (importingRun budget).toRunConfig cond (executed budget envs) :=
  Serial.reach_moves (.start ⟨⟨by simp [ResearchWorld.tally], by
    simp [ResearchWorld.config?, ResearchWorld.run?, Table.lookup, importingRun]⟩, (fun _ => true, 9), rfl⟩) h

/-- The planner fetches a page first and imports it again and again, under fresh ids. -/
def importingEnvs (n : Nat) : List ResearchEnv :=
  (List.range n).map fun k =>
    { newId := BitVec.ofNat 128 k
      record := ⟨"https://rivers.org", "00"⟩
      proposal := if k < 17 then .obj [("tool", .str "web.fetch"), ("args", .obj [("url", .str "https://rivers.org")])]
        else .obj [("tool", .str "source.import"),
          ("args", .obj [("evidence_id", .str "0000000000000000000000000000000d"), ("title", .str "Rivers")])] }

/-- **The tool budget holds**, whatever the planner proposes. -/
theorem toolCalls_within_budget {config : RunConfig} {cond} {s} (h : Executions config cond s) :
    (s.shared.tally config.runId).tools ≤ config.budget.maxToolCalls := by
  refine executions_kept (G := fun t => t.tools ≤ config.budget.maxToolCalls) (Nat.zero_le _) (fun t ht _ => ht) ?_ h
  rintro t action - - hd t' ⟨-, ht, -⟩
  exact ht ▸ hd.calls

/-- **Step and tool budgets**, where a planning step that is the last one leaves no call to dispatch. -/
theorem steps_within_budget {config : RunConfig}
    {s} (h : Executions config (Proposing config fun t _ => t.steps < config.budget.maxSteps) s) :
    (s.shared.tally config.runId).steps ≤ config.budget.maxSteps ∧
      (s.shared.tally config.runId).tools ≤ config.budget.maxToolCalls := by
  refine ⟨?_, toolCalls_within_budget h⟩
  refine executions_kept (G := fun t => t.steps ≤ config.budget.maxSteps) (Nat.zero_le _) (fun t _ hlt => hlt) ?_ h
  rintro t action - hp hd t' ⟨hs, -, -⟩
  exact hs ▸ hp.meets hd

/-- With two steps, one call is planned and dispatched. -/
theorem steps_within_budget_two :
    ((executed { maxSteps := 2 } (importingEnvs 40)).shared.tally 1).steps = 2 ∧
      ((executed { maxSteps := 2 } (importingEnvs 40)).shared.tally 1).steps ≤ 2 :=
  ⟨by decide +kernel, (steps_within_budget (executions_executed (by decide +kernel))).1⟩

/-- With one step, two are recorded. -/
theorem one_step_exceeded :
    ¬ ∀ config s, Executions config (fun _ _ _ => True) s →
      (s.shared.tally config.runId).steps ≤ config.budget.maxSteps ∧
        (s.shared.tally config.runId).tools ≤ config.budget.maxToolCalls := by
  intro h
  have hover : 1 < ((executed { maxSteps := 1 } (importingEnvs 40)).shared.tally 1).steps := by decide +kernel
  exact absurd (h _ _ (@executions_executed { maxSteps := 1 } _ (importingEnvs 40) Serial.meets_true)).1
    (Nat.not_le.2 hover)

/-- **The import budget**, where an import is proposed only while every earlier one is
marked on evidence of its own. -/
theorem imports_within_budget {config : RunConfig}
    {s} (h : Executions config (Proposing config fun t action =>
      action.tool = ResearchTool.sourceImport.value → t.imports ≤ t.promotions) s) :
    (s.shared.tally config.runId).imports ≤ config.budget.maxImports := by
  refine executions_kept (G := fun t => t.imports ≤ config.budget.maxImports) (Nat.zero_le _) (fun t ht _ => ht) ?_ h
  rintro t action ht hp hd t' ⟨-, -, hi⟩
  simp only [PlannerAction.imports] at hi
  split at hi
  · next htool => exact hi.trans (Nat.succ_le_of_lt ((hp.meets hd htool).trans_lt (hd.imports htool)))
  · exact hi.trans ht

/-- The one import that is allowed is made, and no other. -/
theorem imports_within_budget_one :
    ((executed { maxImports := 1 } (importingEnvs 60)).shared.tally 1).imports = 1 ∧
      ((executed { maxImports := 1 } (importingEnvs 60)).shared.tally 1).imports ≤ 1 :=
  ⟨by decide +kernel, imports_within_budget (executions_executed (by decide +kernel))⟩

/-- The same evidence is imported three times, where two imports are allowed: its
promotion is counted once. -/
theorem reimport_exceeds :
    ¬ ∀ config s, Executions config (fun _ _ _ => True) s →
      (s.shared.tally config.runId).imports ≤ config.budget.maxImports := by
  intro h
  have hover : 2 < ((executed { maxImports := 2 } (importingEnvs 64)).shared.tally 1).imports := by decide +kernel
  exact absurd (h _ _ (@executions_executed { maxImports := 2 } _ (importingEnvs 64) Serial.meets_true))
    (Nat.not_le.2 hover)

end MilpbookLM
