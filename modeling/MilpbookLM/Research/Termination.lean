/-
The end of the research loop. Each call of the planner comes after a step that was begun for it, and
none is begun once the budget is spent; so the calls are never more than the steps begun, nor than
the budget (`Paid`). An iteration that goes on has begun a step, and the loop ends before its fuel
does (`research_loop_ends`).
-/
import MilpbookLM.Lib.Serial
import MilpbookLM.Research.Budgets

namespace MilpbookLM

open Interleave Prog

/-! ## Calls and their answers -/

abbrev ResearchRecord := WithCalls ResearchCall ResearchAnswer ResearchWorld

abbrev ResearchTrace := List (Σ c, ResearchAnswer c)

abbrev recordedExec : Exec ResearchCall ResearchAnswer ResearchRecord ResearchEnv := recorded researchExec

def ResearchCall.isPlanner : ResearchCall → Bool
  | .nextAction _ => true
  | _ => false

/-- A call other than of the planner; a step that begins is one of the run. -/
def ResearchCall.Unplanned (runId : Uuid) : ResearchCall → Prop
  | .nextAction _ => False
  | .beginStep r .. => r = runId
  | _ => True

theorem ResearchCall.Unplanned.not_planner {runId : Uuid} {c : ResearchCall} (h : c.Unplanned runId) :
    c.isPlanner = false := by
  cases c <;> first | rfl | exact h.elim

/-- The calls of the planner. -/
def plannerCalls (trace : ResearchTrace) : Nat := trace.countP (·.1.isPlanner)

/-- A call of the store, of progress or of the checkpoint. -/
def ResearchCall.Kept : ResearchCall → Prop
  | .getRun _ | .casStatus .. | .listSteps _ | .beginStep .. | .finishStep .. | .appendEvidence .. | .listEvidence _
  | .markPromoted .. | .progress .. | .checkpoint _ => True
  | _ => False

/-- These return. -/
def Returning (c : ResearchCall) (env : ResearchEnv) (s : ResearchRecord) : Prop :=
  c.Kept → ∃ a, (c.exec env s.1).1 = .ok a

/-- An exception that ends an execution: of the planner, other than an ActionParseError, of the audit log or of
the stop signal; or the end of the process, within a tool. -/
def Ending (e : ResearchError) : ResearchCall → Prop
  | .nextAction _ => ∀ text, e ≠ .raised "ActionParseError" text
  | .auditDenied .. | .shouldStop => True
  | _ => e = .interrupted

/-- A call raised such an exception. -/
def Raised (e : ResearchError) (trace : ResearchTrace) : Prop := ∃ c, ⟨c, .error e⟩ ∈ trace ∧ Ending e c

section Paid

variable {config : RunConfig} {k m : Nat} {s s' : ResearchRecord} {c : ResearchCall} {env : ResearchEnv}

/-- At least `m` steps are stored, and the planner was called no more often than there are steps beyond the first
`k`, and than the budget leaves room for. -/
structure Paid (config : RunConfig) (k m : Nat) (s : ResearchRecord) : Prop where
  configured : s.1.config? config.runId = some config
  steps : m ≤ (s.1.tally config.runId).steps
  calls : plannerCalls s.2 ≤ (s.1.tally config.runId).steps - k
  budget : plannerCalls s.2 ≤ config.budget.maxSteps - k

theorem Paid.mono {m' : Nat} (h : Paid config k m s) (hm : m' ≤ m) : Paid config k m' s :=
  ⟨h.configured, hm.trans h.steps, h.calls, h.budget⟩

theorem Paid.start (h : Paid config k m s) : Paid config k 0 s := h.mono (Nat.zero_le m)

theorem Paid.beside (hr : Beside (SameRun config.runId) s s') (h : Paid config k m s) : Paid config k m s' := by
  obtain ⟨⟨htally, hconfig⟩, htrace⟩ := hr
  refine ⟨hconfig.trans h.configured, ?_, ?_, ?_⟩
  · rw [htally]
    exact h.steps
  · rw [htally, htrace]
    exact h.calls
  · rw [htrace]
    exact h.budget

/-- No call takes a step away. -/
theorem steps_le_exec {w : ResearchWorld} {runId : Uuid} :
    (w.tally runId).steps ≤ ((c.exec env w).2.tally runId).steps := by
  by_cases hsteady : c.Steady
  · exact (tally_exec_steady hsteady).1.ge
  · cases hr : env.raises with
    | some e => simp only [ResearchCall.exec, hr, le_refl]
    | none =>
      simp only [ResearchCall.exec, hr]
      cases c with
      | beginStep r number kind tool =>
        rcases @tally_insertStep w runId
          { stepId := env.newId, runId := r, stepNumber := number, stepKind := kind, toolName := tool }
          with ⟨hsame, -⟩ | ⟨-, -, hmore⟩
        · exact (congrArg Tally.steps hsame).ge
        · rw [ResearchCall.effect, hmore]
          exact Nat.le_succ _
      | importFetched => exact le_rfl
      | _ => exact absurd trivial hsteady

theorem Paid.exec (c : ResearchCall) (env : ResearchEnv) (hc : c.isPlanner = false) (h : Paid config k m s) :
    Paid config k m (recordedExec c env s).2 := by
  have hcalls : plannerCalls (recordedExec c env s).2.2 = plannerCalls s.2 := by
    simp only [recorded, plannerCalls, List.countP_cons, hc, Bool.false_eq_true, if_false, Nat.add_zero]
  have hsteps : (s.1.tally config.runId).steps ≤ ((recordedExec c env s).2.1.tally config.runId).steps := steps_le_exec
  exact ⟨config?_exec.trans h.configured, h.steps.trans hsteps, by rw [hcalls]; exact h.calls.trans (by omega), by
    rw [hcalls]; exact h.budget⟩

end Paid

/-! ## The calls of the planner -/

namespace ResearchRunExecutor

section Loop

variable {α : Type} {config : RunConfig} {k m n : Nat} {cond : ResearchCall → ResearchEnv → ResearchRecord → Prop}
  {s : ResearchRecord} {state : LoopState}

/-- A part of an execution: throughout, the calls of the planner are paid. -/
abbrev Pays (config : RunConfig) (k : Nat) (cond : ResearchCall → ResearchEnv → ResearchRecord → Prop)
    (x : ResearchProgram α) (R : α → ResearchRecord → Prop) (s : ResearchRecord) : Prop :=
  Leaves recordedExec (Beside (SameRun config.runId)) cond (Paid config k 0) x R (fun _ => True) s

/-- A program that never calls the planner. -/
theorem unplanned_pays {x : ResearchProgram α} (hx : Only (ResearchCall.Unplanned config.runId) x.run)
    (h : Paid config k m s) : Pays config k cond x (fun _ => Paid config k m) s :=
  (Only.leaves hx h (fun _ h => h.start) (fun _ _ => Paid.beside) fun c env _ hc => Paid.exec c env hc.not_planner).mono
    (fun _ _ _ h => h) fun _ _ _ => trivial

theorem unplanned_records {runId : Uuid} (c : ResearchCall) (h : c.Records) : c.Unplanned runId := by
  cases c <;> trivial

theorem unplanned_tool {runId : Uuid} {tool : String} (c : ResearchCall) (h : c.tool? = some tool) :
    c.Unplanned runId := by
  cases c <;> trivial

theorem fail_unplanned {errorCode} : Only (ResearchCall.Unplanned config.runId) (fail config errorCode).run :=
  Only.bind (perform_only (c := .casStatus ..) trivial) fun _ => only_pure _

theorem succeed_unplanned {summary} : Only (ResearchCall.Unplanned config.runId) (succeed config summary).run := by
  refine Only.bind (perform_only (c := .listEvidence _) trivial) fun _ => ?_
  refine Only.bind (perform_only (c := .casStatus ..) trivial) fun _ => ?_
  exact Only.bind (perform_only (c := .listSteps _) trivial) fun _ => only_pure _

theorem callTool_unplanned {action : PlannerAction} :
    Only (ResearchCall.Unplanned config.runId) (callTool config state action).run := by
  have hdispatch : Only (ResearchCall.Unplanned config.runId) (dispatch config action).run :=
    dispatch_only unplanned_records (fun _ _ _ => rfl) fun c hc => unplanned_tool c hc
  refine only_ite (fun _ => ?_) fun _ => ?_
  · exact Only.bind fail_unplanned fun _ => only_pure _
  refine Only.bind (importsExceeded_only unplanned_records) fun exceeded => ?_
  refine only_ite (fun _ => ?_) fun _ => ?_
  · exact Only.bind fail_unplanned fun _ => only_pure _
  refine Only.bind (perform_only trivial) fun _ => ?_
  refine Only.bind hdispatch fun turn => ?_
  refine Only.bind (perform_only (c := .listSteps _) trivial) fun steps => ?_
  exact Only.bind (perform_only trivial) fun _ => only_pure _

theorem actOn_unplanned {planned : Option PlannerAction} :
    Only (ResearchCall.Unplanned config.runId) (actOn config state planned).run := by
  rcases planned with _ | action
  · exact only_pure _
  cases action with
  | finish summary => exact Only.bind succeed_unplanned fun _ => only_pure _
  | _ =>
    simp only [actOn]
    split
    · refine Only.bind (deny_only unplanned_records) fun _ => ?_
      refine only_ite (fun _ => ?_) fun _ => only_pure _
      exact Only.bind fail_unplanned fun _ => only_pure _
    · exact callTool_unplanned

/-- The steps stored are `n`, with room for another. -/
structure Room (config : RunConfig) (k n : Nat) (s : ResearchRecord) : Prop where
  paid : Paid config k n s
  stored : (s.1.tally config.runId).steps = n
  base : k ≤ n
  room : n < config.budget.maxSteps

/-- A step was begun, and the planner is to be called for it. -/
structure Owed (config : RunConfig) (k n : Nat) (s : ResearchRecord) : Prop where
  paid : Paid config k (n + 1) s
  calls : plannerCalls s.2 ≤ n - k
  base : k ≤ n
  room : n < config.budget.maxSteps

theorem progress_pays {phase detail} (h : Room config k n s) :
    Pays config k cond (ResearchCall.progress phase detail).perform (fun _ => Room config k n) s := by
  refine leaves_perform h.paid.start fun s' env hr _ => ?_
  have hpaid : Paid config k n (recordedExec (.progress phase detail) env s').2 := (h.paid.beside hr).exec _ _ rfl
  refine ⟨hpaid.start, fun _ _ => ⟨hpaid, ?_, h.base, h.room⟩, fun _ _ => trivial⟩
  have hsame : (recordedExec (.progress phase detail) env s').2.1.tally config.runId = s'.1.tally config.runId :=
    tally_exec trivial
  rw [hsame, hr.1.1]
  exact h.stored

/-- A step that begins is one more. -/
theorem steps_beginStep {w : ResearchWorld} {runId stepId : Uuid} {env : ResearchEnv} {number kind tool}
    (h : (ResearchCall.exec env (.beginStep runId number kind tool) w).1 = .ok stepId) :
    ((ResearchCall.exec env (.beginStep runId number kind tool) w).2.tally runId).steps = (w.tally runId).steps + 1 := by
  obtain ⟨hraise, hok⟩ := exec_ok (c := .beginStep runId number kind tool) h.symm
  simp only [ResearchCall.exec, hraise]
  rcases @tally_insertStep w runId
    { stepId := env.newId, runId, stepNumber := number, stepKind := kind, toolName := tool } with ⟨-, hne⟩ | ⟨-, -, hmore⟩
  · exact absurd rfl (hne (by rw [← show _ = (w.insertStep _).1 from hok]; rfl))
  · rw [ResearchCall.effect, hmore]
    rfl

theorem beginStep_pays {number kind tool} (h : Room config k n s) :
    Pays config k cond (ResearchCall.beginStep config.runId number kind tool).perform (fun _ => Owed config k n) s := by
  refine leaves_perform h.paid.start fun s' env hr _ => ?_
  have hpaid := (h.paid.beside hr).exec (.beginStep config.runId number kind tool) env rfl
  refine ⟨hpaid.start, fun a hok => ?_, fun _ _ => trivial⟩
  have hstored : (s'.1.tally config.runId).steps = n := by rw [hr.1.1]; exact h.stored
  have hmore : ((recordedExec (.beginStep config.runId number kind tool) env s').2.1.tally config.runId).steps = n + 1 :=
    (steps_beginStep hok).trans (by rw [hstored])
  have hcalls : plannerCalls s'.2 ≤ n - k := by
    have hbefore := (h.paid.beside hr).calls
    rwa [hstored] at hbefore
  exact ⟨⟨hpaid.configured, hmore.ge, hpaid.calls, hpaid.budget⟩, hcalls, h.base, h.room⟩

theorem nextAction_pays {context} (h : Owed config k n s) :
    Leaves recordedExec (Beside (SameRun config.runId)) cond (Paid config k 0)
      (ResearchCall.nextAction context).perform (fun _ => Paid config k (n + 1)) (Paid config k (n + 1)) s := by
  refine leaves_perform h.paid.start fun s' env hr _ => ?_
  have hpaid := h.paid.beside hr
  have hbase := h.base
  have hroom := h.room
  have hmore : plannerCalls (recordedExec (.nextAction context) env s').2.2 = plannerCalls s'.2 + 1 :=
    List.countP_cons_of_pos rfl
  have hcalls : plannerCalls (recordedExec (.nextAction context) env s').2.2 ≤ n + 1 - k := by
    have hbefore := h.calls
    rw [hmore, hr.2]
    omega
  have hsteps : n + 1 ≤ ((recordedExec (.nextAction context) env s').2.1.tally config.runId).steps :=
    hpaid.steps.trans steps_le_exec
  have hafter : Paid config k (n + 1) (recordedExec (.nextAction context) env s').2 :=
    ⟨config?_exec.trans hpaid.configured, hsteps, hcalls.trans (by omega), hcalls.trans (by omega)⟩
  exact ⟨hafter.start, fun _ _ => hafter, fun _ _ => hafter⟩

/-- The steps listed are those stored. -/
theorem listSteps_pays (h : Paid config k m s) :
    Pays config k cond (ResearchCall.listSteps config.runId).perform
      (fun (steps : List ResearchStep) s => Paid config k m s ∧ (s.1.tally config.runId).steps = steps.length) s := by
  refine leaves_perform h.start fun s' env hr _ => ?_
  have hpaid := (h.beside hr).exec (.listSteps config.runId) env rfl
  refine ⟨hpaid.start, fun (steps : List ResearchStep) hok => ⟨hpaid, ?_⟩, fun _ _ => trivial⟩
  have hsame : (recordedExec (.listSteps config.runId) env s').2.1.tally config.runId = s'.1.tally config.runId :=
    tally_exec trivial
  obtain rfl : steps = s'.1.listSteps config.runId := Except.ok.inj (exec_ok (c := .listSteps config.runId) hok.symm).2
  rw [hsame, ResearchWorld.listSteps, List.length_insertionSort, ResearchWorld.tally, List.countP_eq_length_filter]

theorem planAction_pays {priorSteps} (h : Room config k n s) :
    Pays config k cond (planAction config priorSteps) (fun _ => Paid config k (n + 1)) s := by
  refine Leaves.bind (progress_pays h) fun _ s _ h => ?_
  refine Leaves.bind (R := fun _ => Owed config k n) (beginStep_pays h) fun stepId s _ h => ?_
  refine Leaves.bind (R := fun _ => Paid config k (n + 1)) ?_ fun planned s _ h => ?_
  · refine Leaves.guarded (Leaves.map (nextAction_pays h)) fun e s _ h => ?_
    split
    · exact leaves_pure h.start h
    · exact leaves_throw h.start trivial
  · refine unplanned_pays ?_ h
    cases planned with
    | error e => exact Only.bind (deny_only unplanned_records) fun _ => only_pure _
    | ok action => exact Only.bind (perform_only (c := .finishStep ..) trivial) fun _ => only_pure _

/-- **One iteration**: if it goes on, there was room for a step, and one was begun. -/
theorem iteration_pays (hk : k ≤ m) (h : Paid config k m s) :
    Pays config k cond (iteration config state)
      (fun r s => ∀ state', r = .inr state' → m < config.budget.maxSteps ∧ Paid config k (m + 1) s) s := by
  have hends {x : ResearchProgram ExecutorOutcome} {s : ResearchRecord}
      (hx : Only (ResearchCall.Unplanned config.runId) x.run) (h : Paid config k m s) :
      Pays config k cond (do return .inl (← x)) (fun (r : ExecutorOutcome ⊕ LoopState) s =>
        ∀ state', r = .inr state' → m < config.budget.maxSteps ∧ Paid config k (m + 1) s) s :=
    Leaves.bind (unplanned_pays hx h) fun _ _ hi _ => leaves_pure hi fun _ hr => nomatch hr
  refine Leaves.bind (unplanned_pays (perform_only (c := .getRun _) trivial) h) fun live s hi h => ?_
  cases live with
  | none => exact leaves_pure hi fun _ hr => nomatch hr
  | some run =>
    refine leaves_ite (fun _ => leaves_pure hi fun _ hr => nomatch hr) fun _ => ?_
    refine Leaves.bind (unplanned_pays (perform_only (c := .shouldStop) trivial) h) fun stop s hi h => ?_
    refine leaves_ite (fun _ => leaves_pure hi fun _ hr => nomatch hr) fun _ => ?_
    refine Leaves.bind (listSteps_pays h) fun priorSteps s hi h => ?_
    obtain ⟨h, hstored⟩ := h
    refine leaves_ite (fun _ => hends fail_unplanned h) fun hroom => ?_
    have hm : m ≤ priorSteps.length := hstored ▸ h.steps
    have hready : Room config k priorSteps.length s :=
      ⟨⟨h.configured, hstored.ge, h.calls, h.budget⟩, hstored, hk.trans hm, Nat.lt_of_not_le hroom⟩
    refine Leaves.bind (planAction_pays hready) fun planned s hi h => ?_
    refine (unplanned_pays actOn_unplanned (h.mono (Nat.succ_le_succ hm))).mono (fun r s _ h state' _ => ?_) fun _ _ h => h
    exact ⟨hm.trans_lt hready.room, h⟩

theorem loop_pays (fuel : Nat) (hk : k ≤ m) (h : Paid config k m s) :
    Pays config k cond (loop config fuel state) (fun _ _ => True) s := by
  induction fuel generalizing m s state with
  | zero => exact leaves_throw h.start trivial
  | succ fuel ih =>
    refine Leaves.bind (iteration_pays hk h) fun r s hi h => ?_
    cases r with
    | inl outcome => exact leaves_pure hi trivial
    | inr state' => exact ih (hk.trans (Nat.le_succ m)) (h state' rfl).2

/-! ## What ends an execution -/

/-- A part of an execution whose exceptions, where the store returns, are such as `E` admits. -/
def Raises (config : RunConfig) (x : ResearchProgram α) (E : ResearchError → ResearchTrace → Prop) : Prop :=
  ∀ s, x.run.Safe recordedExec (Beside (SameRun config.runId)) Returning (fun _ => True)
    (fun r s => ∀ e, r = .error e → E e s.2) s

variable {β : Type} {x : ResearchProgram α} {f : α → ResearchProgram β} {E E' : ResearchError → ResearchTrace → Prop}

theorem raises_pure (a : α) : Raises config (pure a) E := fun _ => ⟨trivial, fun _ h => nomatch h⟩

theorem raises_throw {e : ResearchError} (h : ∀ trace, E e trace) : Raises config (throw e : ResearchProgram α) E :=
  fun s => ⟨trivial, fun e' he => by cases he; exact h s.2⟩

theorem Raises.bind (hx : Raises config x E) (hf : ∀ a, Raises config (f a) E) : Raises config (x >>= f) E := by
  refine fun s => Safe.seq ((hx s).mono fun r s _ h => ?_)
  cases r with
  | ok a => exact hf a s
  | error e => exact fun e' he => by cases he; exact h e rfl

theorem Raises.map {g : α → β} (hx : Raises config x E) : Raises config (g <$> x) E := by
  refine fun s => Safe.map ((hx s).mono fun r s _ h => ?_)
  cases r with
  | ok a => exact fun e he => nomatch he
  | error e => exact fun e' he => by cases he; exact h e rfl

theorem raises_ite {c : Prop} [Decidable c] {y : ResearchProgram α} (hx : c → Raises config x E)
    (hy : ¬ c → Raises config y E) : Raises config (if c then x else y) E :=
  fun s => safe_ite (fun h => hx h s) fun h => hy h s

theorem raises_perform {c : ResearchCall} (h : ¬ c.Kept → ∀ e trace, E e (⟨c, .error e⟩ :: trace)) :
    Raises config c.perform E := by
  refine fun s => ⟨trivial, fun s' env _ hc => ⟨trivial, fun e he => ?_⟩⟩
  by_cases hkept : c.Kept
  · obtain ⟨a, ha⟩ := hc hkept
    exact absurd (he.symm.trans ha) nofun
  · have he : (c.exec env s'.1).1 = .error e := he
    simp only [recorded, he]
    exact h hkept e _

/-- A call of the store raises nothing. -/
theorem raises_kept {c : ResearchCall} (h : c.Kept) : Raises config c.perform E := raises_perform fun hc => absurd h hc

/-- The end of the process comes from a call. -/
def Interrupts (e : ResearchError) (trace : ResearchTrace) : Prop := e = .interrupted → Raised e trace

theorem raises_interrupts (c : ResearchCall) : Raises config c.perform Interrupts := by
  refine raises_perform fun hc e trace he => ⟨c, List.mem_cons_self, ?_⟩
  subst he
  cases c <;> first | exact absurd trivial hc | trivial | exact fun _ => nofun

theorem recordEvidence_raises {tool stepId originLocator summary} :
    Raises config (recordEvidence config tool stepId originLocator summary) E := by
  refine Raises.bind (raises_kept (c := .appendEvidence ..) trivial) fun evidence => ?_
  exact Raises.bind (raises_kept (c := .finishStep ..) trivial) fun _ => raises_pure _

theorem importMissing_raises {stepId} : Raises config (importMissing stepId) E :=
  Raises.bind (raises_kept (c := .finishStep ..) trivial) fun _ => raises_pure _

theorem deny_raises {reason tool stepId detail} (h : ∀ c e trace, c = .auditDenied config tool reason detail →
    E e (⟨c, .error e⟩ :: trace)) : Raises config (deny config reason tool stepId detail) E := by
  refine Raises.bind (raises_perform fun _ e trace => h _ e trace rfl) fun _ => ?_
  cases stepId with
  | none => exact raises_pure _
  | some stepId => exact raises_kept (c := .finishStep ..) trivial

theorem interrupts_audit {reason tool detail} (c : ResearchCall) (e : ResearchError) (trace : ResearchTrace)
    (h : c = .auditDenied config tool reason detail) : Raised e (⟨c, .error e⟩ :: trace) := by
  subst h
  exact ⟨_, List.mem_cons_self, trivial⟩

theorem dispatchAction_raises {stepId action} : Raises config (dispatchAction config stepId action) Interrupts := by
  cases action with
  | search query =>
    refine Raises.bind (raises_interrupts (.search query)) fun hits => ?_
    exact Raises.bind recordEvidence_raises fun _ => raises_pure _
  | fetch url =>
    refine Raises.bind (E := Interrupts) ?_ fun fetched => ?_
    · refine fun s => Safe.guarded ((Raises.map (raises_interrupts (.fetch url)) s).mono fun r s _ h => ?_)
      cases r with
      | ok a => exact fun e he => nomatch he
      | error e =>
        cases e with
        | interrupted => exact ⟨trivial, fun e he => by cases he; exact h .interrupted rfl⟩
        | browserUnavailable | raised => exact ⟨trivial, fun _ he => nomatch he⟩
    · cases fetched with
      | error e => exact Raises.bind (raises_kept (c := .finishStep ..) trivial) fun _ => raises_pure _
      | ok fetched => exact Raises.bind recordEvidence_raises fun _ => raises_pure _
  | browserOpen url =>
    refine Raises.bind (raises_interrupts (.listSteps _)) fun steps => ?_
    split
    · refine Raises.bind (deny_raises fun c e trace h _ => interrupts_audit c e trace h) fun _ => raises_pure _
    · refine Raises.bind (raises_interrupts (.browserOpen url)) fun pageUrl => ?_
      exact Raises.bind recordEvidence_raises fun _ => raises_pure _
  | browserObserve focus =>
    refine Raises.bind (raises_interrupts (.browserObserve focus)) fun pageUrl => ?_
    exact Raises.bind recordEvidence_raises fun _ => raises_pure _
  | browserInteract gesture selector value =>
    refine Raises.bind (raises_interrupts (.browserInteract gesture selector value)) fun pageUrl => ?_
    exact Raises.bind recordEvidence_raises fun _ => raises_pure _
  | sourceImport evidenceId title =>
    dsimp only [dispatchAction]
    split
    · exact raises_throw fun _ h => nomatch h
    · refine Raises.bind (E := Interrupts) ?_ fun target => ?_
      · exact Raises.bind (raises_interrupts (.listEvidence _)) fun rows => raises_pure _
      rcases target with _ | ⟨_, _, _, _ | url, _⟩
      · exact importMissing_raises
      · exact importMissing_raises
      · refine Raises.bind (raises_interrupts (.importFetched config url title)) fun version => ?_
        refine Raises.bind (raises_interrupts (.markPromoted ..)) fun _ => ?_
        exact Raises.bind (raises_kept (c := .finishStep ..) trivial) fun _ => raises_pure _
  | retrieve query =>
    refine Raises.bind (raises_interrupts (.retrieve config query)) fun chunks => ?_
    exact Raises.bind recordEvidence_raises fun _ => raises_pure _
  | finish summary => exact raises_throw fun _ h => nomatch h

/-- A dispatched call raises nothing but the end of the process. -/
theorem dispatch_raises {action} : Raises config (dispatch config action) Raised := by
  refine Raises.bind (raises_kept (c := .listSteps _) trivial) fun steps => ?_
  refine Raises.bind (raises_kept (c := .beginStep ..) trivial) fun stepId => ?_
  refine fun s => Safe.guarded ((dispatchAction_raises s).mono fun r s _ h => ?_)
  cases r with
  | ok a => exact fun e he => nomatch he
  | error e =>
    cases e with
    | browserUnavailable code detail =>
      have hhandler : Raises config (dispatchFailed config stepId action.tool (.browserUnavailable code detail)) Raised := by
        refine Raises.bind (raises_kept (c := .appendEvidence ..) trivial) fun evidence => ?_
        exact Raises.bind (raises_kept (c := .finishStep ..) trivial) fun _ => raises_pure _
      exact hhandler s
    | raised name text =>
      have hhandler : Raises config (dispatchFailed config stepId action.tool (.raised name text)) Raised :=
        Raises.bind (raises_kept (c := .finishStep ..) trivial) fun _ => raises_pure _
      exact hhandler s
    | interrupted => exact ⟨trivial, fun e he => by cases he; exact h .interrupted rfl rfl⟩

theorem planAction_raises {priorSteps} : Raises config (planAction config priorSteps) Raised := by
  refine Raises.bind (raises_kept (c := .progress ..) trivial) fun _ => ?_
  refine Raises.bind (raises_kept (c := .beginStep ..) trivial) fun stepId => ?_
  refine Raises.bind (E := Raised) ?_ fun planned => ?_
  · have hnext : Raises config (parseAction <$> (ResearchCall.nextAction (plannerContext config priorSteps)).perform)
        fun e trace => (∀ text, e ≠ .raised "ActionParseError" text) → Raised e trace :=
      Raises.map (raises_perform fun _ e trace he => ⟨_, List.mem_cons_self, he⟩)
    refine fun s => Safe.guarded ((hnext s).mono fun r s _ h => ?_)
    cases r with
    | ok a => exact fun e he => nomatch he
    | error e =>
      dsimp only
      split
      next => exact ⟨trivial, fun _ he => nomatch he⟩
      next hother => exact ⟨trivial, fun e' he => by cases he; exact h e rfl hother⟩
  · cases planned with
    | error e => exact Raises.bind (deny_raises interrupts_audit) fun _ => raises_pure _
    | ok action => exact Raises.bind (raises_kept (c := .finishStep ..) trivial) fun _ => raises_pure _

theorem fail_raises {errorCode} : Raises config (fail config errorCode) E :=
  Raises.bind (raises_kept (c := .casStatus ..) trivial) fun _ => raises_pure _

theorem succeed_raises {summary} : Raises config (succeed config summary) E := by
  refine Raises.bind (raises_kept (c := .listEvidence _) trivial) fun _ => ?_
  refine Raises.bind (raises_kept (c := .casStatus ..) trivial) fun _ => ?_
  exact Raises.bind (raises_kept (c := .listSteps _) trivial) fun _ => raises_pure _

theorem callTool_raises {action} : Raises config (callTool config state action) Raised := by
  refine raises_ite (fun _ => Raises.bind fail_raises fun _ => raises_pure _) fun _ => ?_
  refine Raises.bind (E := Raised) ?_ fun exceeded => ?_
  · refine raises_ite (fun _ => ?_) fun _ => raises_pure _
    refine Raises.bind ?_ fun promotions => raises_pure _
    exact Raises.bind (raises_kept (c := .listEvidence _) trivial) fun _ => raises_pure _
  refine raises_ite (fun _ => Raises.bind fail_raises fun _ => raises_pure _) fun _ => ?_
  refine Raises.bind (raises_kept (c := .progress ..) trivial) fun _ => ?_
  refine Raises.bind dispatch_raises fun turn => ?_
  refine Raises.bind (raises_kept (c := .listSteps _) trivial) fun steps => ?_
  exact Raises.bind (raises_kept (c := .checkpoint _) trivial) fun _ => raises_pure _

theorem actOn_raises {planned} : Raises config (actOn config state planned) Raised := by
  rcases planned with _ | action
  · exact raises_pure _
  cases action with
  | finish summary => exact Raises.bind succeed_raises fun _ => raises_pure _
  | _ =>
    simp only [actOn]
    split
    · refine Raises.bind (deny_raises interrupts_audit) fun _ => ?_
      exact raises_ite (fun _ => Raises.bind fail_raises fun _ => raises_pure _) fun _ => raises_pure _
    · exact callTool_raises

theorem iteration_raises : Raises config (iteration config state) Raised := by
  refine Raises.bind (raises_kept (c := .getRun _) trivial) fun live => ?_
  cases live with
  | none => exact raises_pure _
  | some run =>
    refine raises_ite (fun _ => raises_pure _) fun _ => ?_
    refine Raises.bind (raises_perform (c := .shouldStop) fun _ e trace => ⟨_, List.mem_cons_self, trivial⟩) fun stop => ?_
    refine raises_ite (fun _ => raises_pure _) fun _ => ?_
    refine Raises.bind (raises_kept (c := .listSteps _) trivial) fun priorSteps => ?_
    refine raises_ite (fun _ => Raises.bind fail_raises fun _ => raises_pure _) fun _ => ?_
    exact Raises.bind planAction_raises fun _ => actOn_raises

/-- **The loop ends**: with more fuel than there is room for steps, it is not the fuel that ends it. -/
theorem loop_ends (fuel : Nat) (hk : k ≤ m) (hfuel : config.budget.maxSteps - m < fuel) (h : Paid config k m s) :
    (loop config fuel state).run.Safe recordedExec (Beside (SameRun config.runId)) Returning
      (Paid config k 0) (fun r s => ∀ e, r = .error e → Raised e s.2) s := by
  induction fuel generalizing m s state with
  | zero => omega
  | succ fuel ih =>
    have hboth := Safe.and (iteration_pays hk h : Pays config k Returning (iteration config state) _ s) (iteration_raises s)
    refine Safe.seq ((hboth.weaken fun s hs => hs.1).mono fun r s hi hr => ?_)
    obtain ⟨hpays, hraises⟩ := hr
    cases r with
    | error e => exact fun e' he => by cases he; exact hraises e rfl
    | ok r =>
      cases r with
      | inl outcome => exact ⟨hi, fun e he => nomatch he⟩
      | inr state' =>
        obtain ⟨hlt, h⟩ := hpays state' rfl
        exact ih (hk.trans (Nat.le_succ m)) (by omega) h

/-- What never calls the planner and, where the store returns, raises nothing but such exceptions. -/
theorem unplanned_ends {x : ResearchProgram α} (hx : Only (ResearchCall.Unplanned config.runId) x.run)
    (hraises : Raises config x Raised) (h : Paid config k m s) :
    x.run.Safe recordedExec (Beside (SameRun config.runId)) Returning
      (Paid config k 0)
      (fun r s => (∀ a, r = .ok a → Paid config k m s) ∧ ∀ e, r = .error e → Raised e s.2) s := by
  refine ((Safe.and (unplanned_pays hx h) (hraises s)).weaken fun s hs => hs.1).mono fun r s _ hr => ⟨fun a ha => ?_, hr.2⟩
  subst ha
  exact hr.1

theorem countToolSteps_unplanned {runId} : Only (ResearchCall.Unplanned config.runId) (countToolSteps runId).run :=
  Only.bind (perform_only (c := .listSteps _) trivial) fun _ => only_pure _

theorem drive_pays {planned fuel} {run : ResearchRun} (hk : k ≤ m) (h : Paid run.toRunConfig k m s) :
    Pays run.toRunConfig k cond (drive planned fuel run) (fun _ _ => True) s := by
  refine leaves_ite (fun _ => leaves_pure h.start trivial) fun _ => ?_
  refine leaves_ite (fun _ => (unplanned_pays fail_unplanned h).mono (fun _ _ _ _ => trivial) fun _ _ h => h) fun _ => ?_
  exact Leaves.bind (unplanned_pays countToolSteps_unplanned h) fun n s _ h => loop_pays fuel hk h

theorem drive_ends {planned fuel} {run : ResearchRun} (hk : k ≤ m) (hfuel : run.budget.maxSteps - m < fuel)
    (h : Paid run.toRunConfig k m s) :
    (drive planned fuel run).run.Safe recordedExec (Beside (SameRun run.runId)) Returning
      (Paid run.toRunConfig k 0) (fun r s => ∀ e, r = .error e → Raised e s.2) s := by
  refine safe_ite (fun _ => ⟨h.start, fun e he => nomatch he⟩) fun _ => ?_
  refine safe_ite (fun _ => ?_) fun _ => ?_
  · exact (unplanned_ends fail_unplanned fail_raises h).mono fun _ _ _ hr => hr.2
  · have hcount : Raises run.toRunConfig (countToolSteps run.runId) Raised :=
      Raises.bind (raises_kept (c := .listSteps _) trivial) fun _ => raises_pure _
    refine Safe.seq ((unplanned_ends countToolSteps_unplanned hcount h).mono fun r s _ hr => ?_)
    cases r with
    | error e => exact fun e' he => by cases he; exact hr.2 e rfl
    | ok n => exact loop_ends fuel hk hfuel (hr.1 n rfl)

/-- The run that an execution finds is configured so. -/
theorem getRun_pays (h : Paid config k m s) : Pays config k cond (ResearchCall.getRun config.runId).perform
    (fun (found : Option ResearchRun) s => Paid config k m s ∧ ∃ run, found = some run ∧ run.toRunConfig = config) s := by
  refine leaves_perform h.start fun s' env hr _ => ?_
  have hpaid := (h.beside hr).exec (.getRun config.runId) env rfl
  refine ⟨hpaid.start, fun (found : Option ResearchRun) hok => ⟨hpaid, ?_⟩, fun _ _ => trivial⟩
  obtain rfl : found = s'.1.run? config.runId := Except.ok.inj (exec_ok (c := .getRun config.runId) hok.symm).2
  exact Option.map_eq_some_iff.1 (h.beside hr).configured

/-- **An execution calls the planner** only for steps that the budget leaves room for. -/
theorem execute_pays {planned fuel} (hk : k ≤ m) (h : Paid config k m s) :
    Pays config k cond (execute planned fuel config.runId) (fun _ _ => True) s := by
  refine Leaves.bind (getRun_pays h) fun found s _ hfound => ?_
  obtain ⟨h, run, rfl, rfl⟩ := hfound
  exact drive_pays hk h

/-- **An execution ends**: it returns, or raises what ends an execution. -/
theorem execute_ends {planned fuel} (hk : k ≤ m) (hfuel : config.budget.maxSteps - m < fuel) (h : Paid config k m s) :
    (execute planned fuel config.runId).run.Safe recordedExec (Beside (SameRun config.runId)) Returning
      (Paid config k 0) (fun r s => ∀ e, r = .error e → Raised e s.2) s := by
  have hboth := Safe.and (getRun_pays h : Pays config k Returning _ _ s)
    (raises_kept (E := Raised) (c := .getRun config.runId) trivial s)
  refine Safe.seq ((hboth.weaken fun s hs => hs.1).mono fun r s hi hr => ?_)
  obtain ⟨hpays, hraises⟩ := hr
  cases r with
  | error e => exact fun e' he => by cases he; exact hraises e rfl
  | ok found =>
    obtain ⟨h, run, rfl, rfl⟩ := hpays
    exact drive_ends hk hfuel h

end Loop

end ResearchRunExecutor

/-! ## Executions one after another -/

open ResearchRunExecutor

/-- The states of the executions of a run, with the calls of all of them. -/
abbrev RecordedExecutions (config : RunConfig) :
    Serial ResearchCall ResearchAnswer ResearchRecord (Except ResearchError ExecutorOutcome) → Prop :=
  Serial.Reach recordedExec (fun r : (RunMode → Bool) × Nat => (execute r.1 r.2 config.runId).run)
    (Beside (Elsewhere config.runId)) (fun s => Holds config ⟨0, 0, 0, 0⟩ s.1 ∧ s.2 = []) fun _ _ _ => True

/-- **The research loop ends.** Where the store, progress and the checkpoint return, an execution calls the planner at
most as often as the budget leaves room for steps, and ends of itself: it returns, unless the planner raises something
else than an ActionParseError, or the audit log or the stop signal raise, or its process is stopped within a tool. And
over any number of executions of a run, whatever their calls come to, the planner is called at most `max_steps` times. -/
theorem research_loop_ends {config : RunConfig} :
    (∀ (planned : RunMode → Bool) (fuel : Nat) (w : ResearchWorld), w.config? config.runId = some config →
      config.budget.maxSteps - (w.tally config.runId).steps < fuel →
      (execute planned fuel config.runId).run.Safe recordedExec (Beside (SameRun config.runId)) Returning
        (fun s => plannerCalls s.2 ≤ config.budget.maxSteps - (w.tally config.runId).steps)
        (fun r s => ∀ e, r = .error e → Raised e s.2) (w, [])) ∧
    ∀ s, RecordedExecutions config s → plannerCalls s.shared.2 ≤ config.budget.maxSteps := by
  constructor
  · intro planned fuel w hconfig hfuel
    have hpaid : Paid config (w.tally config.runId).steps (w.tally config.runId).steps (w, []) :=
      ⟨hconfig, le_rfl, Nat.zero_le _, Nat.zero_le _⟩
    exact (execute_ends le_rfl hfuel hpaid).weaken fun s hs => hs.budget
  · intro s h
    have hpaid : Paid config 0 0 s.shared := by
      refine Serial.invariant (Beside (SameRun config.runId)) (fun _ => ⟨⟨rfl, rfl⟩, rfl⟩) ?_ ?_
        (fun _ _ => Paid.beside) ?_ (fun r w hw => ?_) h
      · exact fun _ _ _ h h' => ⟨⟨h'.1.1.trans h.1.1, h'.1.2.trans h.1.2⟩, h'.2.trans h.2⟩
      · exact fun _ _ ho => ⟨ho.1.sameRun, ho.2⟩
      · intro s ⟨⟨_, hconfig⟩, htrace⟩
        refine ⟨hconfig, Nat.zero_le _, ?_, ?_⟩ <;> simp [htrace, plannerCalls]
      · exact Safe.mono (execute_pays (Nat.le_refl 0) hw) fun _ _ _ _ => trivial
    exact hpaid.budget

/-- With room for two steps, the planner is called at most twice. -/
theorem research_loop_ends_two :
    (execute (fun _ => true) 3 1).run.Safe recordedExec (Beside (SameRun 1)) Returning (fun s => plannerCalls s.2 ≤ 2)
      (fun r s => ∀ e, r = .error e → Raised e s.2) ({ runs := [importingRun { maxSteps := 2 }] }, []) :=
  (@research_loop_ends (importingRun { maxSteps := 2 }).toRunConfig).1 (fun _ => true) 3
    { runs := [importingRun { maxSteps := 2 }] } rfl (by decide)

end MilpbookLM
