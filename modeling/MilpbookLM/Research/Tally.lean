/-
What a run's rows add up to (`Tally`), and what calls do to it: those of others nothing
(`Elsewhere.sameRun`), and the dispatch of one action adds one step of a tool, and at
most the one import that the action is for (`dispatch_keeps`).
-/
import MilpbookLM.Lib.Serial
import MilpbookLM.Research.Authorization

namespace MilpbookLM

open Interleave Prog

/-! ## What a run's rows add up to -/

@[ext] structure Tally where
  steps : Nat
  tools : Nat
  promotions : Nat
  imports : Nat
  deriving DecidableEq

namespace ResearchWorld

variable (w : ResearchWorld) (runId : Uuid)

/-- The rows of the run's steps, those of tool calls, its promoted evidence and its imports. -/
def tally : Tally where
  steps := w.steps.countP (·.runId = runId)
  tools := w.steps.countP fun s => s.runId = runId && s.toolName.isSome
  promotions := w.evidence.countP fun e => e.runId = runId && e.promotedSourceVersionId.isSome
  imports := w.imported.countP (·.1 = runId)

def config? : Option RunConfig := (w.run? runId).map (·.toRunConfig)

end ResearchWorld

/-- The run is as it was, but for its state. -/
def SameRun (runId : Uuid) (w w' : ResearchWorld) : Prop :=
  w'.tally runId = w.tally runId ∧ w'.config? runId = w.config? runId

/-- A call that adds to no row of the run: any but those of an executor of it. -/
def ResearchCall.Apart (runId : Uuid) (w : ResearchWorld) : ResearchCall → Prop
  | .beginStep r .. => r ≠ runId
  | .finishStep stepId .. => ∀ s ∈ w.steps, s.stepId = stepId → s.runId ≠ runId
  | .appendEvidence r .. => r ≠ runId
  | .markPromoted evidenceId _ => ∀ e ∈ w.evidence, e.evidenceId = evidenceId → e.runId ≠ runId
  | .importFetched config .. => config.runId ≠ runId
  | _ => True

/-- A call that changes nothing a tally counts. -/
def ResearchCall.AddsNothing (runId : Uuid) (w : ResearchWorld) : ResearchCall → Prop
  | .beginStep r .. => r ≠ runId
  | .markPromoted evidenceId _ => ∀ e ∈ w.evidence, e.evidenceId = evidenceId → e.runId ≠ runId
  | .importFetched config .. => config.runId ≠ runId
  | _ => True

/-- A call that begins no step and imports nothing. -/
def ResearchCall.Steady : ResearchCall → Prop
  | .beginStep .. | .importFetched .. => False
  | _ => True

/-- What others do: start, pause, resume and cancel runs, create others, and execute others. -/
inductive Elsewhere (runId : Uuid) : ResearchWorld → ResearchWorld → Prop
  | call {w} (c : ResearchCall) (env : ResearchEnv) : c.Apart runId w → Elsewhere runId w (c.exec env w).2
  | create {w} (run : ResearchRun) : run.runId ≠ runId → Elsewhere runId w { w with runs := w.runs ++ [run] }

section Tally

variable {w : ResearchWorld} {c : ResearchCall} {env : ResearchEnv} {runId : Uuid}

theorem config?_casStatus {r expected target updates} :
    (w.casStatus r expected target updates).2.config? runId = w.config? runId := by
  simp only [ResearchWorld.casStatus]
  split
  · rfl
  · split
    · rfl
    · simp only [ResearchWorld.config?, ResearchWorld.run?]
      rw [Table.lookup_update (f := ResearchWorld.castRun target updates) fun _ _ => rfl, Option.map_map]
      congr 1
      funext run
      simp only [Function.comp]
      split <;> rfl

theorem config?_exec : (c.exec env w).2.config? runId = w.config? runId := by
  cases hr : env.raises with
  | some e => simp only [ResearchCall.exec, hr]
  | none =>
    simp only [ResearchCall.exec, hr]
    cases c with
    | casStatus => exact config?_casStatus
    | beginStep =>
      simp only [ResearchCall.effect, ResearchWorld.insertStep]
      split <;> rfl
    | appendEvidence =>
      simp only [ResearchCall.effect, ResearchWorld.appendEvidence]
      split <;> rfl
    | _ => rfl

theorem tally_casStatus {r expected target updates} :
    (w.casStatus r expected target updates).2.tally runId = w.tally runId := by
  simp only [ResearchWorld.casStatus]
  split
  · rfl
  · split <;> rfl

/-- The tally with one more step, of a tool or not. -/
def Tally.step (t : Tally) (tool : Bool) : Tally := { t with steps := t.steps + 1, tools := t.tools + tool.toNat }

/-- A step that is inserted counts for its run; one that is not leaves all as it is. -/
theorem tally_insertStep {row : ResearchStep} :
    (w.insertStep row).2.tally runId = w.tally runId ∧ ((w.insertStep row).1.isOk → row.runId ≠ runId) ∨
      row.runId = runId ∧ (w.insertStep row).1 = .ok row.stepId ∧
        (w.insertStep row).2.tally runId = (w.tally runId).step row.toolName.isSome := by
  simp only [ResearchWorld.insertStep]
  split
  · exact .inl ⟨rfl, fun h => nomatch h⟩
  · by_cases hr : row.runId = runId
    · refine .inr ⟨hr, rfl, ?_⟩
      cases ht : row.toolName <;> simp [ResearchWorld.tally, Tally.step, List.countP_append, hr, ht]
    · refine .inl ⟨?_, fun _ => hr⟩
      simp [ResearchWorld.tally, List.countP_append, hr]

theorem tally_finishStep {stepId status summary errorCode evidenceId} :
    (w.finishStep stepId status summary errorCode evidenceId).tally runId = w.tally runId := by
  simp only [ResearchWorld.tally, ResearchWorld.finishStep]
  rw [Table.countP_update (f := ResearchWorld.finishedStep status summary errorCode evidenceId) fun _ => rfl,
    Table.countP_update (f := ResearchWorld.finishedStep status summary errorCode evidenceId) fun _ => rfl]

theorem tally_appendEvidence {row : ResearchEvidence} (h : row.promotedSourceVersionId = none) :
    (w.appendEvidence row).2.tally runId = w.tally runId := by
  simp only [ResearchWorld.appendEvidence]
  split
  · rfl
  · simp [ResearchWorld.tally, List.countP_append, h]

/-- A promotion of another run's evidence leaves the run as it is. -/
theorem tally_markPromoted {evidenceId version}
    (h : ∀ e ∈ w.evidence, e.evidenceId = evidenceId → e.runId ≠ runId) :
    (w.markPromoted evidenceId version).2.tally runId = w.tally runId := by
  have hrows : ((w.markPromoted evidenceId version).2.evidence.countP
      fun e => e.runId = runId && e.promotedSourceVersionId.isSome) =
      w.evidence.countP fun e => e.runId = runId && e.promotedSourceVersionId.isSome := by
    simp only [ResearchWorld.markPromoted, Table.update, List.countP_map]
    refine List.countP_congr fun e he => ?_
    simp only [Function.comp]
    split
    · next hp =>
      simp only [Bool.and_eq_true, decide_eq_true_eq] at hp
      simp [h e he hp.1]
    · rfl
  simp only [ResearchWorld.tally, hrows]
  rfl

theorem tally_exec (h : c.AddsNothing runId w) : (c.exec env w).2.tally runId = w.tally runId := by
  cases hr : env.raises with
  | some e => simp only [ResearchCall.exec, hr]
  | none =>
    simp only [ResearchCall.exec, hr]
    cases c with
    | casStatus => exact tally_casStatus
    | beginStep =>
      rcases tally_insertStep with ⟨hsame, -⟩ | ⟨hrun, -⟩
      · exact hsame
      · exact absurd hrun h
    | finishStep => exact tally_finishStep
    | appendEvidence => exact tally_appendEvidence rfl
    | markPromoted => exact tally_markPromoted h
    | importFetched =>
      simp only [ResearchCall.effect, ResearchWorld.tally, List.countP_cons]
      rw [if_neg (by simpa [ResearchCall.AddsNothing] using h), Nat.add_zero]
    | _ => rfl

theorem tally_exec_steady (h : c.Steady) :
    ((c.exec env w).2.tally runId).steps = (w.tally runId).steps ∧
      ((c.exec env w).2.tally runId).tools = (w.tally runId).tools ∧
      ((c.exec env w).2.tally runId).imports = (w.tally runId).imports := by
  have hc : c.AddsNothing runId w ∨ ∃ evidenceId version, c = .markPromoted evidenceId version := by
    cases c <;> first | exact h.elim | exact .inr ⟨_, _, rfl⟩ | exact .inl trivial
  rcases hc with hc | ⟨evidenceId, version, rfl⟩
  · simp only [tally_exec hc, and_self]
  · cases hr : env.raises with
    | some e => simp only [ResearchCall.exec, hr, and_self]
    | none =>
      simp only [ResearchCall.exec, hr]
      exact ⟨rfl, rfl, rfl⟩

theorem ResearchCall.Apart.addsNothing (h : c.Apart runId w) : c.AddsNothing runId w := by
  cases c <;> first | exact h | trivial

theorem Elsewhere.sameRun {w'} (h : Elsewhere runId w w') : SameRun runId w w' := by
  cases h with
  | call c env h => exact ⟨tally_exec h.addsNothing, config?_exec⟩
  | create run hnew =>
    refine ⟨rfl, ?_⟩
    simp [ResearchWorld.config?, ResearchWorld.run?, Table.lookup, hnew]

end Tally

/-! ## What an execution does to the tally -/

abbrev researchExec : Exec ResearchCall ResearchAnswer ResearchWorld ResearchEnv := fun c env w => c.exec env w

/-- The run is configured so, and its rows add up to `t`. -/
def Holds (config : RunConfig) (t : Tally) (w : ResearchWorld) : Prop :=
  w.tally config.runId = t ∧ w.config? config.runId = some config

/-- One tool call later: a step more, of a tool, and so many imports more at the most. -/
def Tally.Called (imports : Nat) (t t' : Tally) : Prop :=
  t'.steps = t.steps + 1 ∧ t'.tools = t.tools + 1 ∧ t'.imports ≤ t.imports + imports

/-- What a call of the action may import. -/
def PlannerAction.imports (action : PlannerAction) : Nat := if action.tool = ResearchTool.sourceImport.value then 1 else 0

/-- The rows add up to what a tool call makes of `t`. -/
def HoldsCalled (config : RunConfig) (imports : Nat) (t : Tally) (w : ResearchWorld) : Prop :=
  ∃ t', t.Called imports t' ∧ Holds config t' w

section Execution

variable {α : Type} {config : RunConfig} {cond : ResearchCall → ResearchEnv → ResearchWorld → Prop}
  {inv F : ResearchWorld → Prop} {t : Tally} {w w' : ResearchWorld} {n m : Nat}

theorem SameRun.holds (h : SameRun config.runId w w') (hw : Holds config t w) : Holds config t w' :=
  ⟨h.1.trans hw.1, h.2.trans hw.2⟩

theorem SameRun.holdsCalled (h : SameRun config.runId w w') (hw : HoldsCalled config n t w) :
    HoldsCalled config n t w' := by
  obtain ⟨t', hc, ht⟩ := hw
  exact ⟨t', hc, h.holds ht⟩

theorem HoldsCalled.mono (h : HoldsCalled config n t w) (hn : n ≤ m) : HoldsCalled config m t w := by
  obtain ⟨t', ⟨hs, ht, hi⟩, hw⟩ := h
  exact ⟨t', ⟨hs, ht, hi.trans (Nat.add_le_add_left hn _)⟩, hw⟩

theorem HoldsCalled.exec {c : ResearchCall} {env} (hc : c.Steady) (h : HoldsCalled config n t w) :
    HoldsCalled config n t (c.exec env w).2 := by
  obtain ⟨t', ⟨hs, ht, hi⟩, rfl, hcfg⟩ := h
  obtain ⟨hs', ht', hi'⟩ := @tally_exec_steady w c env config.runId hc
  exact ⟨_, ⟨hs'.trans hs, ht'.trans ht, hi'.trans_le hi⟩, rfl, config?_exec.trans hcfg⟩

/-- A call that adds nothing leaves the tally, and tells of the state it was made in. -/
theorem ResearchCall.keeps {c : ResearchCall} (hc : ∀ w, c.AddsNothing config.runId w)
    (hinv : ∀ w, Holds config t w → inv w) (hw : Holds config t w) :
    Leaves researchExec (SameRun config.runId) cond inv c.perform
      (fun a w' => Holds config t w' ∧ ∃ env w₀, Holds config t w₀ ∧ cond c env w₀ ∧ .ok a = (c.exec env w₀).1)
      (Holds config t) w := by
  refine ⟨hinv w hw, fun w₀ env hr hcond => ?_⟩
  have hw₀ := hr.holds hw
  have hw₁ : Holds config t (c.exec env w₀).2 := ⟨(tally_exec (hc w₀)).trans hw₀.1, config?_exec.trans hw₀.2⟩
  refine ⟨hinv _ hw₁, ?_⟩
  cases ha : (c.exec env w₀).1 with
  | error e => exact hw₁
  | ok a => exact ⟨hw₁, env, w₀, hw₀, hcond, ha.symm⟩

/-- A step that begins is one more. -/
theorem beginStep_keeps {number kind tool} (hinv : ∀ w, Holds config t w → inv w)
    (hinv' : ∀ w, Holds config (t.step tool.isSome) w → inv w) (hw : Holds config t w) :
    Leaves researchExec (SameRun config.runId) cond inv (ResearchCall.beginStep config.runId number kind tool).perform
      (fun _ => Holds config (t.step tool.isSome)) (fun _ => True) w := by
  refine ⟨hinv w hw, fun w₀ env hr _ => ?_⟩
  have hw₀ := hr.holds hw
  have hcfg : (ResearchCall.exec env (.beginStep config.runId number kind tool) w₀).2.config? config.runId = some config :=
    config?_exec.trans hw₀.2
  cases hraise : env.raises with
  | some e =>
    simp only [ResearchCall.exec, hraise]
    exact ⟨hinv _ hw₀, trivial⟩
  | none =>
    simp only [ResearchCall.exec, hraise] at hcfg ⊢
    have hins := @tally_insertStep w₀ config.runId
      { stepId := env.newId, runId := config.runId, stepNumber := number, stepKind := kind, toolName := tool }
    rcases hins with ⟨hsame, hne⟩ | ⟨-, hok, hmore⟩
    · have hw₁ : Holds config t _ := ⟨hsame.trans hw₀.1, hcfg⟩
      refine ⟨hinv _ hw₁, ?_⟩
      simp only [ResearchCall.effect]
      split
      · next hok => exact absurd rfl (hne (by rw [hok]; rfl))
      · trivial
    · have hw₁ : Holds config (t.step tool.isSome) _ := ⟨hmore.trans (by rw [hw₀.1]), hcfg⟩
      refine ⟨hinv' _ hw₁, ?_⟩
      simp only [ResearchCall.effect, hok]
      exact hw₁

theorem steady_keeps {x : ResearchProgram α} (hx : Only ResearchCall.Steady x.run)
    (hinv : ∀ w, HoldsCalled config n t w → inv w) (hw : HoldsCalled config n t w) :
    Leaves researchExec (SameRun config.runId) cond inv x (fun _ => HoldsCalled config n t) (HoldsCalled config n t) w :=
  Only.leaves hx hw hinv (fun _ _ => SameRun.holdsCalled) fun _ _ _ => HoldsCalled.exec

theorem steady_records {c : ResearchCall} (h : c.Records) : c.Steady := by
  cases c <;> first | exact h.elim | trivial

theorem steady_tool {c : ResearchCall} {tool} (h : c.tool? = some tool) (hne : tool ≠ ResearchTool.sourceImport.value) :
    c.Steady := by
  cases c with
  | importFetched => exact hne (Option.some.inj h).symm
  | beginStep => cases h
  | _ => trivial

/-- The import itself is one more. -/
theorem importFetched_keeps {url title} (hinv : ∀ w, HoldsCalled config 1 t w → inv w) (hw : HoldsCalled config 0 t w) :
    Leaves researchExec (SameRun config.runId) cond inv (ResearchCall.importFetched config url title).perform
      (fun _ => HoldsCalled config 1 t) (HoldsCalled config 1 t) w := by
  refine ⟨hinv w (hw.mono (Nat.zero_le 1)), fun w₀ env hr _ => ?_⟩
  have hw₀ := hr.holdsCalled hw
  obtain ⟨t', ⟨hs, ht, hi⟩, htally, hcfg⟩ := hw₀
  cases hraise : env.raises with
  | some e =>
    simp only [ResearchCall.exec, hraise]
    have hw₁ : HoldsCalled config 1 t w₀ := ⟨t', ⟨hs, ht, hi.trans (by simp)⟩, htally, hcfg⟩
    exact ⟨hinv _ hw₁, hw₁⟩
  | none =>
    simp only [ResearchCall.exec, hraise]
    have hw₁ : HoldsCalled config 1 t { w₀ with imported := (config.runId, env.newId) :: w₀.imported } := by
      refine ⟨{ t' with imports := t'.imports + 1 }, ⟨hs, ht, Nat.add_le_add_right hi 1⟩, ?_, hcfg⟩
      rw [← htally]
      simp [ResearchWorld.tally]
    exact ⟨hinv _ hw₁, hw₁⟩

end Execution

namespace ResearchRunExecutor

section Dispatch

variable {config : RunConfig} {cond : ResearchCall → ResearchEnv → ResearchWorld → Prop}
  {inv : ResearchWorld → Prop} {t : Tally} {w : ResearchWorld} {action : PlannerAction}

/-- Of the actions only an import imports, and it imports once. -/
theorem dispatchAction_keeps {stepId} (hinv : ∀ w, HoldsCalled config action.imports t w → inv w)
    (hw : HoldsCalled config 0 t w) :
    Leaves researchExec (SameRun config.runId) cond inv (dispatchAction config stepId action)
      (fun _ => HoldsCalled config action.imports t) (HoldsCalled config action.imports t) w := by
  have hrec : ∀ c, ResearchCall.Records c → c.Steady := fun _ => steady_records
  by_cases htool : action.tool = ResearchTool.sourceImport.value
  · obtain ⟨evidenceId, title, rfl⟩ : ∃ evidenceId title, action = .sourceImport evidenceId title := by
      cases action <;> first | exact ⟨_, _, rfl⟩ | simp [PlannerAction.tool, ResearchTool.value] at htool
    have hle := hw.mono (Nat.zero_le 1)
    have hinv₀ : ∀ w, HoldsCalled config 0 t w → inv w := fun w hw => hinv w (hw.mono (Nat.zero_le 1))
    dsimp only [dispatchAction]
    split
    · exact leaves_throw (hinv w hle) hle
    · refine Leaves.bind (R := fun _ => HoldsCalled config 0 t) ?_ fun target w _ hw => ?_
      · exact (steady_keeps (evidenceById_only hrec) hinv₀ hw).mono (fun _ _ _ h => h) fun _ _ h => h.mono (Nat.zero_le 1)
      rcases target with _ | ⟨_, _, _, _ | url, _⟩
      · exact steady_keeps (importMissing_only hrec) hinv (hw.mono (Nat.zero_le 1))
      · exact steady_keeps (importMissing_only hrec) hinv (hw.mono (Nat.zero_le 1))
      refine Leaves.bind (importFetched_keeps hinv hw) fun version w _ hw => ?_
      refine steady_keeps ?_ hinv hw
      refine Only.bind (perform_only (c := .markPromoted ..) trivial) fun _ => ?_
      exact Only.bind (perform_only trivial) fun _ => only_pure _
  · have himports : action.imports = 0 := if_neg htool
    rw [himports] at hinv ⊢
    exact steady_keeps (dispatchAction_only hrec fun c hc => steady_tool hc htool) hinv hw

theorem dispatch_keeps (hinv : ∀ w, Holds config t w → inv w)
    (hcalled : ∀ w, HoldsCalled config action.imports t w → inv w) (hw : Holds config t w) :
    Leaves researchExec (SameRun config.runId) cond inv (dispatch config action)
      (fun _ => HoldsCalled config action.imports t) (fun _ => True) w := by
  have hbegun : ∀ w, Holds config (t.step true) w → HoldsCalled config 0 t w := fun w hw =>
    ⟨t.step true, ⟨rfl, rfl, le_rfl⟩, hw⟩
  refine Leaves.bind (Leaves.mono (ResearchCall.keeps (c := .listSteps _) (fun _ => trivial) hinv hw)
    (fun _ _ _ h => h) fun _ _ _ => trivial) fun steps w _ hw => ?_
  refine Leaves.bind (R := fun _ => Holds config (t.step true))
    (beginStep_keeps hinv (fun w hw => hcalled w ((hbegun w hw).mono (Nat.zero_le _))) hw.1) fun stepId w _ hw => ?_
  refine Leaves.guarded (dispatchAction_keeps hcalled (hbegun w hw)) fun e w _ hw => ?_
  exact (steady_keeps (dispatchFailed_only fun _ => steady_records) hcalled hw).mono (fun _ _ _ h => h)
    fun _ _ _ => trivial

end Dispatch

end ResearchRunExecutor

end MilpbookLM
