/-
What a planner may propose. `parse_action` is modelled here over mappings with keys of any kind; on those
with text keys alone it is the parser of the executor (`parse_ofJson`). It accepts what the grammar has
(`Grammatical`), with two exceptions: a `finish` with further arguments is accepted as well, and a TypeError is
raised where the names that do not belong cannot be sorted (`parse_grammar_iff`).
-/
import MilpbookLM.Lib.Table
import MilpbookLM.Research.Tools

namespace MilpbookLM.ActionGrammar

/-! ## Mappings -/

/-- A key of a mapping. -/
inductive Key
  | none
  | bool (b : Bool)
  | int (n : Int)
  | float (q : Rat)
  | text (s : String)
  deriving DecidableEq

/-- A value, mappings with any keys among them. -/
inductive Value
  | null
  | bool (b : Bool)
  | int (n : Int)
  | float (q : Rat)
  | str (s : String)
  | list (xs : List Value)
  | mapping (entries : List (Key × Value))

abbrev Mapping := List (Key × Value)

/-- `mapping.get(name)`; None where there is no such key. -/
def Mapping.get (m : Mapping) (name : String) : Value := ((m.find? (·.1 == .text name)).map (·.2)).getD .null

/-- None, a number or a text: keys of one kind alone are compared by `<`. -/
inductive KeyKind
  | none | number | text
  deriving DecidableEq

def Key.kind : Key → KeyKind
  | .none => .none
  | .bool _ | .int _ | .float _ => .number
  | .text _ => .text

/-- `sorted` raises no TypeError. -/
def sortable (keys : List Key) : Bool := keys.all fun a => keys.all fun b => a.kind = b.kind

/-! ## parse_action -/

/-- What an ActionParseError tells. -/
inductive Refusal
  | notMapping
  | outsideSurface (tool : Value)
  | argsNotMapping
  | unexpectedArgs (tool : String) (extra : List Key)
  | notNonEmptyString (name : String)
  | focusNotString
  | unknownGesture (gesture : String)
  | valueNotString
  | unhandledTool (tool : String)

inductive ParseRaise
  | parseError (refusal : Refusal)
  | typeError

/-- `set(args) - set(_TOOL_FIELDS[tool])`. -/
def extraArgs (tool : String) (args : Mapping) : List Key :=
  (args.map (·.1)).filter (· ∉ (toolFields tool).map Key.text)

/-- `_reject_extra_args`. -/
def rejectExtraArgs (tool : String) (args : Mapping) : Except ParseRaise Unit :=
  let extra := extraArgs tool args
  if extra = [] then pure ()
  else if sortable extra then throw (.parseError (.unexpectedArgs tool extra))
  else throw .typeError

/-- `_args`. -/
def actionArgs (payload : Mapping) : Except ParseRaise Mapping :=
  match payload.get "args" with
  | .mapping args => pure args
  | _ => throw (.parseError .argsNotMapping)

/-- `_string_arg`. -/
def stringArg (args : Mapping) (name : String) : Except ParseRaise String :=
  match args.get name with
  | .str value => if isBlank value.toList then throw (.parseError (.notNonEmptyString name)) else pure value
  | _ => throw (.parseError (.notNonEmptyString name))

/-- `value is not None and not isinstance(value, str)` is refused. -/
def optionalArg (args : Mapping) (name : String) (refusal : Refusal) : Except ParseRaise (Option String) :=
  match args.get name with
  | .null => pure none
  | .str value => pure (some value)
  | _ => throw (.parseError refusal)

/-- The action of a tool, as its arguments have it. -/
def toolAction (tool : String) (args : Mapping) : Except ParseRaise PlannerAction :=
  if tool = ResearchTool.webSearch.value then do return .search (← stringArg args "query")
  else if tool = ResearchTool.webFetch.value then do return .fetch (← stringArg args "url")
  else if tool = ResearchTool.browserOpen.value then do return .browserOpen (← stringArg args "url")
  else if tool = ResearchTool.browserObserve.value then do
    return .browserObserve (← optionalArg args "focus" .focusNotString)
  else if tool = ResearchTool.browserInteract.value then do
    let gesture ← stringArg args "gesture"
    if gesture ∉ browserGestures then throw (.parseError (.unknownGesture gesture))
    let value ← optionalArg args "value" .valueNotString
    return .browserInteract gesture (← stringArg args "selector") value
  else if tool = ResearchTool.sourceImport.value then do
    return .sourceImport (← stringArg args "evidence_id") (← stringArg args "title")
  else if tool = ResearchTool.notebookRetrieve.value then do return .retrieve (← stringArg args "query")
  else throw (.parseError (.unhandledTool tool))

/-- `parse_action`. -/
def parse (payload : Value) : Except ParseRaise PlannerAction :=
  match payload with
  | .mapping payload =>
    match Mapping.get payload "tool" with
    | .str tool =>
      if tool = "finish" then do
        let args ← actionArgs payload
        return .finish (← stringArg args "summary")
      else if tool ∉ researchToolSurface then throw (.parseError (.outsideSurface (.str tool)))
      else do
        let args ← actionArgs payload
        rejectExtraArgs tool args
        toolAction tool args
    | tool => throw (.parseError (.outsideSurface tool))
  | _ => throw (.parseError .notMapping)

/-! ## The grammar -/

/-- A tool, with its required and its optional fields. -/
structure Rule where
  tool : String
  required : List String
  optional : List String := []

def grammar : List Rule :=
  [ ⟨"web.search", ["query"], []⟩, ⟨"web.fetch", ["url"], []⟩, ⟨"browser.open", ["url"], []⟩
  , ⟨"browser.observe", [], ["focus"]⟩, ⟨"browser.interact", ["gesture", "selector"], ["value"]⟩
  , ⟨"source.import", ["evidence_id", "title"], []⟩, ⟨"notebook.retrieve", ["query"], []⟩, ⟨"finish", ["summary"], []⟩ ]

/-- The required fields are texts that are not blank, the optional ones null or texts, and a gesture one of the four. -/
structure Rule.Fields (rule : Rule) (args : Mapping) : Prop where
  required : ∀ field ∈ rule.required, ∃ value, args.get field = .str value ∧ isBlank value.toList = false
  optional : ∀ field ∈ rule.optional, args.get field = .null ∨ ∃ value, args.get field = .str value
  gesture : rule.tool = "browser.interact" → ∃ gesture ∈ browserGestures, args.get "gesture" = .str gesture

/-- No key but the tool's fields. -/
def Rule.Declared (rule : Rule) (args : Mapping) : Prop :=
  ∀ entry ∈ args, ∃ field ∈ rule.required ++ rule.optional, entry.1 = .text field

/-- **A mapping of the grammar.** -/
def Grammatical (payload : Mapping) : Prop :=
  ∃ rule ∈ grammar, payload.get "tool" = .str rule.tool ∧
    ∃ args, payload.get "args" = .mapping args ∧ rule.Declared args ∧ rule.Fields args

/-- The fields of an action, with their values. -/
def arguments : PlannerAction → List (String × Value)
  | .search query => [("query", .str query)]
  | .fetch url => [("url", .str url)]
  | .browserOpen url => [("url", .str url)]
  | .browserObserve focus => [("focus", focus.elim .null .str)]
  | .browserInteract gesture selector value =>
    [("gesture", .str gesture), ("selector", .str selector), ("value", value.elim .null .str)]
  | .sourceImport evidenceId title => [("evidence_id", .str evidenceId), ("title", .str title)]
  | .retrieve query => [("query", .str query)]
  | .finish summary => [("summary", .str summary)]

/-- The action has the values of these arguments. -/
def Carries (args : Mapping) (action : PlannerAction) : Prop := ∀ field ∈ arguments action, args.get field.1 = field.2

/-- The texts that an action requires are not blank, and its gesture is one of the four. -/
def Proper : PlannerAction → Prop
  | .search text | .fetch text | .browserOpen text | .retrieve text | .finish text => isBlank text.toList = false
  | .browserObserve _ => True
  | .browserInteract gesture selector _ =>
    gesture ∈ browserGestures ∧ isBlank gesture.toList = false ∧ isBlank selector.toList = false
  | .sourceImport evidenceId title => isBlank evidenceId.toList = false ∧ isBlank title.toList = false

/-- The action that a mapping is of: its tool, and its values. -/
def Of (payload : Mapping) (action : PlannerAction) : Prop :=
  payload.get "tool" = .str action.tool ∧ ∃ args, payload.get "args" = .mapping args ∧ Carries args action

/-! ## The arguments -/

section

variable {args payload : Mapping} {name tool : String} {action : PlannerAction}

theorem stringArg_ok {value : String} :
    stringArg args name = .ok value ↔ args.get name = .str value ∧ isBlank value.toList = false := by
  unfold stringArg
  split
  next text htext =>
    rw [htext, Value.str.injEq]
    split
    next hblank => exact ⟨nofun, fun ⟨heq, hnot⟩ => by rw [← heq, hblank] at hnot; cases hnot⟩
    next hnot =>
      refine ⟨fun h => ?_, fun ⟨heq, _⟩ => congrArg _ heq⟩
      cases h
      exact ⟨rfl, Bool.eq_false_iff.2 hnot⟩
  next hother => exact ⟨nofun, fun ⟨heq, _⟩ => absurd heq (hother value)⟩

theorem optionalArg_ok {value : Option String} {refusal : Refusal} :
    optionalArg args name refusal = .ok value ↔ args.get name = value.elim .null .str := by
  unfold optionalArg
  split
  next hnull =>
    rw [hnull]
    cases value with
    | none => exact ⟨fun _ => rfl, fun _ => rfl⟩
    | some text => exact ⟨nofun, nofun⟩
  next text htext =>
    rw [htext]
    cases value with
    | none => exact ⟨nofun, nofun⟩
    | some other => exact ⟨fun h => by cases h; rfl, fun h => by cases h; rfl⟩
  next hnull hother =>
    cases value with
    | none => exact ⟨nofun, fun h => absurd h hnull⟩
    | some text => exact ⟨nofun, fun h => absurd h (hother text)⟩

/-- These raise ActionParseErrors alone. -/
def Refuses {α : Type} (x : Except ParseRaise α) : Prop := ∀ e, x = .error e → ∃ refusal, e = .parseError refusal

theorem stringArg_refuses : Refuses (stringArg args name) := by
  unfold stringArg
  intro e h
  split at h
  · split at h
    · cases h
      exact ⟨_, rfl⟩
    · cases h
  · cases h
    exact ⟨_, rfl⟩

theorem optionalArg_refuses {refusal : Refusal} : Refuses (optionalArg args name refusal) := by
  unfold optionalArg
  intro e h
  split at h
  · cases h
  · cases h
  · cases h
    exact ⟨_, rfl⟩

theorem actionArgs_refuses : Refuses (actionArgs payload) := by
  unfold actionArgs
  intro e h
  split at h
  · cases h
  · cases h
    exact ⟨_, rfl⟩

theorem actionArgs_ok : actionArgs payload = .ok args ↔ payload.get "args" = .mapping args := by
  unfold actionArgs
  split
  next found hfound =>
    rw [hfound, Value.mapping.injEq]
    exact ⟨Except.ok.inj, congrArg _⟩
  next hother => exact ⟨nofun, fun h => absurd h (hother args)⟩

theorem Refuses.bind {α β : Type} {x : Except ParseRaise α} {f : α → Except ParseRaise β} (hx : Refuses x)
    (hf : ∀ a, x = .ok a → Refuses (f a)) : Refuses (x >>= f) := by
  intro e h
  cases hx' : x with
  | error raised =>
    rw [hx'] at h
    cases h
    exact hx _ hx'
  | ok a =>
    rw [hx'] at h
    exact hf a hx' e h

theorem refuses_pure {α : Type} (a : α) : Refuses (pure a) := nofun

theorem toolAction_refuses : Refuses (toolAction tool args) := by
  have hstring {name} {f : String → PlannerAction} : Refuses (do return f (← stringArg args name)) :=
    stringArg_refuses.bind fun _ _ => refuses_pure _
  unfold toolAction
  split; · exact hstring
  split; · exact hstring
  split; · exact hstring
  split; · exact optionalArg_refuses.bind fun _ _ => refuses_pure _
  split
  · refine stringArg_refuses.bind fun gesture _ => ?_
    split
    · exact fun e h => ⟨_, (Except.error.inj h).symm⟩
    · exact optionalArg_refuses.bind fun _ _ => stringArg_refuses.bind fun _ _ => refuses_pure _
  split; · exact stringArg_refuses.bind fun _ _ => stringArg_refuses.bind fun _ _ => refuses_pure _
  split; · exact hstring
  exact fun e h => ⟨_, (Except.error.inj h).symm⟩

theorem carries_one {field : String} {value : Value} (h : args.get field = value)
    (hargs : arguments action = [(field, value)]) : Carries args action := by
  simpa [Carries, hargs] using h

/-- **What a tool's arguments come to**: the action of the tool that has their values, and it is proper. -/
theorem toolAction_ok (h : toolAction tool args = .ok action) :
    action.tool = tool ∧ Carries args action ∧ Proper action := by
  have hstring {name : String} {f : String → PlannerAction} (h : (do return f (← stringArg args name)) = .ok action) :
      ∃ text, action = f text ∧ args.get name = .str text ∧ isBlank text.toList = false := by
    obtain ⟨text, htext, heq⟩ := Except.bind_ok_iff.1 h
    cases heq
    exact ⟨text, rfl, stringArg_ok.1 htext⟩
  unfold toolAction at h
  split at h
  · next htool =>
    obtain ⟨text, rfl, hget, hblank⟩ := hstring h
    exact ⟨htool.symm, carries_one hget rfl, hblank⟩
  split at h
  · next htool =>
    obtain ⟨text, rfl, hget, hblank⟩ := hstring h
    exact ⟨htool.symm, carries_one hget rfl, hblank⟩
  split at h
  · next htool =>
    obtain ⟨text, rfl, hget, hblank⟩ := hstring h
    exact ⟨htool.symm, carries_one hget rfl, hblank⟩
  split at h
  · next htool =>
    obtain ⟨focus, hfocus, heq⟩ := Except.bind_ok_iff.1 h
    cases heq
    exact ⟨htool.symm, carries_one (optionalArg_ok.1 hfocus) rfl, trivial⟩
  split at h
  · next htool =>
    obtain ⟨gesture, hgesture, h⟩ := Except.bind_ok_iff.1 h
    split at h
    · cases h
    · next hknown =>
      obtain ⟨value, hvalue, h⟩ := Except.bind_ok_iff.1 h
      obtain ⟨selector, hselector, h⟩ := Except.bind_ok_iff.1 h
      cases h
      obtain ⟨hgesture, hgestureBlank⟩ := stringArg_ok.1 hgesture
      obtain ⟨hselector, hselectorBlank⟩ := stringArg_ok.1 hselector
      refine ⟨htool.symm, ?_, not_not.1 hknown, hgestureBlank, hselectorBlank⟩
      simpa [Carries, arguments] using ⟨hgesture, hselector, optionalArg_ok.1 hvalue⟩
  split at h
  · next htool =>
    obtain ⟨evidenceId, hevidence, h⟩ := Except.bind_ok_iff.1 h
    obtain ⟨title, htitle, h⟩ := Except.bind_ok_iff.1 h
    cases h
    obtain ⟨hevidence, hevidenceBlank⟩ := stringArg_ok.1 hevidence
    obtain ⟨htitle, htitleBlank⟩ := stringArg_ok.1 htitle
    refine ⟨htool.symm, ?_, hevidenceBlank, htitleBlank⟩
    simpa [Carries, arguments] using ⟨hevidence, htitle⟩
  split at h
  · next htool =>
    obtain ⟨text, rfl, hget, hblank⟩ := hstring h
    exact ⟨htool.symm, carries_one hget rfl, hblank⟩
  · cases h

theorem toolAction_of (hcarries : Carries args action) (hproper : Proper action) (htool : action.tool ≠ "finish") :
    toolAction action.tool args = .ok action := by
  have hstring {name text : String} {f : String → PlannerAction} (hget : args.get name = .str text)
      (hblank : isBlank text.toList = false) : (do return f (← stringArg args name)) = .ok (f text) :=
    Except.bind_ok_iff.2 ⟨text, stringArg_ok.2 ⟨hget, hblank⟩, rfl⟩
  cases action with
  | search query => exact (if_pos rfl).trans (hstring (hcarries _ List.mem_cons_self) hproper)
  | fetch url =>
    rw [toolAction, if_neg (by simp [PlannerAction.tool, ResearchTool.value])]
    exact (if_pos rfl).trans (hstring (hcarries _ List.mem_cons_self) hproper)
  | browserOpen url =>
    rw [toolAction, if_neg (by simp [PlannerAction.tool, ResearchTool.value]),
      if_neg (by simp [PlannerAction.tool, ResearchTool.value])]
    exact (if_pos rfl).trans (hstring (hcarries _ List.mem_cons_self) hproper)
  | browserObserve focus =>
    rw [toolAction]
    iterate 3 rw [if_neg (by simp [PlannerAction.tool, ResearchTool.value])]
    refine (if_pos rfl).trans ?_
    exact Except.bind_ok_iff.2 ⟨focus, optionalArg_ok.2 (hcarries _ List.mem_cons_self), rfl⟩
  | browserInteract gesture selector value =>
    obtain ⟨hknown, hgesture, hselector⟩ := hproper
    simp only [Carries, arguments, List.forall_mem_cons] at hcarries
    obtain ⟨hgestureArg, hselectorArg, hvalueArg, _⟩ := hcarries
    rw [toolAction]
    iterate 4 rw [if_neg (by simp [PlannerAction.tool, ResearchTool.value])]
    refine (if_pos rfl).trans ?_
    refine Except.bind_ok_iff.2 ⟨gesture, stringArg_ok.2 ⟨hgestureArg, hgesture⟩, ?_⟩
    rw [if_neg (not_not.2 hknown)]
    refine Except.bind_ok_iff.2 ⟨value, optionalArg_ok.2 hvalueArg, ?_⟩
    exact Except.bind_ok_iff.2 ⟨selector, stringArg_ok.2 ⟨hselectorArg, hselector⟩, rfl⟩
  | sourceImport evidenceId title =>
    simp only [Carries, arguments, List.forall_mem_cons] at hcarries
    obtain ⟨hevidenceArg, htitleArg, _⟩ := hcarries
    rw [toolAction]
    iterate 5 rw [if_neg (by simp [PlannerAction.tool, ResearchTool.value])]
    refine (if_pos rfl).trans ?_
    refine Except.bind_ok_iff.2 ⟨evidenceId, stringArg_ok.2 ⟨hevidenceArg, hproper.1⟩, ?_⟩
    exact Except.bind_ok_iff.2 ⟨title, stringArg_ok.2 ⟨htitleArg, hproper.2⟩, rfl⟩
  | retrieve query =>
    rw [toolAction]
    iterate 6 rw [if_neg (by simp [PlannerAction.tool, ResearchTool.value])]
    exact (if_pos rfl).trans (hstring (hcarries _ List.mem_cons_self) hproper)
  | finish summary => exact absurd rfl htool

/-! ## Rules and actions -/

/-- The rule of an action's tool. -/
def ruleOf : PlannerAction → Rule
  | .search _ => ⟨"web.search", ["query"], []⟩
  | .fetch _ => ⟨"web.fetch", ["url"], []⟩
  | .browserOpen _ => ⟨"browser.open", ["url"], []⟩
  | .browserObserve _ => ⟨"browser.observe", [], ["focus"]⟩
  | .browserInteract .. => ⟨"browser.interact", ["gesture", "selector"], ["value"]⟩
  | .sourceImport .. => ⟨"source.import", ["evidence_id", "title"], []⟩
  | .retrieve _ => ⟨"notebook.retrieve", ["query"], []⟩
  | .finish _ => ⟨"finish", ["summary"], []⟩

theorem ruleOf_mem : ruleOf action ∈ grammar := by cases action <;> simp [ruleOf, grammar]

theorem ruleOf_tool : (ruleOf action).tool = action.tool := by cases action <;> rfl

theorem grammar_unique {rule other : Rule} (hrule : rule ∈ grammar) (hother : other ∈ grammar)
    (h : rule.tool = other.tool) : rule = other :=
  List.inj_on_of_nodup_map (f := Rule.tool) (by simp [grammar]) hrule hother h

/-- The fields of a tool are those of its rule. -/
theorem toolFields_ruleOf (h : action.tool ≠ "finish") :
    toolFields action.tool = (ruleOf action).required ++ (ruleOf action).optional := by
  cases action with
  | finish => exact absurd rfl h
  | _ => simp [toolFields, ruleOf, PlannerAction.tool, ResearchTool.value]

theorem extraArgs_nil (h : action.tool ≠ "finish") :
    extraArgs action.tool args = [] ↔ (ruleOf action).Declared args := by
  unfold extraArgs Rule.Declared
  rw [toolFields_ruleOf h]
  simp only [List.filter_eq_nil_iff, List.mem_map, decide_eq_true_eq, not_not, forall_exists_index, and_imp]
  constructor
  · intro hall entry hentry
    obtain ⟨field, hfield, heq⟩ := hall _ entry hentry rfl
    exact ⟨field, hfield, heq.symm⟩
  · intro hall _ entry hentry heq
    obtain ⟨field, hfield, hkey⟩ := hall entry hentry
    exact ⟨field, hfield, (heq ▸ hkey).symm⟩

theorem elim_null_or (value : Option String) :
    value.elim Value.null .str = .null ∨ ∃ text, value.elim Value.null .str = .str text := by
  cases value with
  | none => exact .inl rfl
  | some text => exact .inr ⟨text, rfl⟩

theorem Carries.fields (hcarries : Carries args action) (hproper : Proper action) : (ruleOf action).Fields args := by
  cases action <;> simp only [Carries, arguments, List.forall_mem_cons] at hcarries <;>
    constructor <;> simp_all [ruleOf, Proper, elim_null_or]

/-- **What meets the rule of its tool is an action's arguments.** -/
theorem Rule.Fields.carried {rule : Rule} (hmem : rule ∈ grammar) (h : rule.Fields args) :
    ∃ action, ruleOf action = rule ∧ Carries args action ∧ Proper action := by
  obtain ⟨hrequired, hoptional, hgesture⟩ := h
  have hnull {name : String} (h : args.get name = .null ∨ ∃ value, args.get name = .str value) :
      ∃ value : Option String, args.get name = value.elim .null .str := by
    rcases h with h | ⟨value, h⟩
    · exact ⟨none, h⟩
    · exact ⟨some value, h⟩
  simp only [grammar, List.mem_cons, List.not_mem_nil, or_false] at hmem
  rcases hmem with rfl | rfl | rfl | rfl | rfl | rfl | rfl | rfl
  · obtain ⟨query, hget, hblank⟩ := hrequired _ List.mem_cons_self
    exact ⟨.search query, rfl, carries_one hget rfl, hblank⟩
  · obtain ⟨url, hget, hblank⟩ := hrequired _ List.mem_cons_self
    exact ⟨.fetch url, rfl, carries_one hget rfl, hblank⟩
  · obtain ⟨url, hget, hblank⟩ := hrequired _ List.mem_cons_self
    exact ⟨.browserOpen url, rfl, carries_one hget rfl, hblank⟩
  · obtain ⟨focus, hget⟩ := hnull (hoptional _ List.mem_cons_self)
    exact ⟨.browserObserve focus, rfl, carries_one hget rfl, trivial⟩
  · obtain ⟨gesture, hknown, hgesture⟩ := hgesture rfl
    obtain ⟨⟨text, htext, hblank⟩, ⟨selector, hselector, hselectorBlank⟩, _⟩ := by
      simpa only [List.forall_mem_cons] using hrequired
    obtain ⟨value, hvalue⟩ := hnull (hoptional _ List.mem_cons_self)
    obtain rfl : gesture = text := Value.str.inj (hgesture.symm.trans htext)
    refine ⟨.browserInteract gesture selector value, rfl, ?_, hknown, hblank, hselectorBlank⟩
    simpa [Carries, arguments] using ⟨hgesture, hselector, hvalue⟩
  · obtain ⟨⟨evidenceId, hevidence, hevidenceBlank⟩, ⟨title, htitle, htitleBlank⟩, _⟩ := by
      simpa only [List.forall_mem_cons] using hrequired
    refine ⟨.sourceImport evidenceId title, rfl, ?_, hevidenceBlank, htitleBlank⟩
    simpa [Carries, arguments] using ⟨hevidence, htitle⟩
  · obtain ⟨query, hget, hblank⟩ := hrequired _ List.mem_cons_self
    exact ⟨.retrieve query, rfl, carries_one hget rfl, hblank⟩
  · obtain ⟨summary, hget, hblank⟩ := hrequired _ List.mem_cons_self
    exact ⟨.finish summary, rfl, carries_one hget rfl, hblank⟩

/-- The grammar by actions. -/
theorem grammatical_iff : Grammatical payload ↔
    ∃ action, Of payload action ∧ Proper action ∧
      ∀ args, payload.get "args" = .mapping args → (ruleOf action).Declared args := by
  constructor
  · intro h
    obtain ⟨rule, hrule, htool, args, hargs, hdeclared, hfields⟩ := h
    obtain ⟨action, rfl, hcarries, hproper⟩ := hfields.carried hrule
    refine ⟨action, ⟨by rw [htool, ruleOf_tool], args, hargs, hcarries⟩, hproper, fun other hother => ?_⟩
    obtain rfl : args = other := Value.mapping.inj (hargs.symm.trans hother)
    exact hdeclared
  · intro h
    obtain ⟨action, ⟨htool, args, hargs, hcarries⟩, hproper, hdeclared⟩ := h
    exact ⟨ruleOf action, ruleOf_mem, by rw [htool, ruleOf_tool], args, hargs, hdeclared args hargs,
      hcarries.fields hproper⟩

/-! ## What is accepted -/

theorem finish_not_surface : "finish" ∉ researchToolSurface := by simp [researchToolSurface, ResearchTool.value]

theorem action_tool_surface (h : action.tool ≠ "finish") : action.tool ∈ researchToolSurface := by
  cases action with
  | finish => exact absurd rfl h
  | _ => simp [PlannerAction.tool, researchToolSurface]

theorem parse_finish (htool : payload.get "tool" = .str "finish") :
    parse (.mapping payload) =
      actionArgs payload >>= fun args => stringArg args "summary" >>= fun summary => pure (.finish summary) := by
  simp only [parse, htool, if_true]

theorem parse_tool (htool : payload.get "tool" = .str tool) (hmem : tool ∈ researchToolSurface) :
    parse (.mapping payload) =
      actionArgs payload >>= fun args => rejectExtraArgs tool args >>= fun _ => toolAction tool args := by
  have hfinish : tool ≠ "finish" := fun heq => finish_not_surface (heq ▸ hmem)
  simp only [parse, htool, if_neg hfinish, if_neg (not_not.2 hmem)]

theorem rejectExtraArgs_ok {u : Unit} : rejectExtraArgs tool args = .ok u ↔ extraArgs tool args = [] := by
  simp only [rejectExtraArgs]
  split
  next hnil => exact ⟨fun _ => hnil, fun _ => rfl⟩
  next hextra =>
    refine ⟨fun h => ?_, fun h => absurd h hextra⟩
    split at h <;> cases h

/-- **The accepted mappings**: an action's own, whose arguments have no other key unless it ends the run. -/
theorem parse_ok_iff : parse (.mapping payload) = .ok action ↔ Of payload action ∧ Proper action ∧
    (action.tool ≠ "finish" → ∀ args, payload.get "args" = .mapping args → (ruleOf action).Declared args) := by
  constructor
  · intro h
    cases htool : payload.get "tool" with
    | str tool =>
      by_cases hfinish : tool = "finish"
      · rw [hfinish] at htool
        rw [parse_finish htool] at h
        obtain ⟨args, hargs, h⟩ := Except.bind_ok_iff.1 h
        obtain ⟨summary, hsummary, h⟩ := Except.bind_ok_iff.1 h
        cases h
        obtain ⟨hget, hblank⟩ := stringArg_ok.1 hsummary
        exact ⟨⟨htool, args, actionArgs_ok.1 hargs, carries_one hget rfl⟩, hblank, fun hne => absurd rfl hne⟩
      · by_cases hmem : tool ∈ researchToolSurface
        · rw [parse_tool htool hmem] at h
          obtain ⟨args, hargs, h⟩ := Except.bind_ok_iff.1 h
          obtain ⟨_, hextra, h⟩ := Except.bind_ok_iff.1 h
          obtain ⟨rfl, hcarries, hproper⟩ := toolAction_ok h
          have hargs := actionArgs_ok.1 hargs
          refine ⟨⟨htool, args, hargs, hcarries⟩, hproper, fun hne other hother => ?_⟩
          obtain rfl : args = other := Value.mapping.inj (hargs.symm.trans hother)
          exact (extraArgs_nil hne).1 (rejectExtraArgs_ok.1 hextra)
        · simp only [parse, htool, if_neg hfinish, if_pos hmem] at h
          cases h
    | _ =>
      simp only [parse, htool] at h
      cases h
  · intro h
    obtain ⟨⟨htool, args, hargs, hcarries⟩, hproper, hdeclared⟩ := h
    by_cases hfinish : action.tool = "finish"
    · rw [hfinish] at htool
      rw [parse_finish htool]
      cases action with
      | finish summary =>
        refine Except.bind_ok_iff.2 ⟨args, actionArgs_ok.2 hargs, ?_⟩
        exact Except.bind_ok_iff.2 ⟨summary, stringArg_ok.2 ⟨hcarries _ List.mem_cons_self, hproper⟩, rfl⟩
      | _ => simp [PlannerAction.tool, ResearchTool.value] at hfinish
    · rw [parse_tool htool (action_tool_surface hfinish)]
      refine Except.bind_ok_iff.2 ⟨args, actionArgs_ok.2 hargs, ?_⟩
      refine Except.bind_ok_iff.2 ⟨(), rejectExtraArgs_ok.2 ?_, toolAction_of hcarries hproper hfinish⟩
      exact (extraArgs_nil hfinish).2 (hdeclared hfinish args hargs)

/-! ## What is refused -/

/-- A `finish` with arguments of its own and further ones. -/
def Overfull (payload : Mapping) : Prop :=
  payload.get "tool" = .str "finish" ∧ ∃ args : Mapping, payload.get "args" = .mapping args ∧
    (∃ summary, args.get "summary" = .str summary ∧ isBlank summary.toList = false) ∧
    ∃ entry ∈ args, entry.1 ≠ Key.text "summary"

/-- The names that do not belong to the tool cannot be sorted. -/
def Unsortable (payload : Mapping) : Prop :=
  ∃ tool ∈ researchToolSurface, payload.get "tool" = .str tool ∧
    ∃ args, payload.get "args" = .mapping args ∧ sortable (extraArgs tool args) = false

theorem rejectExtraArgs_typeError :
    rejectExtraArgs tool args = .error .typeError ↔ sortable (extraArgs tool args) = false := by
  simp only [rejectExtraArgs]
  split
  next hnil => exact ⟨nofun, fun h => by rw [hnil] at h; cases h⟩
  next =>
    split
    next hsort => exact ⟨nofun, fun h => by rw [hsort] at h; cases h⟩
    next hsort => exact ⟨fun _ => Bool.eq_false_iff.2 hsort, fun _ => rfl⟩

/-- **The TypeError**: it is of the sorting of the names that do not belong. -/
theorem parse_typeError : parse (.mapping payload) = .error .typeError ↔ Unsortable payload := by
  constructor
  · intro h
    have hno {α : Type} {x : Except ParseRaise α} (hx : Refuses x) : x ≠ .error .typeError := fun heq => by
      obtain ⟨_, hne⟩ := hx _ heq
      cases hne
    cases htool : payload.get "tool" with
    | str tool =>
      by_cases hfinish : tool = "finish"
      · rw [hfinish] at htool
        rw [parse_finish htool] at h
        exact absurd h (hno (actionArgs_refuses.bind fun _ _ => stringArg_refuses.bind fun _ _ => refuses_pure _))
      · by_cases hmem : tool ∈ researchToolSurface
        · rw [parse_tool htool hmem] at h
          cases hargs : actionArgs payload with
          | error raised =>
            rw [hargs] at h
            cases h
            exact absurd hargs (hno actionArgs_refuses)
          | ok args =>
            refine ⟨tool, hmem, htool, args, actionArgs_ok.1 hargs, rejectExtraArgs_typeError.1 ?_⟩
            cases hextra : rejectExtraArgs tool args with
            | error raised =>
              rw [hargs] at h
              change (rejectExtraArgs tool args >>= fun _ => toolAction tool args) = _ at h
              rw [hextra] at h
              cases h
              rfl
            | ok u =>
              rw [hargs] at h
              change (rejectExtraArgs tool args >>= fun _ => toolAction tool args) = _ at h
              rw [hextra] at h
              exact absurd h (hno toolAction_refuses)
        · simp only [parse, htool, if_neg hfinish, if_pos hmem] at h
          cases h
    | _ =>
      simp only [parse, htool] at h
      cases h
  · intro h
    obtain ⟨tool, hmem, htool, args, hargs, hsort⟩ := h
    rw [parse_tool htool hmem, actionArgs_ok.2 hargs]
    change (rejectExtraArgs tool args >>= fun _ => toolAction tool args) = _
    rw [rejectExtraArgs_typeError.2 hsort]
    rfl

/-- What is to hold of a mapping: an action comes of the grammar alone and is the mapping's own, one comes of all of the
grammar, and what is raised is an ActionParseError. -/
structure Exact (payload : Mapping) : Prop where
  sound : ∀ action, parse (.mapping payload) = .ok action → Grammatical payload ∧ Of payload action
  complete : Grammatical payload → ∃ action, parse (.mapping payload) = .ok action
  refuses : Refuses (parse (.mapping payload))

theorem Overfull.not_exact (h : Overfull payload) : ¬ Exact payload := by
  obtain ⟨htool, args, hargs, ⟨summary, hsummary, hblank⟩, entry, hentry, hother⟩ := h
  intro hexact
  have hok : parse (.mapping payload) = .ok (.finish summary) :=
    parse_ok_iff.2 ⟨⟨htool, args, hargs, carries_one hsummary rfl⟩, hblank, fun hne => absurd rfl hne⟩
  obtain ⟨action, ⟨haction, _⟩, _, hdeclared⟩ := grammatical_iff.1 (hexact.sound _ hok).1
  have hfinish : action.tool = "finish" := Value.str.inj (haction.symm.trans htool)
  have hrule : ruleOf action = ruleOf (.finish summary) :=
    grammar_unique ruleOf_mem ruleOf_mem (by rw [ruleOf_tool, hfinish]; rfl)
  obtain ⟨field, hfield, hkey⟩ := hdeclared args hargs entry hentry
  rw [hrule] at hfield
  exact hother (hkey.trans (congrArg _ (List.mem_singleton.1 hfield)))

theorem Unsortable.not_exact (h : Unsortable payload) : ¬ Exact payload := by
  intro hexact
  obtain ⟨_, hne⟩ := hexact.refuses _ (parse_typeError.2 h)
  cases hne

/-- An accepted mapping is of the grammar unless it ends the run with further arguments. -/
theorem grammatical_of_ok (h : parse (.mapping payload) = .ok action) (hnot : ¬ Overfull payload) :
    Grammatical payload := by
  obtain ⟨hof, hproper, hdeclared⟩ := parse_ok_iff.1 h
  refine grammatical_iff.2 ⟨action, hof, hproper, fun args hargs => ?_⟩
  by_cases hfinish : action.tool = "finish"
  · obtain ⟨htool, other, hother, hcarries⟩ := hof
    obtain rfl : other = args := Value.mapping.inj (hother.symm.trans hargs)
    cases action with
    | finish summary =>
      intro entry hentry
      refine ⟨"summary", List.mem_singleton_self _, ?_⟩
      by_contra hkey
      exact hnot ⟨htool, other, hargs, ⟨summary, hcarries _ List.mem_cons_self, hproper⟩, entry, hentry, hkey⟩
    | _ => simp [PlannerAction.tool, ResearchTool.value] at hfinish
  · exact hdeclared hfinish args hargs

/-- The mapping of an action. -/
def proposal (action : PlannerAction) : Mapping :=
  [(.text "tool", .str action.tool), (.text "args", .mapping ((arguments action).map fun f => (.text f.1, f.2)))]

theorem parse_proposal (h : Proper action) : parse (.mapping (proposal action)) = .ok action := by
  have hargs : Mapping.get (proposal action) "args" = .mapping ((arguments action).map fun f => (.text f.1, f.2)) := rfl
  refine parse_ok_iff.2 ⟨⟨rfl, _, hargs, ?_⟩, h, fun _ args heq => ?_⟩
  · cases action <;> simp [Carries, arguments, Mapping.get]
  · obtain rfl := Value.mapping.inj (hargs.symm.trans heq)
    cases action <;> simp [Rule.Declared, arguments, ruleOf]

/-- **Exactly its grammar, but for two kinds of mappings**: a `finish` with further arguments, and names that do not
belong to the tool and cannot be sorted. Every action that meets the rules of its fields has a mapping, and no
other. -/
theorem parse_grammar_iff (payload : Mapping) (action : PlannerAction) :
    (Exact payload ↔ ¬ (Overfull payload ∨ Unsortable payload)) ∧
      ((∃ source, parse (.mapping source) = .ok action) ↔ Proper action) := by
  refine ⟨⟨fun hexact => ?_, fun hnot => ?_⟩, fun h => ?_, fun h => ?_⟩
  · intro h
    rcases h with h | h
    · exact h.not_exact hexact
    · exact h.not_exact hexact
  · have hoverfull : ¬ Overfull payload := fun h => hnot (.inl h)
    refine ⟨fun _ h => ⟨grammatical_of_ok h hoverfull, (parse_ok_iff.1 h).1⟩, fun h => ?_, fun e h => ?_⟩
    · obtain ⟨action, hof, hproper, hdeclared⟩ := grammatical_iff.1 h
      exact ⟨action, parse_ok_iff.2 ⟨hof, hproper, fun _ => hdeclared⟩⟩
    · cases e with
      | parseError refusal => exact ⟨refusal, rfl⟩
      | typeError => exact absurd (.inr (parse_typeError.1 h)) hnot
  · obtain ⟨source, h⟩ := h
    exact (parse_ok_iff.1 h).2.1
  · exact ⟨_, parse_proposal h⟩

/-- A run ended with a second argument is accepted, and two names of two kinds raise a TypeError. -/
theorem finish_with_more :
    ¬ Exact [(.text "tool", .str "finish"),
        (.text "args", .mapping [(.text "summary", .str "done"), (.text "evidence_id", .str "e1")])] ∧
      ¬ Exact [(.text "tool", .str "web.search"),
        (.text "args", .mapping [(.text "query", .str "q"), (.none, .null), (.text "top_k", .int 3)])] := by
  refine ⟨Overfull.not_exact ?_, Unsortable.not_exact ?_⟩
  · exact ⟨rfl, _, rfl, ⟨"done", rfl, by decide⟩, _, List.mem_cons_of_mem _ List.mem_cons_self, by simp⟩
  · exact ⟨"web.search", List.mem_cons_self, rfl, _, rfl, by decide⟩

end

/-! ## JSON values -/

mutual
/-- A JSON value: its mappings have text keys. -/
def ofJson : Json → Value
  | .null => .null
  | .bool b => .bool b
  | .int n => .int n
  | .float q => .float q
  | .str s => .str s
  | .arr xs => .list (ofItems xs)
  | .obj d => .mapping (ofDict d)

def ofItems : List Json → List Value
  | [] => []
  | x :: xs => ofJson x :: ofItems xs

def ofDict : List (String × Json) → Mapping
  | [] => []
  | (k, v) :: d => (.text k, ofJson v) :: ofDict d
end

theorem get_ofDict (d : Dict) (name : String) : Mapping.get (ofDict d) name = ofJson (d.get name) := by
  unfold Mapping.get Dict.get
  induction d with
  | nil => rfl
  | cons entry d ih =>
    obtain ⟨k, v⟩ := entry
    by_cases hk : k = name
    · simp [ofDict, hk]
    · simpa [ofDict, hk] using ih

theorem keys_ofDict (d : Dict) : (ofDict d).map (·.1) = d.map fun entry => Key.text entry.1 := by
  induction d with
  | nil => rfl
  | cons entry d ih => simpa [ofDict] using ih

section

variable {α β : Type}

/-- The two come to the same values. -/
def Agree (x : Except ParseRaise α) (y : Except ActionParseError α) : Prop := ∀ a, x = .ok a ↔ y = .ok a

theorem Agree.bind {x : Except ParseRaise α} {y : Except ActionParseError α} {f : α → Except ParseRaise β}
    {g : α → Except ActionParseError β} (h : Agree x y) (hfg : ∀ a, Agree (f a) (g a)) : Agree (x >>= f) (y >>= g) := by
  intro b
  rw [Except.bind_ok_iff, Except.bind_ok_iff]
  exact exists_congr fun a => and_congr (h a) (hfg a b)

theorem agree_pure (a : α) : Agree (pure a) (pure a) := fun _ => ⟨fun h => by cases h; rfl, fun h => by cases h; rfl⟩

theorem agree_throw (e : ParseRaise) (e' : ActionParseError) : Agree (.error e : Except _ α) (.error e') :=
  fun _ => ⟨nofun, nofun⟩

end

theorem agree_stringArg (args : Dict) (name : String) :
    Agree (stringArg (ofDict args) name) (MilpbookLM.stringArg args name) := by
  unfold stringArg MilpbookLM.stringArg
  rw [get_ofDict]
  cases args.get name <;> simp only [ofJson, Json.str?] <;> first | exact agree_throw _ _ | skip
  split
  · exact agree_throw _ _
  · exact agree_pure _

theorem agree_optionalArg (args : Dict) (name : String) (refusal : Refusal) (e : ActionParseError) :
    Agree (optionalArg (ofDict args) name refusal) (optionalStringArg args name e) := by
  unfold optionalArg optionalStringArg
  rw [get_ofDict]
  cases args.get name with
  | null => exact agree_pure _
  | str value => exact agree_pure _
  | _ => exact agree_throw _ _

theorem agree_actionArgs {α : Type} {payload : Dict} {f : Mapping → Except ParseRaise α}
    {g : Dict → Except ActionParseError α} (h : ∀ args, Agree (f (ofDict args)) (g args)) :
    Agree (actionArgs (ofDict payload) >>= f) (MilpbookLM.actionArgs payload >>= g) := by
  unfold actionArgs MilpbookLM.actionArgs
  rw [get_ofDict]
  cases payload.get "args" with
  | obj args => exact h args
  | _ => exact agree_throw _ _

theorem agree_rejectExtraArgs (tool : String) (args : Dict) :
    Agree (rejectExtraArgs tool (ofDict args)) (MilpbookLM.rejectExtraArgs tool args) := by
  have hnil : extraArgs tool (ofDict args) = [] ↔ (args.map (·.1)).filter (· ∉ toolFields tool) = [] := by
    rw [extraArgs, keys_ofDict]
    simp only [List.filter_eq_nil_iff, List.mem_map, decide_eq_true_eq, not_not]
    constructor
    · intro h name hname
      obtain ⟨entry, hentry, rfl⟩ := hname
      obtain ⟨field, hfield, heq⟩ := h _ ⟨entry, hentry, rfl⟩
      exact Key.text.inj heq ▸ hfield
    · intro h key hkey
      obtain ⟨entry, hentry, rfl⟩ := hkey
      exact ⟨entry.1, h _ ⟨entry, hentry, rfl⟩, rfl⟩
  simp only [rejectExtraArgs, MilpbookLM.rejectExtraArgs]
  by_cases hextra : extraArgs tool (ofDict args) = []
  · rw [if_pos hextra, if_neg (not_not.2 (hnil.1 hextra))]
    exact agree_pure _
  · rw [if_neg hextra, if_pos (fun h => hextra (hnil.2 h))]
    split <;> exact agree_throw _ _

/-- **The executor's parser is this one** on JSON values. -/
theorem parse_ofJson (payload : Json) : Agree (parse (ofJson payload)) (parseAction payload) := by
  have hstring {args : Dict} {name : String} {f : String → PlannerAction} :
      Agree (do return f (← stringArg (ofDict args) name)) (do return f (← MilpbookLM.stringArg args name)) :=
    (agree_stringArg args name).bind fun _ => agree_pure _
  cases payload with
  | obj d =>
    simp only [parse, parseAction, ofJson, Json.dict?, get_ofDict]
    cases Dict.get d "tool" with
    | str tool =>
      simp only [ofJson]
      by_cases hfinish : tool = "finish"
      · rw [if_pos hfinish, if_pos hfinish]
        exact agree_actionArgs fun args => hstring
      rw [if_neg hfinish, if_neg hfinish]
      by_cases hmem : tool ∉ researchToolSurface
      · rw [if_pos hmem, if_pos hmem]
        exact agree_throw _ _
      rw [if_neg hmem, if_neg hmem]
      refine agree_actionArgs fun args => (agree_rejectExtraArgs tool args).bind fun _ => ?_
      unfold toolAction
      by_cases h : tool = ResearchTool.webSearch.value
      · rw [if_pos h, if_pos h]
        exact hstring
      rw [if_neg h, if_neg h]
      by_cases h : tool = ResearchTool.webFetch.value
      · rw [if_pos h, if_pos h]
        exact hstring
      rw [if_neg h, if_neg h]
      by_cases h : tool = ResearchTool.browserOpen.value
      · rw [if_pos h, if_pos h]
        exact hstring
      rw [if_neg h, if_neg h]
      by_cases h : tool = ResearchTool.browserObserve.value
      · rw [if_pos h, if_pos h]
        exact (agree_optionalArg args "focus" _ _).bind fun _ => agree_pure _
      rw [if_neg h, if_neg h]
      by_cases h : tool = ResearchTool.browserInteract.value
      · rw [if_pos h, if_pos h]
        refine (agree_stringArg args "gesture").bind fun gesture => ?_
        by_cases hknown : gesture ∉ browserGestures
        · rw [if_pos hknown, if_pos hknown]
          exact agree_throw _ _
        rw [if_neg hknown, if_neg hknown]
        refine (agree_optionalArg args "value" _ _).bind fun value => ?_
        exact (agree_stringArg args "selector").bind fun _ => agree_pure _
      rw [if_neg h, if_neg h]
      by_cases h : tool = ResearchTool.sourceImport.value
      · rw [if_pos h, if_pos h]
        refine (agree_stringArg args "evidence_id").bind fun _ => ?_
        exact (agree_stringArg args "title").bind fun _ => agree_pure _
      rw [if_neg h, if_neg h]
      by_cases h : tool = ResearchTool.notebookRetrieve.value
      · rw [if_pos h, if_pos h]
        exact hstring
      rw [if_neg h, if_neg h]
      exact agree_throw _ _
    | _ => exact agree_throw _ _
  | _ => exact agree_throw _ _

end MilpbookLM.ActionGrammar
