/-
The planner of source discovery. What it fetches it reads out of the text of a search turn, line by line. Its
proposal is parsed, and a fetch is of the URL of a hit, exactly where the goal that is searched for is not blank and
every marked text up to the first one with an http URL has a word, that one's being the URL of a hit
(`discovery_survives_iff`). So it is where no URL of a hit has a space and no title a line break (`plain_survives`).
-/
import Mathlib.Data.List.TakeWhile
import MilpbookLM.Research.ActionGrammar
import MilpbookLM.Research.Automation

namespace MilpbookLM.Discovery

open Interleave Prog ResearchRunExecutor

/-! ## Texts -/

/-- What `str.splitlines` breaks at. -/
def isLineBreak (c : Char) : Bool :=
  let n := c.toNat
  10 ≤ n && n ≤ 13 || 28 ≤ n && n ≤ 30 || n = 0x85 || n = 0x2028 || n = 0x2029

/-- The lines after the line begun, which is kept backwards. -/
def linesFrom : Text → Text → List Text
  | line, [] => if line = [] then [] else [line.reverse]
  | line, '\r' :: '\n' :: t => line.reverse :: linesFrom [] t
  | line, c :: t => if isLineBreak c then line.reverse :: linesFrom [] t else linesFrom (c :: line) t

/-- `text.splitlines()`. -/
def splitlines (t : Text) : List Text := linesFrom [] t

/-- What follows the first `marker`. -/
def afterMarker (marker : Text) : Text → Option Text
  | [] => if marker = [] then some [] else none
  | c :: t => if marker.isPrefixOf (c :: t) then some ((c :: t).drop marker.length) else afterMarker marker t

/-- `text.strip().split()[0]`; none where there is no word. -/
def firstWord (t : Text) : Option Text :=
  match (t.dropWhile isSpace).takeWhile fun c => !isSpace c with
  | [] => none
  | word => some word

/-- `candidate.startswith(("http://", "https://"))`. -/
def isHttp (candidate : Text) : Bool := "http://".toList.isPrefixOf candidate || "https://".toList.isPrefixOf candidate

/-! ## The planner -/

inductive PlannerRaise
  | indexError

/-- The loop of `_fetchable_url`. -/
def firstUrl : List Text → Except PlannerRaise (Option Text)
  | [] => pure none
  | line :: lines =>
    match afterMarker "url=".toList line with
    | none => firstUrl lines
    | some rest =>
      match firstWord rest with
      | none => throw .indexError
      | some candidate => if isHttp candidate then pure (some candidate) else firstUrl lines

/-- A search that went well. -/
def isSearch (turn : ToolTurn) : Bool := turn.tool = ResearchTool.webSearch.value && turn.ok

/-- `_fetchable_url`. -/
def fetchableUrl (turn : ToolTurn) : Except PlannerRaise (Option Text) :=
  if isSearch turn then firstUrl (splitlines turn.summary.toList) else pure none

/-- The first URL of the turns, which are given the last one first. -/
def nextUrl : List ToolTurn → Except PlannerRaise (Option Text)
  | [] => pure none
  | turn :: turns => do
    match ← fetchableUrl turn with
    | some url => pure (some url)
    | none => nextUrl turns

/-- `_fetched_evidence`. -/
def fetchedEvidence (turns : List ToolTurn) : Option String :=
  turns.reverse.findSome? fun turn =>
    if turn.tool = ResearchTool.webFetch.value && turn.ok then turn.evidenceId.filter (· ≠ "") else none

/-- A proposal. -/
def propose (tool : String) (args : Dict) : Json := .obj [("tool", .str tool), ("args", .obj args)]

/-- `SourceDiscoveryPlanner.next_action`. -/
def nextAction (context : PlannerContext) : Except PlannerRaise Json := do
  let searched := context.turns.any (·.tool = ResearchTool.webSearch.value)
  if !searched then return propose ResearchTool.webSearch.value [("query", .str context.goal)]
  match fetchedEvidence context.turns with
  | none =>
    match ← nextUrl context.turns.reverse with
    | none => return propose "finish" [("summary", .str "no fetchable discovery result; stopping")]
    | some url => return propose ResearchTool.webFetch.value [("url", .str (String.ofList url))]
  | some fetchedId =>
    if ResearchTool.sourceImport.value ∉ context.tools then
      return propose "finish"
        [("summary", .str "web source retrieved; source.import tool not available in this run; finishing")]
    let imported := context.turns.any (·.tool = ResearchTool.sourceImport.value)
    if !imported then
      return propose ResearchTool.sourceImport.value
        [ ("evidence_id", .str fetchedId)
        , ("title", .str ("Research import: " ++ String.ofList (context.goal.toList.take 120))) ]
    return propose "finish"
      [("summary", .str "source_discovery complete: one curated result imported through normal ingestion")]

/-! ## Histories -/

/-- The summary of a search. -/
def renderHits (hits : List SearchHit) : String :=
  "\n".intercalate (hits.map fun hit => "url=" ++ hit.url ++ " title=" ++ hit.title)

/-- A step of a run, with the hits where it is of a search that went well. -/
structure DiscoveryRecord where
  step : ResearchStep
  hits : List SearchHit
  told : step.toolName = some ResearchTool.webSearch.value → step.status = .succeeded →
    step.summary = some (renderHits hits)

/-- It is of a search that went well. -/
def DiscoveryRecord.Searched (r : DiscoveryRecord) : Prop :=
  r.step.toolName = some ResearchTool.webSearch.value ∧ r.step.status = .succeeded

/-- What the planner is given. -/
def contextOf (config : RunConfig) (history : List DiscoveryRecord) : PlannerContext :=
  plannerContext config (history.map (·.step))

/-- A search of the run reported the URL as that of a hit. -/
def Reported (history : List DiscoveryRecord) (url : String) : Prop :=
  ∃ r ∈ history, r.Searched ∧ ∃ hit ∈ r.hits, hit.url = url

/-- A proposal is made and parsed, and what it fetches was reported. -/
def Survives (config : RunConfig) (history : List DiscoveryRecord) : Prop :=
  ∃ payload action, nextAction (contextOf config history) = .ok payload ∧ parseAction payload = .ok action ∧
    ∀ url, action = .fetch url → Reported history url

/-! ## The condition -/

/-- What follows the marker on the lines of a search turn that have it. -/
def markedTexts (turn : ToolTurn) : List Text :=
  if isSearch turn then (splitlines turn.summary.toList).filterMap (afterMarker "url=".toList) else []

/-- Those of all turns, of the last one first. -/
def marked (history : List DiscoveryRecord) : List Text :=
  (turnsFrom (history.map (·.step))).reverse.flatMap markedTexts

/-- The text begins with an http URL. -/
def BeginsHttp (t : Text) : Prop := ∃ word, firstWord t = some word ∧ isHttp word = true

/-- **Every marked text up to the first one with an http URL has a word, and that one's is the URL of a hit.** -/
def Readable (history : List DiscoveryRecord) : Prop :=
  ∀ before t after, marked history = before ++ t :: after → (∀ b ∈ before, ¬ BeginsHttp b) →
    ∃ word, firstWord t = some word ∧ (isHttp word = true → Reported history (String.ofList word))

/-- There is a turn of a search. -/
def Sought (history : List DiscoveryRecord) : Prop :=
  ∃ r ∈ history, r.step.toolName = some ResearchTool.webSearch.value

/-- No fetch has left evidence. -/
def Unfetched (history : List DiscoveryRecord) : Prop := fetchedEvidence (turnsFrom (history.map (·.step))) = none

/-! ## Reading -/

/-- The first of the words that is an http URL. -/
def firstOf : List Text → Except PlannerRaise (Option Text)
  | [] => pure none
  | t :: ts =>
    match firstWord t with
    | none => throw .indexError
    | some candidate => if isHttp candidate then pure (some candidate) else firstOf ts

theorem firstUrl_eq (lines : List Text) : firstUrl lines = firstOf (lines.filterMap (afterMarker "url=".toList)) := by
  induction lines with
  | nil => rfl
  | cons line lines ih =>
    simp only [firstUrl]
    cases hmark : afterMarker "url=".toList line with
    | none => rw [List.filterMap_cons_none hmark, ih]
    | some rest =>
      rw [List.filterMap_cons_some hmark]
      simp only [firstOf, ih]

theorem firstOf_append (ts us : List Text) : firstOf (ts ++ us) = (do
    match ← firstOf ts with
    | some url => pure (some url)
    | none => firstOf us) := by
  induction ts with
  | nil => rfl
  | cons t ts ih =>
    simp only [List.cons_append, firstOf]
    cases firstWord t with
    | none => rfl
    | some word =>
      by_cases hhttp : isHttp word = true
      · simp only [hhttp, if_true]
        rfl
      · simp only [hhttp]
        exact ih

theorem nextUrl_eq (turns : List ToolTurn) : nextUrl turns = firstOf (turns.flatMap markedTexts) := by
  induction turns with
  | nil => rfl
  | cons turn turns ih =>
    have hturn : fetchableUrl turn = firstOf (markedTexts turn) := by
      simp only [fetchableUrl, markedTexts]
      split
      · exact firstUrl_eq _
      · rfl
    rw [List.flatMap_cons, firstOf_append, nextUrl, hturn, ih]

/-- What the reading comes to, by the texts. -/
theorem firstOf_ok_iff {P : Text → Prop} (ts : List Text) :
    (∃ url, firstOf ts = .ok url ∧ ∀ word, url = some word → P word) ↔
      ∀ before t after, ts = before ++ t :: after → (∀ b ∈ before, ¬ BeginsHttp b) →
        ∃ word, firstWord t = some word ∧ (isHttp word = true → P word) := by
  induction ts with
  | nil => exact ⟨fun _ before t after h => by simp at h, fun _ => ⟨none, rfl, fun _ h => by cases h⟩⟩
  | cons t ts ih =>
    constructor
    · intro h before s after heq hbefore
      obtain ⟨url, hurl, hP⟩ := h
      simp only [firstOf] at hurl
      cases hword : firstWord t with
      | none =>
        rw [hword] at hurl
        cases hurl
      | some word =>
        simp only [hword] at hurl
        cases before with
        | nil =>
          obtain ⟨rfl, -⟩ := List.cons.inj heq
          refine ⟨word, hword, fun hhttp => ?_⟩
          rw [if_pos hhttp] at hurl
          exact hP word (Except.ok.inj hurl).symm
        | cons b before =>
          obtain ⟨rfl, htail⟩ := List.cons.inj (heq.trans (List.cons_append ..))
          have hnot : ¬ isHttp word = true := fun hhttp => hbefore t List.mem_cons_self ⟨word, hword, hhttp⟩
          rw [if_neg hnot] at hurl
          exact ih.1 ⟨url, hurl, hP⟩ before s after htail fun b hb => hbefore b (List.mem_cons_of_mem _ hb)
    · intro h
      obtain ⟨word, hword, hP⟩ := h [] t ts rfl fun _ hb => nomatch hb
      simp only [firstOf, hword]
      by_cases hhttp : isHttp word = true
      · rw [if_pos hhttp]
        exact ⟨some word, rfl, fun other heq => by cases heq; exact hP hhttp⟩
      · rw [if_neg hhttp]
        refine ih.2 fun before s after heq hbefore => h (t :: before) s after (congrArg (t :: ·) heq) fun b hb => ?_
        rcases List.mem_cons.1 hb with rfl | hb
        · intro hbegins
          obtain ⟨other, hother, hhttp'⟩ := hbegins
          rw [hword] at hother
          cases hother
          exact hhttp hhttp'
        · exact hbefore b hb

theorem firstWord_inked {t word : Text} (h : firstWord t = some word) : isBlank word = false := by
  have hword : word ≠ [] ∧ word = (t.dropWhile isSpace).takeWhile fun c => !isSpace c := by
    simp only [firstWord] at h
    split at h
    · cases h
    · next hne =>
      cases h
      exact ⟨hne, rfl⟩
  obtain ⟨c, rest, rfl⟩ := List.exists_cons_of_ne_nil hword.1
  have hc : isSpace c = false := by
    have hmem : c ∈ (t.dropWhile isSpace).takeWhile fun c => !isSpace c := hword.2 ▸ List.mem_cons_self
    simpa using List.mem_takeWhile_imp hmem
  simp [isBlank, hc]

/-- The URL that is read is a word. -/
theorem firstOf_word {ts : List Text} {word : Text} (h : firstOf ts = .ok (some word)) : isBlank word = false := by
  induction ts with
  | nil => cases h
  | cons t ts ih =>
    simp only [firstOf] at h
    cases hword : firstWord t with
    | none =>
      rw [hword] at h
      cases h
    | some candidate =>
      simp only [hword] at h
      split at h
      · cases h
        exact firstWord_inked hword
      · exact ih h

/-! ## The proposals -/

open ActionGrammar in
/-- A proposal of an action's fields is parsed to it. -/
theorem parse_of {payload : Json} {action : PlannerAction} (hof : ofJson payload = .mapping (proposal action))
    (hproper : Proper action) : parseAction payload = .ok action :=
  (parse_ofJson payload action).1 (hof ▸ parse_proposal hproper)

theorem parse_finished {summary : String} (h : isBlank summary.toList = false) :
    parseAction (propose "finish" [("summary", .str summary)]) = .ok (.finish summary) :=
  parse_of rfl h

open ActionGrammar in
/-- A search is parsed only for a goal that is not blank. -/
theorem search_inked {goal : String} {action : PlannerAction}
    (h : parseAction (propose ResearchTool.webSearch.value [("query", .str goal)]) = .ok action) :
    isBlank goal.toList = false := by
  have hparse := (parse_ofJson _ action).2 h
  rw [show ofJson (propose ResearchTool.webSearch.value [("query", .str goal)]) = .mapping (proposal (.search goal))
    from rfl] at hparse
  obtain ⟨⟨htool, args, hargs, hcarries⟩, hproper, -⟩ := parse_ok_iff.1 hparse
  have htool : PlannerAction.tool (.search goal) = action.tool := Value.str.inj htool
  obtain rfl := Value.mapping.inj hargs
  cases action with
  | search query =>
    obtain rfl : goal = query := Value.str.inj (hcarries ("query", .str query) List.mem_cons_self)
    exact hproper
  | _ => simp [PlannerAction.tool, ResearchTool.value] at htool

theorem inked_of_mem {t : Text} {c : Char} (hc : c ∈ t) (hspace : isSpace c = false) : isBlank t = false := by
  refine Bool.eq_false_iff.2 fun h => ?_
  rw [isBlank, List.all_eq_true] at h
  rw [h c hc] at hspace
  cases hspace

theorem str_inked (u : Uuid) : isBlank u.str.toList = false :=
  inked_of_mem (c := '-') (by simp [Uuid.str, Uuid.dashed]) (by decide)

/-- The turn of a step. -/
structure TurnOf (step : ResearchStep) (turn : ToolTurn) : Prop where
  tool : step.toolName = some turn.tool
  ok : turn.ok = decide (step.status = .succeeded)
  summary : turn.summary = step.summary.getD ""
  evidenceId : turn.evidenceId = step.evidenceId.map Uuid.str

theorem mem_turnsFrom {steps : List ResearchStep} {turn : ToolTurn} (h : turn ∈ turnsFrom steps) :
    ∃ step ∈ steps, TurnOf step turn := by
  obtain ⟨step, hstep, hturn⟩ := List.mem_filterMap.1 h
  obtain ⟨tool, htool, rfl⟩ := Option.map_eq_some_iff.1 hturn
  exact ⟨step, hstep, htool, rfl, rfl, rfl⟩

theorem fetchedEvidence_inked {steps : List ResearchStep} {id : String}
    (h : fetchedEvidence (turnsFrom steps) = some id) : isBlank id.toList = false := by
  obtain ⟨turn, hturn, hid⟩ := List.exists_of_findSome?_eq_some h
  split at hid
  · obtain ⟨step, -, hof⟩ := mem_turnsFrom (List.mem_reverse.1 hturn)
    obtain ⟨hid, -⟩ := Option.filter_eq_some_iff.1 hid
    rw [hof.evidenceId] at hid
    obtain ⟨u, -, rfl⟩ := Option.map_eq_some_iff.1 hid
    exact str_inked u
  · cases hid

section

variable {config : RunConfig} {history : List DiscoveryRecord}

theorem sought_iff : ((contextOf config history).turns.any (·.tool = ResearchTool.webSearch.value)) = true ↔
    Sought history := by
  simp only [contextOf, plannerContext, List.any_eq_true, decide_eq_true_eq]
  constructor
  · intro h
    obtain ⟨turn, hturn, htool⟩ := h
    obtain ⟨step, hstep, hof⟩ := mem_turnsFrom hturn
    obtain ⟨r, hr, rfl⟩ := List.mem_map.1 hstep
    exact ⟨r, hr, htool ▸ hof.tool⟩
  · intro h
    obtain ⟨r, hr, hname⟩ := h
    exact ⟨_, List.mem_filterMap.2 ⟨_, List.mem_map_of_mem hr, by rw [hname]; rfl⟩, rfl⟩

/-- Before a search, the goal is searched for. -/
theorem survives_unsought (h : ¬ Sought history) : Survives config history ↔ isBlank config.goal.toList = false := by
  have hnext : nextAction (contextOf config history) =
      .ok (propose ResearchTool.webSearch.value [("query", .str config.goal)]) := by
    rw [← @sought_iff config history, Bool.not_eq_true] at h
    simp only [nextAction, h]
    rfl
  constructor
  · intro hsurvives
    obtain ⟨payload, action, hpayload, haction, -⟩ := hsurvives
    rw [hnext] at hpayload
    obtain rfl := Except.ok.inj hpayload
    exact search_inked haction
  · intro hinked
    exact ⟨_, .search config.goal, hnext, parse_of rfl hinked, fun _ heq => by cases heq⟩

/-- What is fetched is the first URL that is read. -/
theorem nextAction_unfetched (h : Sought history) (hun : Unfetched history) :
    nextAction (contextOf config history) = (do
      match ← firstOf (marked history) with
      | none => return propose "finish" [("summary", .str "no fetchable discovery result; stopping")]
      | some url => return propose ResearchTool.webFetch.value [("url", .str (String.ofList url))]) := by
  have hany := (@sought_iff config history).2 h
  have hnone : fetchedEvidence (contextOf config history).turns = none := hun
  simp only [nextAction, hany, Bool.not_true, Bool.false_eq_true, if_false, hnone, nextUrl_eq]
  rfl

theorem fetch_only {url : Text} {action : PlannerAction} (hinked : isBlank url = false)
    (h : parseAction (propose ResearchTool.webFetch.value [("url", .str (String.ofList url))]) = .ok action) :
    action = .fetch (String.ofList url) := by
  have hparse : parseAction (propose ResearchTool.webFetch.value [("url", .str (String.ofList url))]) =
      .ok (.fetch (String.ofList url)) := parse_of rfl (by simpa [ActionGrammar.Proper] using hinked)
  exact Except.ok.inj (h.symm.trans hparse)

/-- Between a search and a fetch, the marked texts are read. -/
theorem survives_unfetched (h : Sought history) (hun : Unfetched history) :
    Survives config history ↔ Readable history := by
  rw [Readable, ← firstOf_ok_iff (P := fun word => Reported history (String.ofList word))]
  constructor
  · intro hsurvives
    obtain ⟨payload, action, hpayload, haction, hfetch⟩ := hsurvives
    rw [nextAction_unfetched h hun] at hpayload
    cases hurl : firstOf (marked history) with
    | error e =>
      rw [hurl] at hpayload
      cases hpayload
    | ok url =>
      refine ⟨url, rfl, fun word hword => ?_⟩
      subst hword
      rw [hurl] at hpayload
      obtain rfl := Except.ok.inj hpayload
      exact hfetch _ (fetch_only (firstOf_word hurl) haction)
  · intro hread
    obtain ⟨url, hurl, hreported⟩ := hread
    rw [Survives, nextAction_unfetched h hun, hurl]
    cases url with
    | none => exact ⟨_, .finish _, rfl, parse_finished (by decide), fun _ heq => by cases heq⟩
    | some url =>
      refine ⟨_, .fetch (String.ofList url), rfl, parse_of rfl ?_, fun other heq => ?_⟩
      · simpa [ActionGrammar.Proper] using firstOf_word hurl
      · cases heq
        exact hreported url rfl

/-- Once a fetch left evidence, the run imports it or finishes. -/
theorem survives_fetched (h : Sought history) (hfetched : ¬ Unfetched history) : Survives config history := by
  have hany := (@sought_iff config history).2 h
  obtain ⟨id, hid⟩ := Option.ne_none_iff_exists'.1 hfetched
  have hinked := fetchedEvidence_inked hid
  have hsome : fetchedEvidence (contextOf config history).turns = some id := hid
  simp only [Survives, nextAction, hany, Bool.not_true, Bool.false_eq_true, if_false, hsome]
  split
  · exact ⟨_, .finish _, rfl, parse_finished (by decide), fun _ heq => by cases heq⟩
  · split
    · refine ⟨_, .sourceImport id _, rfl, parse_of rfl ⟨hinked, ?_⟩, fun _ heq => by cases heq⟩
      exact inked_of_mem (c := 'R') (by simp) (by decide)
    · exact ⟨_, .finish _, rfl, parse_finished (by decide), fun _ heq => by cases heq⟩

theorem survives_of (hgoal : ¬ Sought history → isBlank config.goal.toList = false)
    (hread : Sought history → Unfetched history → Readable history) : Survives config history := by
  by_cases h : Sought history
  · by_cases hun : Unfetched history
    · exact (survives_unfetched h hun).2 (hread h hun)
    · exact survives_fetched h hun
  · exact (survives_unsought h).2 (hgoal h)

end

/-- **The planner survives its history** exactly where the goal that is searched for is not blank, and what is read out
of the searches, before a fetch, is readable. -/
theorem discovery_survives_iff (config : RunConfig) (history : List DiscoveryRecord) :
    Survives config history ↔ (¬ Sought history → isBlank config.goal.toList = false) ∧
      (Sought history → Unfetched history → Readable history) := by
  refine ⟨fun h => ⟨fun hno => (survives_unsought hno).1 h, fun hs hun => (survives_unfetched hs hun).1 h⟩, fun h => ?_⟩
  exact survives_of h.1 h.2

/-! ## Plain hits -/

/-- A hit whose URL is one word, and whose title is on one line. -/
structure Plain (hit : SearchHit) : Prop where
  word : hit.url ≠ ""
  spaces : ∀ c ∈ hit.url.toList, isSpace c = false
  breaks : ∀ c ∈ hit.title.toList, isLineBreak c = false

theorem isSpace_of_isLineBreak {c : Char} (h : isLineBreak c = true) : isSpace c = true := by
  simp only [isLineBreak, isSpace, Bool.or_eq_true, Bool.and_eq_true, decide_eq_true_eq] at h ⊢
  omega

theorem linesFrom_break {line acc t : Text} (h : ∀ c ∈ line, isLineBreak c = false) :
    linesFrom acc (line ++ '\n' :: t) = (acc.reverse ++ line) :: linesFrom [] t := by
  induction line generalizing acc with
  | nil =>
    rw [List.nil_append, linesFrom, if_pos (by decide), List.append_nil]
    intro t' hc
    cases hc
  | cons c line ih =>
    have hc := h c List.mem_cons_self
    rw [List.cons_append, linesFrom, if_neg (by simp [hc]), ih fun c' hc' => h c' (List.mem_cons_of_mem _ hc')]
    · simp
    · intro t' hr
      rw [hr] at hc
      cases hc

theorem linesFrom_end {line acc : Text} (h : ∀ c ∈ line, isLineBreak c = false) (hne : acc ≠ [] ∨ line ≠ []) :
    linesFrom acc line = [acc.reverse ++ line] := by
  induction line generalizing acc with
  | nil => rw [linesFrom, if_neg (hne.resolve_right (by simp)), List.append_nil]
  | cons c line ih =>
    have hc := h c List.mem_cons_self
    rw [linesFrom, if_neg (by simp [hc]), ih (fun c' hc' => h c' (List.mem_cons_of_mem _ hc')) (.inl (by simp))]
    · simp
    · intro t' hr
      rw [hr] at hc
      cases hc

/-- The line of a hit. -/
def hitLine (hit : SearchHit) : Text := ("url=" ++ hit.url ++ " title=" ++ hit.title).toList

theorem Plain.line {hit : SearchHit} (h : Plain hit) : ∀ c ∈ hitLine hit, isLineBreak c = false := by
  intro c hc
  simp only [hitLine, String.toList_append, List.mem_append] at hc
  rcases hc with ((hc | hc) | hc) | hc
  · have hall : ("url=".toList.all fun c => !isLineBreak c) = true := rfl
    simpa using List.all_eq_true.1 hall c hc
  · refine Bool.eq_false_iff.2 fun hbreak => ?_
    have hspace := isSpace_of_isLineBreak hbreak
    rw [h.spaces c hc] at hspace
    cases hspace
  · have hall : (" title=".toList.all fun c => !isLineBreak c) = true := rfl
    simpa using List.all_eq_true.1 hall c hc
  · exact h.breaks c hc

/-- Plain hits have a line each. -/
theorem splitlines_renderHits {hits : List SearchHit} (h : ∀ hit ∈ hits, Plain hit) :
    splitlines (renderHits hits).toList = hits.map hitLine := by
  have hne (hit : SearchHit) : hitLine hit ≠ [] := by simp [hitLine]
  induction hits with
  | nil => rfl
  | cons hit hits ih =>
    have hline := (h hit List.mem_cons_self).line
    have ih := ih fun other hother => h other (List.mem_cons_of_mem _ hother)
    cases hits with
    | nil =>
      simp only [renderHits, List.map_cons, List.map_nil, String.intercalate_singleton]
      exact linesFrom_end hline (.inr (hne hit))
    | cons other hits =>
      have hcons : (renderHits (hit :: other :: hits)).toList =
          hitLine hit ++ '\n' :: (renderHits (other :: hits)).toList := by
        simp [renderHits, hitLine, String.intercalate_cons_cons]
      rw [hcons, List.map_cons, ← ih]
      exact linesFrom_break hline

theorem afterMarker_append {marker t : Text} (hne : marker ≠ []) : afterMarker marker (marker ++ t) = some t := by
  obtain ⟨c, rest, rfl⟩ := List.exists_cons_of_ne_nil hne
  have hprefix : ((c :: rest).isPrefixOf (c :: (rest ++ t))) = true := by
    rw [List.isPrefixOf_iff_prefix]
    exact List.prefix_append (c :: rest) t
  rw [List.cons_append, afterMarker, if_pos hprefix]
  simp

theorem firstWord_append {word t : Text} {c : Char} (hne : word ≠ []) (hspaces : ∀ c ∈ word, isSpace c = false)
    (hc : isSpace c = true) : firstWord (word ++ c :: t) = some word := by
  obtain ⟨first, rest, rfl⟩ := List.exists_cons_of_ne_nil hne
  have hdrop : ((first :: rest) ++ c :: t).dropWhile isSpace = (first :: rest) ++ c :: t := by
    simp [hspaces first List.mem_cons_self]
  have htake : ((first :: rest) ++ c :: t).takeWhile (fun c => !isSpace c) = first :: rest := by
    rw [List.takeWhile_append_of_pos fun c' hc' => by simp [hspaces c' hc'], List.takeWhile_cons_of_neg (by simp [hc]),
      List.append_nil]
  rw [firstWord, hdrop, htake]

/-- The text marked on the line of a plain hit begins with its URL. -/
theorem Plain.marked {hit : SearchHit} (h : Plain hit) : ∃ t, afterMarker "url=".toList (hitLine hit) = some t ∧
    firstWord t = some hit.url.toList := by
  have hline : hitLine hit = "url=".toList ++ (hit.url.toList ++ ' ' :: ("title=" ++ hit.title).toList) := by
    simp [hitLine]
  rw [hline]
  exact ⟨_, afterMarker_append (by decide), firstWord_append (by simpa using h.word) h.spaces (by decide)⟩

/-- **Plain hits are read as they are**: with a goal that is not blank, the planner survives them. -/
theorem plain_survives {config : RunConfig} {history : List DiscoveryRecord}
    (hgoal : isBlank config.goal.toList = false) (h : ∀ r ∈ history, r.Searched → ∀ hit ∈ r.hits, Plain hit) :
    Survives config history := by
  refine survives_of (fun _ => hgoal) fun _ _ before t after heq _ => ?_
  have ht : t ∈ marked history := by simp [heq]
  obtain ⟨turn, hturn, ht⟩ := List.mem_flatMap.1 ht
  obtain ⟨step, hstep, hof⟩ := mem_turnsFrom (List.mem_reverse.1 hturn)
  obtain ⟨r, hr, rfl⟩ := List.mem_map.1 hstep
  rw [markedTexts] at ht
  by_cases hsearch : isSearch turn = true
  · rw [if_pos hsearch] at ht
    simp only [isSearch, hof.ok, Bool.and_eq_true, decide_eq_true_eq] at hsearch
    have hsearched : r.Searched := ⟨hsearch.1 ▸ hof.tool, hsearch.2⟩
    rw [hof.summary, r.told hsearched.1 hsearched.2, Option.getD_some, splitlines_renderHits (h r hr hsearched)] at ht
    obtain ⟨line, hline, hmark⟩ := List.mem_filterMap.1 ht
    obtain ⟨hit, hhit, rfl⟩ := List.mem_map.1 hline
    obtain ⟨t', ht', hword⟩ := (h r hr hsearched hit hhit).marked
    obtain rfl := Option.some.inj (ht'.symm.trans hmark)
    exact ⟨_, hword, fun _ => ⟨r, hr, hsearched, hit, hhit, by simp⟩⟩
  · rw [if_neg hsearch] at ht
    cases ht

/-! ## What a title can do -/

/-- A search that found one hit. -/
def searchRecord (hit : SearchHit) : DiscoveryRecord where
  step :=
    { stepId := 1, runId := 2, stepNumber := 2, stepKind := "search", toolName := some ResearchTool.webSearch.value
      status := .succeeded, summary := some (renderHits [hit]), evidenceId := some 3 }
  hits := [hit]
  told := fun _ _ => rfl

/-- A title of two lines: what its second line marks is fetched. -/
def craftedHit : SearchHit where
  url := "ftp://rivers.org"
  title := "Rivers\nurl=https://elsewhere.org/"

def discoveryConfig : RunConfig where
  runId := 2
  notebookId := 4
  actorId := 5
  goal := "rivers"
  mode := .sourceDiscovery
  tools := [ResearchTool.webSearch.value, ResearchTool.webFetch.value]
  approvedTools := []
  budget := {}

theorem plain_hit_survives :
    Survives discoveryConfig [searchRecord { url := "https://rivers.org/", title := "Rivers" }] :=
  plain_survives (by decide) fun r hr _ hit hhit => by
    obtain rfl := List.mem_singleton.1 hr
    obtain rfl := List.mem_singleton.1 hhit
    exact ⟨by decide, by simp [isSpace], by simp [isLineBreak]⟩

/-- The fetched URL is out of a title, and was no hit's. -/
theorem fetched_from_title : ¬ ∀ (config : RunConfig) (history : List DiscoveryRecord),
    isBlank config.goal.toList = false → Survives config history := by
  intro h
  have hsurvives := h discoveryConfig [searchRecord craftedHit] (by decide)
  have hsought : Sought [searchRecord craftedHit] := ⟨_, List.mem_singleton_self _, rfl⟩
  have hmarked : marked [searchRecord craftedHit] =
      ["ftp://rivers.org title=Rivers".toList] ++ "https://elsewhere.org/".toList :: [] := by decide +kernel
  have hread := (survives_unfetched hsought rfl).1 hsurvives
  obtain ⟨word, hword, hreported⟩ := hread _ _ _ hmarked fun b hb hbegins => by
    obtain rfl := List.mem_singleton.1 hb
    obtain ⟨word, hword, hhttp⟩ := hbegins
    obtain rfl : "ftp://rivers.org".toList = word := Option.some.inj (Eq.trans (by decide +kernel) hword)
    exact absurd hhttp (by decide +kernel)
  obtain rfl : "https://elsewhere.org/".toList = word := Option.some.inj (Eq.trans (by decide +kernel) hword)
  obtain ⟨r, hr, -, hit, hhit, hurl⟩ := hreported (by decide +kernel)
  obtain rfl := List.mem_singleton.1 hr
  obtain rfl := List.mem_singleton.1 hhit
  exact absurd hurl (by decide +kernel)

/-! ## What the executor records -/

end MilpbookLM.Discovery
