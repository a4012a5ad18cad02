/-
A browser session: one worker process, a pipe of request lines to it and a pipe of answer
lines back. The worker handles each line on its own and answers when it is done; `_rpc`
writes a line and takes the next line that comes back, whatever request it answers. That
is the answer to the call as long as every call before it has read its own
(`answers_own_call`); a call that gives up leaves its answer to the next one.

The lines are modelled as what is in them: a request that was cut short by its deadline
runs together with the next one, and such a line is no JSON.
-/
import MilpbookLM.Base.Json
import MilpbookLM.Lib.Interleave

namespace MilpbookLM.Research

/-! ## The two ends of the pipes -/

/-- The refusal classes that a worker's failure is mapped to. -/
inductive BrowserErrorCode
  | unsupported | sandboxUnavailable | sandboxPostureViolated | navigationTimeout | downloadLimitExceeded
  | downloadRefused | gestureFailed | workerFailure
  deriving DecidableEq

/-- `_CODE_MAP`. -/
def codeMap : List (String × BrowserErrorCode) :=
  [("sandbox_posture_violated", .sandboxPostureViolated), ("playwright_unresolvable", .sandboxUnavailable),
    ("navigation_timeout", .navigationTimeout), ("download_limit_exceeded", .downloadLimitExceeded),
    ("download_refused", .downloadRefused), ("download_capture_failed", .downloadRefused),
    ("gesture_failed", .gestureFailed), ("invalid_selector", .gestureFailed), ("missing_value", .gestureFailed),
    ("unknown_gesture", .unsupported), ("worker_error", .workerFailure), ("protocol_error", .workerFailure),
    ("not_initialized", .workerFailure), ("worker_not_started", .workerFailure), ("unknown_op", .unsupported)]

inductive BrowserError
  | unavailable (code : BrowserErrorCode) (detail : String)
  /-- An answer without a field that the call reads. -/
  | keyError (key : String)

inductive BrowserOp
  | «open» (url : String)
  | observe (focus : Option String)
  | interact (gesture selector : String) (value : Option String)

def BrowserOp.name : BrowserOp → String
  | .open _ => "open"
  | .observe _ => "observe"
  | .interact .. => "interact"

/-- A request line. -/
structure BrowserRequest where
  id : Nat
  op : BrowserOp

/-- An answer line. -/
structure BrowserResponse where
  id : Int
  ok : Bool
  result : Json := .null
  code : Option String := none
  detail : Option String := none

/-- What a call returns. -/
inductive BrowserValue
  | page (url title textExcerpt : String) (httpStatus : Option Int)
  | observation (url title visibleTextExcerpt : String) (focusedExcerpt : Option String)

/-- `body[key]`. -/
def required (body : Dict) (key : String) : Except BrowserError Json :=
  match body.find? (·.1 == key) with
  | some (_, value) => .ok value
  | none => .error (.keyError key)

/-- What `open`, `observe` and `interact` make of the body of an answer. -/
def BrowserOp.value (op : BrowserOp) (body : Dict) : Except BrowserError BrowserValue := do
  match op with
  | .open _ =>
    return .page (← required body "url").text (← required body "title").text (← required body "textExcerpt").text
      (body.get "httpStatus").int?
  | .observe _ =>
    return .observation (← required body "url").text (← required body "title").text
      (← required body "visibleTextExcerpt").text
      (match body.get "focused" with
        | .null => none
        | focused => some focused.text)
  | .interact .. =>
    return .observation (← required body "url").text (← required body "title").text
      (← required body "visibleTextExcerpt").text none

/-- A line on its way to the worker. -/
inductive RequestLine
  | request (r : BrowserRequest)
  /-- One that was cut short, and the one after it. -/
  | garbled

/-- A line on its way back. -/
inductive AnswerLine
  | response (resp : BrowserResponse)
  | unparseable

/-- What `_rpc` makes of the line it has read. -/
def AnswerLine.read : AnswerLine → Except BrowserError BrowserResponse
  | .unparseable => .error (.unavailable .workerFailure "browser worker sent unparseable output")
  | .response resp =>
    if resp.ok then .ok resp
    else .error (.unavailable ((codeMap.lookup (resp.code.getD "None")).getD .workerFailure) (resp.detail.getD "worker failure"))

/-- What a call makes of it. -/
def BrowserOp.answer (op : BrowserOp) (line : AnswerLine) : Except BrowserError BrowserValue := do
  let body ← line.read
  op.value (body.result.dict?.getD [])

/-- `_rpc` at its deadline. -/
def timedOut (op : BrowserOp) : BrowserError := .unavailable .workerFailure s!"browser worker timed out on {op.name}"

/-- The answer to a line that is no JSON. -/
def protocolError : BrowserResponse := { id := -1, ok := false, code := some "protocol_error", detail := some "unparseable line" }

/-- What the worker makes of a request: a result, or a failure. -/
inductive WorkerReply
  | result (body : Dict)
  | failure (code detail : String)

/-- The line that `handleMessage` writes for a request. -/
def BrowserRequest.response (r : BrowserRequest) : WorkerReply → BrowserResponse
  | .result body => { id := r.id, ok := true, result := .obj body }
  | .failure code detail => { id := r.id, ok := false, code := some code, detail := some detail }

/-! ## Steps -/

/-- The session, the pipes, and what the worker is at; and, as no step reads it, which
answers the worker has given to which requests, which calls have ended with what, and
which of them read no answer. -/
structure BrowserWorld where
  /-- The startup check had the first. -/
  nextId : Nat := 1
  waiting : Option BrowserRequest := none
  stdin : List RequestLine := []
  /-- The last line on its way to the worker is not finished. -/
  cut : Bool := false
  busy : List BrowserRequest := []
  stdout : List AnswerLine := []
  given : List (BrowserRequest × BrowserResponse) := []
  ended : List (BrowserRequest × Except BrowserError BrowserValue) := []
  unread : List BrowserRequest := []

/-- One step of the session's caller or of the worker; a call starts where `cond` holds. -/
inductive BrowserStep (cond : BrowserWorld → Prop) : BrowserWorld → BrowserWorld → Prop
  /-- A call that has written its line. -/
  | call {w} (op : BrowserOp) : w.waiting = none → cond w →
      BrowserStep cond w
        { w with
          nextId := w.nextId + 1, waiting := some ⟨w.nextId + 1, op⟩, cut := false
          stdin := w.stdin ++ [if w.cut then .garbled else .request ⟨w.nextId + 1, op⟩] }
  /-- A call that has not, when its deadline came: some of the line may have been written. -/
  | cut {w} (op : BrowserOp) (some : Bool) : w.waiting = none → cond w →
      BrowserStep cond w
        { w with
          nextId := w.nextId + 1, cut := w.cut || some
          ended := (⟨w.nextId + 1, op⟩, .error (timedOut op)) :: w.ended
          unread := ⟨w.nextId + 1, op⟩ :: w.unread }
  /-- The worker takes a line. -/
  | request {w r rest} : w.stdin = .request r :: rest →
      BrowserStep cond w { w with stdin := rest, busy := r :: w.busy }
  | garbled {w rest} : w.stdin = .garbled :: rest →
      BrowserStep cond w { w with stdin := rest, stdout := w.stdout ++ [.response protocolError] }
  /-- It is done with any of the requests it is at. -/
  | reply {w before r after} (reply : WorkerReply) : w.busy = before ++ r :: after →
      BrowserStep cond w
        { w with
          busy := before ++ after, stdout := w.stdout ++ [.response (r.response reply)]
          given := (r, r.response reply) :: w.given }
  /-- It writes something else. -/
  | noise {w} : BrowserStep cond w { w with stdout := w.stdout ++ [.unparseable] }
  /-- The call reads the next line. -/
  | read {w r line rest} : w.waiting = some r → w.stdout = line :: rest →
      BrowserStep cond w
        { w with
          waiting := none, stdout := rest, ended := (r, r.op.answer line) :: w.ended
          unread := match line with
            | .unparseable => r :: w.unread
            | .response _ => w.unread }
  /-- The call gives up: at its deadline, or as a pipe broke or a line was too long. -/
  | giveUp {w r} (e : BrowserError) : w.waiting = some r →
      BrowserStep cond w { w with waiting := none, ended := (r, .error e) :: w.ended, unread := r :: w.unread }

/-- The states of a session whose calls start where `cond` holds. -/
abbrev BrowserReach (cond : BrowserWorld → Prop) : BrowserWorld → Prop :=
  Interleave.Reach (· = {}) (BrowserStep cond)

/-! ## Whose answer is whose -/

/-- Every value was given by the worker for the request of the call that returned it, and
no two calls had one id. -/
structure OwnAnswers (w : BrowserWorld) : Prop where
  given : ∀ r v, (r, .ok v) ∈ w.ended → ∃ resp, (r, resp) ∈ w.given ∧ r.op.answer (.response resp) = .ok v
  ids : (w.ended.map fun x => x.1.id).Nodup

/-- The answers among the lines. -/
def responses (lines : List AnswerLine) : List BrowserResponse :=
  lines.filterMap fun
    | .response resp => some resp
    | .unparseable => none

@[simp] theorem responses_append (l l' : List AnswerLine) : responses (l ++ l') = responses l ++ responses l' :=
  List.filterMap_append

@[simp] theorem responses_response (resp : BrowserResponse) (l : List AnswerLine) :
    responses (.response resp :: l) = resp :: responses l := rfl

@[simp] theorem responses_unparseable (l : List AnswerLine) : responses (.unparseable :: l) = responses l := rfl

@[simp] theorem responses_nil : responses [] = [] := rfl

/-- Where a request is: on its way to the worker, with it, or answered and on its way back. -/
inductive OnTheWay (w : BrowserWorld) (r : BrowserRequest) : Prop
  | sent : w.stdin = [.request r] → w.busy = [] → responses w.stdout = [] → OnTheWay w r
  | taken : w.stdin = [] → w.busy = [r] → responses w.stdout = [] → OnTheWay w r
  | answered (resp : BrowserResponse) : w.stdin = [] → w.busy = [] → responses w.stdout = [resp] →
      (r, resp) ∈ w.given → OnTheWay w r

/-- Nothing is on its way but the request of the call that waits, if all before have read their answers. -/
structure InSync (w : BrowserWorld) : Prop where
  idle : w.unread = [] → w.waiting = none → w.stdin = [] ∧ w.busy = [] ∧ responses w.stdout = []
  cut : w.unread = [] → w.cut = false
  waiting : ∀ r, w.waiting = some r → w.unread = [] ∧ OnTheWay w r ∧ r.id = w.nextId ∧ ∀ x ∈ w.ended, x.1.id ≠ r.id
  ids : (w.ended.map fun x => x.1.id).Nodup ∧ ∀ x ∈ w.ended, x.1.id ≤ w.nextId
  given : ∀ r v, (r, .ok v) ∈ w.ended → ∃ resp, (r, resp) ∈ w.given ∧ r.op.answer (.response resp) = .ok v

/-- A call that ends without an answer of the worker. -/
theorem ended_error {w : BrowserWorld} {given : List (BrowserRequest × BrowserResponse)} {r : BrowserRequest} {e : BrowserError}
    (h : ∀ r v, (r, .ok v) ∈ w.ended → ∃ resp, (r, resp) ∈ given ∧ r.op.answer (.response resp) = .ok v) :
    ∀ r' v, (r', .ok v) ∈ (r, .error e) :: w.ended → ∃ resp, (r', resp) ∈ given ∧ r'.op.answer (.response resp) = .ok v := by
  intro r' v hmem
  rcases List.mem_cons.1 hmem with he | hmem
  · cases he
  · exact h r' v hmem

/-- Ids are drawn upwards. -/
theorem nodup_cons_next {w : BrowserWorld} {op : BrowserOp} {x : Except BrowserError BrowserValue}
    (h : (w.ended.map fun x => x.1.id).Nodup ∧ ∀ x ∈ w.ended, x.1.id ≤ w.nextId) :
    (((⟨w.nextId + 1, op⟩, x) :: w.ended).map fun x => x.1.id).Nodup ∧
      ∀ y ∈ (⟨w.nextId + 1, op⟩, x) :: w.ended, y.1.id ≤ w.nextId + 1 := by
  refine ⟨?_, fun y hy => ?_⟩
  · simp only [List.map_cons, List.nodup_cons, List.mem_map, not_exists, not_and]
    refine ⟨fun y hy he => ?_, h.1⟩
    have := h.2 y hy
    omega
  · rcases List.mem_cons.1 hy with rfl | hy
    · exact Nat.le_refl _
    · have := h.2 y hy
      omega

/-- A call that ends frees its id. -/
theorem nodup_cons_waiting {w : BrowserWorld} {r : BrowserRequest} {x : Except BrowserError BrowserValue} (h : InSync w)
    (hr : w.waiting = some r) : (((r, x) :: w.ended).map fun x => x.1.id).Nodup ∧
      ∀ y ∈ (r, x) :: w.ended, y.1.id ≤ w.nextId := by
  obtain ⟨-, -, hid, hnew⟩ := h.waiting r hr
  refine ⟨?_, fun y hy => ?_⟩
  · simp only [List.map_cons, List.nodup_cons, List.mem_map, not_exists, not_and]
    exact ⟨hnew, h.ids.1⟩
  · rcases List.mem_cons.1 hy with rfl | hy
    · exact hid.le
    · exact h.ids.2 y hy

/-- **A step keeps the session in step**, where calls start only when all before have read their answers. -/
theorem InSync.step {w w'} (h : InSync w) (hs : BrowserStep (fun w => w.unread = []) w w') : InSync w' := by
  cases hs with
  | call op hidle hread =>
    obtain ⟨hstdin, hbusy, hout⟩ := h.idle hread hidle
    refine ⟨nofun, fun _ => rfl, fun r hr => ?_, ⟨h.ids.1, fun x hx => ?_⟩, h.given⟩
    · cases hr
      refine ⟨hread, .sent ?_ hbusy hout, rfl, fun x hx => ?_⟩
      · simp [hstdin, h.cut hread]
      · have := h.ids.2 x hx
        show x.1.id ≠ w.nextId + 1
        omega
    · have := h.ids.2 x hx
      show x.1.id ≤ w.nextId + 1
      omega
  | cut op some hidle hread =>
    refine ⟨nofun, nofun, fun r hr => ?_, nodup_cons_next h.ids, ended_error h.given⟩
    rw [show w.waiting = _ from hr] at hidle
    cases hidle
  | request hline =>
    refine ⟨fun hread hidle => ?_, h.cut, fun r hr => ?_, h.ids, h.given⟩
    · rw [(h.idle hread hidle).1] at hline
      cases hline
    · obtain ⟨hread, hway, hid⟩ := h.waiting r hr
      refine ⟨hread, ?_, hid⟩
      cases hway with
      | sent hstdin hbusy hout =>
        rw [hstdin] at hline
        cases hline
        exact .taken rfl (by simp [hbusy]) hout
      | taken hstdin | answered _ hstdin =>
        rw [hstdin] at hline
        cases hline
  | garbled hline =>
    refine ⟨fun hread hidle => ?_, h.cut, fun r hr => ?_, h.ids, h.given⟩
    · rw [(h.idle hread hidle).1] at hline
      cases hline
    · obtain ⟨-, hway, -⟩ := h.waiting r hr
      cases hway with
      | sent hstdin | taken hstdin | answered _ hstdin =>
        rw [hstdin] at hline
        cases hline
  | @reply before r₀ after reply hbusy₀ =>
    refine ⟨fun hread hidle => ?_, h.cut, fun r hr => ?_, h.ids, fun r v hv => ?_⟩
    · rw [(h.idle hread hidle).2.1] at hbusy₀
      simp at hbusy₀
    · obtain ⟨hread, hway, hid⟩ := h.waiting r hr
      refine ⟨hread, ?_, hid⟩
      cases hway with
      | taken hstdin hbusy hout =>
        rw [hbusy, eq_comm, List.append_eq_singleton_iff] at hbusy₀
        obtain ⟨rfl, he⟩ | ⟨-, he⟩ := hbusy₀
        · cases he
          exact .answered (r₀.response reply) hstdin rfl (by simp [hout]) List.mem_cons_self
        · cases he
      | sent _ hbusy | answered _ _ hbusy =>
        rw [hbusy] at hbusy₀
        simp at hbusy₀
    · obtain ⟨resp, hresp, hvalue⟩ := h.given r v hv
      exact ⟨resp, List.mem_cons_of_mem _ hresp, hvalue⟩
  | noise =>
    refine ⟨fun hread hidle => ?_, h.cut, fun r hr => ?_, h.ids, h.given⟩
    · simpa using h.idle hread hidle
    · obtain ⟨hread, hway, hid⟩ := h.waiting r hr
      refine ⟨hread, ?_, hid⟩
      cases hway with
      | sent hstdin hbusy hout => exact .sent hstdin hbusy (by simp [hout])
      | taken hstdin hbusy hout => exact .taken hstdin hbusy (by simp [hout])
      | answered resp hstdin hbusy hout hmem => exact .answered resp hstdin hbusy (by simp [hout]) hmem
  | @read r line rest hr hline =>
    have hids := nodup_cons_waiting (x := r.op.answer line) h hr
    obtain ⟨hread, hway, -⟩ := h.waiting r hr
    cases line with
    | unparseable => exact ⟨nofun, nofun, nofun, hids, ended_error h.given⟩
    | response resp =>
      cases hway with
      | sent _ _ hout | taken _ _ hout =>
        rw [hline] at hout
        cases hout
      | answered resp' hstdin hbusy hout hmem =>
        rw [hline, responses_response, List.cons.injEq] at hout
        obtain ⟨rfl, hrest⟩ := hout
        refine ⟨fun _ _ => ⟨hstdin, hbusy, hrest⟩, h.cut, nofun, hids, fun r' v hv => ?_⟩
        rcases List.mem_cons.1 hv with he | hv
        · simp only [Prod.mk.injEq] at he
          obtain ⟨rfl, hv⟩ := he
          exact ⟨resp, hmem, hv.symm⟩
        · exact h.given r' v hv
  | giveUp e hr => exact ⟨nofun, nofun, nofun, nodup_cons_waiting h hr, ended_error h.given⟩

/-- **A call returns its own answer** if no call before it has ended without reading one. -/
theorem answers_own_call {w} (h : BrowserReach (fun w => w.unread = []) w) : OwnAnswers w := by
  have hsync : InSync w := by
    refine Interleave.Reach.invariant (I := InSync) ?_ (fun _ _ _ hi hs => hi.step hs) h
    intro w hw
    subst hw
    exact ⟨fun _ _ => ⟨rfl, rfl, rfl⟩, fun _ => rfl, nofun, ⟨.nil, nofun⟩, nofun⟩
  exact ⟨hsync.given, hsync.ids.1⟩

/-! ## Schedules -/

def pageBody (url : String) : Dict := [("url", .str url), ("title", .str url), ("textExcerpt", .str url), ("httpStatus", .int 200)]

def openFirst : BrowserRequest := ⟨2, .open "first"⟩

def openSecond : BrowserRequest := ⟨3, .open "second"⟩

/-- A call that has read its answer. -/
def firstOpened : BrowserWorld where
  nextId := 2
  given := [(openFirst, openFirst.response (.result (pageBody "first")))]
  ended := [(openFirst, .ok (.page "first" "first" "first" (some 200)))]

/-- The second call has read the answer to the first, which came after its deadline. -/
def secondOpened : BrowserWorld where
  nextId := 3
  stdin := [.request openSecond]
  given := [(openFirst, openFirst.response (.result (pageBody "first")))]
  ended := [(openSecond, .ok (.page "first" "first" "first" (some 200))), (openFirst, .error (timedOut openFirst.op))]
  unread := [openFirst]

def firstAnswer : BrowserResponse := openFirst.response (.result (pageBody "first"))

/-- The first call has written its line, and the worker has taken it. -/
theorem reach_taken {cond : BrowserWorld → Prop} (h₀ : cond {}) :
    BrowserReach cond { nextId := 2, waiting := some openFirst, busy := [openFirst] } :=
  .next (.next (.start rfl) (.call openFirst.op rfl h₀)) (.request rfl)

/-- One call, which reads its answer. -/
theorem answers_own_call_first : OwnAnswers firstOpened :=
  answers_own_call (.next (.next (reach_taken rfl) (@BrowserStep.reply _ _ [] openFirst [] (.result (pageBody "first")) rfl))
    (@BrowserStep.read _ _ openFirst (.response firstAnswer) [] rfl rfl))

/-- A call that gives up leaves its answer to the next. -/
theorem answer_of_first : ¬ ∀ w, BrowserReach (fun _ => True) w → OwnAnswers w := by
  intro h
  have htimeout : BrowserReach (fun _ => True) _ := .next (reach_taken trivial) (.giveUp (timedOut openFirst.op) rfl)
  have hsecond := Interleave.Reach.next htimeout (.call openSecond.op rfl trivial)
  have hlate := Interleave.Reach.next hsecond (@BrowserStep.reply _ _ [] openFirst [] (.result (pageBody "first")) rfl)
  have hread : BrowserReach (fun _ => True) secondOpened :=
    .next hlate (@BrowserStep.read _ _ openSecond (.response firstAnswer) [] rfl rfl)
  obtain ⟨resp, hmem, -⟩ := (h _ hread).given openSecond _ List.mem_cons_self
  rw [show secondOpened.given = [(openFirst, firstAnswer)] from rfl, List.mem_singleton] at hmem
  have hid : 3 = 2 := congrArg (fun x => x.1.id) hmem
  cases hid

end MilpbookLM.Research
