/-
The chat stream: the frames that `stream` yields for a turn, and what `streamChat` makes of the
response as it is read. How the response is split into reads does not matter (`streamChat_flatten`),
and of a stream that is cut short each handler is called as for the whole one, up to the cut
(`stream_decodes`).
-/
import Mathlib.Data.List.Chain
import MilpbookLM.Web.Schemas

namespace MilpbookLM.ChatStream

open JsonText

/-! ## The server -/

abbrev CodePoint := Fin 0x110000

/-- A code point in UTF-16; a lone surrogate is itself. -/
def utf16Unit (c : CodePoint) : Utf16 :=
  if c.val < 0x10000 then [Fin.ofNat 0x10000 c.val]
  else [Fin.ofNat 0x10000 (0xD800 + (c.val - 0x10000) / 0x400), Fin.ofNat 0x10000 (0xDC00 + (c.val - 0x10000) % 0x400)]

abbrev Token := List CodePoint

/-- A `str` as `json.dumps` escapes it, and as the client has it. -/
def utf16 (s : List CodePoint) : Utf16 := s.flatMap utf16Unit

def newline : CodeUnit := 0x0A

/-- The two lines of a frame. -/
def frameLines (event : String) (data : Utf16) : Utf16 :=
  (units "event: " ++ units event) ++ newline :: (units "data: " ++ data)

def frameText (event : String) (data : Utf16) : Utf16 := frameLines event data ++ [newline, newline]

/-- How a turn ends: with an answer, whose payload is a dict, with none, or with a GroundingError. -/
inductive TurnEnd
  | answer (payload : List (Utf16 × JsonValue))
  | cancelled
  | error (detail : List CodePoint)

def tokenData (token : Token) : JsonValue := .object [(units "token", .text (utf16 token))]

def errorData (detail : List CodePoint) : JsonValue :=
  .object [(units "code", .text (units "grounding_invalid")), (units "detail", .text (utf16 detail))]

/-- The event and the data of the last frame. -/
def TurnEnd.event : TurnEnd → String
  | .answer _ => "terminal"
  | .cancelled => "cancelled"
  | .error _ => "error"

def TurnEnd.data : TurnEnd → JsonValue
  | .answer payload => .object payload
  | .cancelled => .object []
  | .error detail => errorData detail

/-- The strings that `events` yields, joined. -/
def events (tokens : List Token) (turnEnd : TurnEnd) : Utf16 :=
  tokens.flatMap (fun token => frameText "token" (write (tokenData token))) ++
    frameText turnEnd.event (write turnEnd.data)

/-! ## The client -/

/-- A call of a handler. -/
inductive Call
  | onToken (token : Utf16)
  | onTerminal (terminal : JsonValue)
  | onCancelled

def Call.isFinal : Call → Bool
  | .onToken _ => false
  | _ => true

/-- What is thrown. -/
inductive Thrown
  /-- A ChatStreamError with the server's detail. -/
  | server (detail : Utf16)
  /-- The ChatStreamError for a stream without a terminal event. -/
  | ended
  | syntaxError
  | zodError
  /-- A read or `reader.cancel()` rejects. -/
  | transport

/-- The line terminators of a regular expression. -/
def isLineTerminator (c : CodeUnit) : Bool := c = 0x0A || c = 0x0D || c = 0x2028 || c = 0x2029

def lines (text : Utf16) : List Utf16 := text.splitOnP isLineTerminator

/-- What stands behind the label, if that is a line. -/
def valueOf (label : String) (line : Utf16) : Option (Utf16) :=
  if units label <+: line ∧ (units label).length < line.length then some (line.drop (units label).length) else none

/-- `frame.match(/^label(.+)$/m)?.[1]`. -/
def labelled (label : String) (frame : Utf16) : Option (Utf16) := (lines frame).findSome? (valueOf label)

/-- `schema.parse(JSON.parse(data))`. -/
def parseData (schema : Schema) (data : Utf16) : Except Thrown JsonValue :=
  match parse data with
  | none => .error .syntaxError
  | some v => match schema.parse v with
    | none => .error .zodError
    | some parsed => .ok parsed

/-- The calls of a frame, and whether it completes the stream. -/
def dispatchEvent (event data : Utf16) : Except Thrown (List Call × Bool) :=
  if event = units "token" then do
    let parsed ← parseData tokenSchema data
    return ([.onToken (textOf parsed "token")], false)
  else if event = units "terminal" then do
    let terminal ← parseData terminalSchema data
    return ([.onTerminal terminal], true)
  else if event = units "cancelled" then return ([.onCancelled], true)
  else if event = units "error" then do
    let parsed ← parseData errorSchema data
    throw (.server (textOf parsed "detail"))
  else return ([], false)

def dispatchFrame (frame : Utf16) : Except Thrown (List Call × Bool) :=
  match labelled "event: " frame, labelled "data: " frame with
  | some event, some data => dispatchEvent event data
  | _, _ => return ([], false)

/-- A code unit in front of the first piece. -/
def prepend (c : CodeUnit) : List Utf16 × Utf16 → List Utf16 × Utf16
  | ([], last) => ([], c :: last)
  | (frame :: frames, last) => ((c :: frame) :: frames, last)

/-- `buffer.split("\n\n")`: all but the last, and the last. -/
def splitFrames : Utf16 → List Utf16 × Utf16
  | [] => ([], [])
  | [c] => ([], [c])
  | c :: d :: text =>
    if c = newline ∧ d = newline then ([] :: (splitFrames text).1, (splitFrames text).2)
    else prepend c (splitFrames (d :: text))

/-- What `streamChat` did: the handlers it called, and how it ended. -/
structure Streamed where
  calls : List Call
  outcome : Except Thrown Unit

/-- How the reads end, and what `reader.cancel()` does. -/
structure Connection where
  closes : Bool
  cancels : Bool

def Connection.cancel (connection : Connection) : Except Thrown Unit :=
  if connection.cancels then .ok () else .error .transport

/-- The `for` over the frames; none where the reads go on. -/
def dispatchFrames (connection : Connection) : List Call → List Utf16 → List Call × Option (Except Thrown Unit)
  | calls, [] => (calls, none)
  | calls, frame :: frames =>
    match dispatchFrame frame with
    | .error e => (calls, some (.error e))
    | .ok (made, completed) =>
      if completed then (calls ++ made, some connection.cancel) else dispatchFrames connection (calls ++ made) frames

/-- White space of `trim`. -/
def isTrimmed (c : CodeUnit) : Bool :=
  (0x09 ≤ c && c ≤ 0x0D) || c = 0x20 || c = 0xA0 || c = 0x1680 || (0x2000 ≤ c && c ≤ 0x200A) || c = 0x2028 ||
    c = 0x2029 || c = 0x202F || c = 0x205F || c = 0x3000 || c = 0xFEFF

/-- What is left is dispatched, unless it is blank. -/
def dispatchRest (calls : List Call) (buffer : Utf16) : Streamed :=
  if buffer.all isTrimmed then ⟨calls, .error .ended⟩
  else match dispatchFrame buffer with
    | .error e => ⟨calls, .error e⟩
    | .ok (made, completed) => ⟨calls ++ made, if completed then .ok () else .error .ended⟩

/-- The `while` over the reads. -/
def readAll (connection : Connection) : List Call → Utf16 → List Utf16 → Streamed
  | calls, buffer, [] => if connection.closes then dispatchRest calls buffer else ⟨calls, .error .transport⟩
  | calls, buffer, chunk :: chunks =>
    let (frames, rest) := splitFrames (buffer ++ chunk)
    match dispatchFrames connection calls frames with
    | (calls, some outcome) => ⟨calls, outcome⟩
    | (calls, none) => readAll connection calls rest chunks

/-- `streamChat`, once the response is there. -/
def streamChat (connection : Connection) (chunks : List Utf16) : Streamed := readAll connection [] [] chunks

/-! ## The reads -/

theorem splitFrames_nil_eq {text last : Utf16} (h : splitFrames text = ([], last)) : last = text := by
  induction text using splitFrames.induct generalizing last with
  | case1 => cases h; rfl
  | case2 c => cases h; rfl
  | case3 c d text hblank ih =>
    simp only [splitFrames, hblank, and_self, if_true] at h
    cases h
  | case4 c d text hblank ih =>
    simp only [splitFrames, hblank, if_false] at h
    rcases hrest : splitFrames (d :: text) with ⟨_ | _, rest⟩
    · rw [hrest] at h
      cases h
      rw [ih hrest]
    · rw [hrest] at h
      cases h

/-- More text is split behind the last piece. -/
theorem splitFrames_append (x y : Utf16) :
    splitFrames (x ++ y) =
      ((splitFrames x).1 ++ (splitFrames ((splitFrames x).2 ++ y)).1, (splitFrames ((splitFrames x).2 ++ y)).2) := by
  induction x using splitFrames.induct with
  | case1 => rfl
  | case2 c => rfl
  | case3 c d text hblank ih =>
    obtain ⟨rfl, rfl⟩ := hblank
    simp only [List.cons_append, splitFrames, and_self, if_true, ih]
  | case4 c d text hblank ih =>
    have hcons : splitFrames (c :: d :: text ++ y) = prepend c (splitFrames (d :: text ++ y)) := by
      simp only [List.cons_append, splitFrames, hblank, if_false]
    rw [hcons, ih]
    simp only [splitFrames, hblank, if_false]
    rcases hrest : splitFrames (d :: text) with ⟨_ | ⟨frame, frames⟩, last⟩
    · obtain rfl := splitFrames_nil_eq hrest
      exact hcons ▸ rfl
    · rfl

theorem splitFrames_last (text : Utf16) : splitFrames (splitFrames text).2 = ([], (splitFrames text).2) := by
  have h := splitFrames_append text []
  rw [List.append_nil, List.append_nil, Prod.ext_iff] at h
  exact Prod.ext (List.self_eq_append_right.1 h.1) h.2.symm

theorem dispatchFrames_append (connection : Connection) (calls : List Call) (x y : List Utf16) :
    dispatchFrames connection calls (x ++ y) =
      match dispatchFrames connection calls x with
      | (calls, some outcome) => (calls, some outcome)
      | (calls, none) => dispatchFrames connection calls y := by
  induction x generalizing calls with
  | nil => rfl
  | cons frame x ih =>
    simp only [List.cons_append, dispatchFrames]
    split
    · rfl
    · split
      · rfl
      · exact ih _

/-- All that was read may be one chunk. -/
theorem readAll_flatten (connection : Connection) (calls : List Call) {buffer : Utf16}
    (hbuffer : splitFrames buffer = ([], buffer)) (chunks : List Utf16) :
    readAll connection calls buffer chunks = readAll connection calls buffer [chunks.flatten] := by
  induction chunks generalizing calls buffer with
  | nil => simp only [List.flatten_nil, readAll, List.append_nil, hbuffer, dispatchFrames]
  | cons chunk chunks ih =>
    simp only [List.flatten_cons, readAll]
    rw [← List.append_assoc, splitFrames_append (buffer ++ chunk)]
    simp only [dispatchFrames_append]
    split
    · rfl
    · next calls' hcalls =>
      rw [ih calls' (splitFrames_last _)]
      simp only [readAll]

/-! ## Frames -/

/-- No blank line. -/
abbrev Unbroken (text : Utf16) : Prop := text.IsChain fun c d => ¬(c = newline ∧ d = newline)

theorem unbroken_of_notMem {text : Utf16} (h : newline ∉ text) : Unbroken text := by
  refine (List.pairwise_of_forall_mem_list fun c hc d _ hboth => ?_).isChain
  obtain ⟨rfl, -⟩ := hboth
  exact h hc

theorem splitFrames_unbroken {text : Utf16} (h : Unbroken text) : splitFrames text = ([], text) := by
  induction text using splitFrames.induct with
  | case1 => rfl
  | case2 c => rfl
  | case3 c d text hblank ih => exact absurd hblank (List.isChain_cons_cons.1 h).1
  | case4 c d text hblank ih => simp only [splitFrames, hblank, if_false, ih (List.isChain_cons_cons.1 h).2, prepend]

/-- A blank line ends the frame. -/
theorem splitFrames_frame {text : Utf16} (h : Unbroken (text ++ [newline])) :
    splitFrames (text ++ [newline, newline]) = ([text], []) := by
  induction text using splitFrames.induct with
  | case1 => rfl
  | case2 c =>
    have hc : c ≠ newline := fun hc => (List.isChain_cons_cons.1 h).1 ⟨hc, rfl⟩
    simp only [List.cons_append, List.nil_append, splitFrames, hc, false_and, if_false, and_self, if_true, prepend]
  | case3 c d text hblank ih => exact absurd hblank (List.isChain_cons_cons.1 h).1
  | case4 c d text hblank ih =>
    have hrest := ih (List.isChain_cons_cons.1 h).2
    simp only [List.cons_append] at hrest ⊢
    simp only [splitFrames, hblank, if_false, hrest, prepend]

/-- A cut is in the first part, or behind it. -/
theorem prefix_append {x y text : Utf16} (h : text <+: x ++ y) :
    text <+: x ∨ ∃ c rest, text = x ++ c :: rest ∧ c :: rest <+: y := by
  obtain ⟨after, h⟩ := h
  rcases List.append_eq_append_iff.1 h with ⟨rest, hrest, -⟩ | ⟨_ | ⟨c, rest⟩, rfl, hrest⟩
  · exact .inl ⟨rest, hrest.symm⟩
  · exact .inl ⟨[], by simp⟩
  · exact .inr ⟨c, rest, rfl, after, hrest.symm⟩

/-- A line of printable code units. -/
abbrev Line (text : Utf16) : Prop := ∀ c ∈ text, Printable c

theorem Line.notMem {line : Utf16} (h : Line line) {c : CodeUnit} (hc : isLineTerminator c = true) : c ∉ line := by
  intro hmem
  simp only [isLineTerminator, Bool.or_eq_true, decide_eq_true_eq] at hc
  rcases hc with ((rfl | rfl) | rfl) | rfl <;> exact absurd (h _ hmem) (by unfold Printable; decide)

theorem Line.noTerminator {line : Utf16} (h : Line line) : ∀ c ∈ line, isLineTerminator c = false :=
  fun _ hc => Bool.eq_false_iff.2 fun ht => h.notMem ht hc

theorem lines_append {line : Utf16} (h : Line line) (text : Utf16) :
    lines (line ++ newline :: text) = line :: lines text :=
  List.splitOnP_append_cons_of_forall_mem h.noTerminator _ rfl text

theorem Line.lines {line : Utf16} (h : Line line) : ChatStream.lines line = [line] :=
  List.splitOnP_eq_singleton h.noTerminator

theorem valueOf_append (label : String) {value : Utf16} (h : value ≠ []) :
    valueOf label (units label ++ value) = some value := by
  have hpos := List.length_pos_iff.2 h
  rw [valueOf, if_pos ⟨List.prefix_append _ _, by simp [hpos]⟩, List.drop_left]

/-- `data: ` is not what an event's line starts with. -/
theorem valueOf_event {event line : Utf16} (h : line <+: units "event: " ++ event) : valueOf "data: " line = none := by
  refine if_neg fun hdata => ?_
  obtain ⟨rest, hrest⟩ := hdata.1.trans h
  have hhead : some (0x64 : CodeUnit) = some 0x65 := congrArg List.head? hrest
  exact absurd hhead (by decide)

/-- A frame of `events`. -/
structure Frame where
  event : String
  v : JsonValue
  known : event ∈ ["cancelled", "token", "terminal", "error"]
  container : v.isContainer = true

namespace Frame

variable (f : Frame) {data text : Utf16}

def lines : Utf16 := frameLines f.event (write f.v)

theorem first : Line (units "event: " ++ units f.event) ∧ units f.event ≠ [] := by
  have hknown := f.known
  simp only [List.mem_cons, List.not_mem_nil, or_false] at hknown
  rcases hknown with h | h | h | h <;> rw [h] <;> exact ⟨printable_of_all (by decide), by decide⟩

theorem second (h : Line data) : Line (units "data: " ++ data) :=
  List.forall_mem_append.2 ⟨printable_of_all (by decide), h⟩

theorem write_ne_nil (v : JsonValue) : write v ≠ [] := by
  obtain ⟨c, rest, hw, -⟩ := write_cons v
  simp [hw]

theorem unbroken : Unbroken (f.lines ++ [newline]) := by
  have hnl : isLineTerminator newline = true := rfl
  have hsecond : newline ∉ units "data: " ++ write f.v := (second (write_printable f.v)).notMem hnl
  have hopen : units "data: " ++ write f.v = 0x64 :: ((units "data: ").tail ++ write f.v) := rfl
  rw [lines, frameLines, List.append_assoc]
  refine List.isChain_append.2 ⟨unbroken_of_notMem (f.first.1.notMem hnl), ?_, ?_⟩
  · rw [List.cons_append, hopen, List.cons_append, List.isChain_cons_cons, ← List.cons_append, ← hopen]
    refine ⟨by decide, List.isChain_append.2 ⟨unbroken_of_notMem hsecond, List.isChain_singleton _, ?_⟩⟩
    exact fun c hc _ _ hboth => hsecond (hboth.1 ▸ List.mem_of_mem_getLast? hc)
  · exact fun c hc _ _ hboth => f.first.1.notMem hnl (hboth.1 ▸ List.mem_of_mem_getLast? hc)

/-- With an event and data it is dispatched. -/
theorem dispatch {rest : Utf16} {more : List Utf16} (hne : data ≠ [])
    (hrest : ChatStream.lines rest = (units "data: " ++ data) :: more) :
    dispatchFrame ((units "event: " ++ units f.event) ++ newline :: rest) = dispatchEvent (units f.event) data := by
  simp only [dispatchFrame, labelled, lines_append f.first.1, hrest, List.findSome?_cons, valueOf_append _ f.first.2,
    valueOf_event List.prefix_rfl, valueOf_append _ hne]

theorem whole : dispatchFrame f.lines = dispatchEvent (units f.event) (write f.v) :=
  f.dispatch (write_ne_nil _) (second (write_printable _)).lines

theorem dispatchFrame_none (h : ∀ line ∈ ChatStream.lines text, valueOf "data: " line = none) :
    dispatchFrame text = .ok ([], false) := by
  rw [dispatchFrame, labelled, labelled, List.findSome?_eq_none_iff.2 h]
  cases (ChatStream.lines text).findSome? (valueOf "event: ") <;> rfl

/-- **Of a frame that is cut the data is not there, or cut**, or the frame is whole. -/
theorem cut (htext : text <+: f.lines ++ [newline]) :
    dispatchFrame text = .ok ([], false) ∨ ∃ data, data <+: write f.v ∧
      dispatchFrame text = dispatchEvent (units f.event) data ∧ (data = write f.v → f.lines <+: text) := by
  have hfirst := f.first.1
  have hsecond := second (write_printable f.v)
  rw [lines, frameLines, List.append_assoc, List.cons_append] at htext
  rcases prefix_append htext with hfront | ⟨c, rest, rfl, hbehind⟩
  · refine .inl (dispatchFrame_none fun line hline => ?_)
    have htext : Line text := fun c hc => hfirst c (hfront.subset hc)
    rw [htext.lines, List.mem_singleton] at hline
    exact valueOf_event (hline ▸ hfront)
  obtain ⟨rfl, hrest⟩ := List.cons_prefix_cons.1 hbehind
  rw [List.append_assoc] at hrest
  rcases prefix_append hrest with hfront | ⟨c, data, rfl, hdata⟩
  · have hrest : Line rest := fun c hc => hsecond c (List.mem_append_left _ (hfront.subset hc))
    refine .inl (dispatchFrame_none fun line hline => ?_)
    rw [lines_append hfirst, hrest.lines, List.mem_cons, List.mem_singleton] at hline
    rcases hline with rfl | rfl
    · exact valueOf_event List.prefix_rfl
    · exact if_neg fun hboth => Nat.not_lt.2 hfront.length_le hboth.2
  rcases prefix_append hdata with hfront | ⟨d, after, heq, hlast⟩
  · have hdata : Line (c :: data) := fun d hd => write_printable f.v d (hfront.subset hd)
    refine .inr ⟨c :: data, hfront, f.dispatch (List.cons_ne_nil _ _) (second hdata).lines, fun heq => ?_⟩
    rw [heq]
    exact List.prefix_rfl
  · -- The newline behind the data is there.
    obtain ⟨rfl, hafter⟩ := List.cons_prefix_cons.1 hlast
    rw [List.prefix_nil.1 hafter] at heq
    rw [heq]
    have hrows := lines_append hsecond []
    rw [List.append_assoc] at hrows
    exact .inr ⟨write f.v, List.prefix_rfl, f.dispatch (write_ne_nil f.v) hrows,
      fun _ => ⟨[newline], by simp [lines, frameLines]⟩⟩

end Frame

/-! ## The stream -/

/-- The calls that a turn is to lead to. -/
def TurnEnd.calls : TurnEnd → List Call
  | .answer payload => ((terminalSchema.parse (.object payload)).map .onTerminal).toList
  | .cancelled => [.onCancelled]
  | .error _ => []

def tokenCalls (tokens : List Token) : List Call := tokens.map fun token => .onToken (utf16 token)

def sentCalls (tokens : List Token) (turnEnd : TurnEnd) : List Call := tokenCalls tokens ++ turnEnd.calls

/-- How `streamChat` is to end. -/
def TurnEnd.outcome : TurnEnd → Except Thrown Unit
  | .answer payload => if (terminalSchema.parse (.object payload)).isSome then .ok () else .error .zodError
  | .cancelled => .ok ()
  | .error detail => .error (.server (utf16 detail))

theorem parseData_write (schema : Schema) (v : JsonValue) :
    parseData schema (write v) = match schema.parse v with
      | none => .error .zodError
      | some parsed => .ok parsed := by
  rw [parseData, parse_write]

theorem dispatch_token (token : Token) :
    dispatchEvent (units "token") (write (tokenData token)) = .ok ([.onToken (utf16 token)], false) := by
  simp only [dispatchEvent, if_true, parseData_write]
  rfl

theorem dispatch_end (turnEnd : TurnEnd) :
    dispatchEvent (units turnEnd.event) (write turnEnd.data) = turnEnd.outcome.map fun _ => (turnEnd.calls, true) := by
  cases turnEnd with
  | answer payload =>
    have hevent : units "terminal" ≠ units "token" := by decide
    simp only [TurnEnd.event, TurnEnd.data, dispatchEvent, if_neg hevent, if_true, parseData_write, TurnEnd.outcome,
      TurnEnd.calls]
    cases terminalSchema.parse (.object payload) <;> rfl
  | cancelled => rfl
  | error detail =>
    have hevent : units "error" ≠ units "token" ∧ units "error" ≠ units "terminal" ∧
        units "error" ≠ units "cancelled" := by
      decide
    simp only [TurnEnd.event, TurnEnd.data, dispatchEvent, if_neg hevent.1, if_neg hevent.2.1, if_neg hevent.2.2,
      if_true, parseData_write]
    rfl

/-- Data that is no JSON is refused, but for the event that has none. -/
theorem dispatch_syntaxError {event : String} {data : Utf16} (he : event ∈ ["token", "terminal", "error"])
    (h : parse data = none) : dispatchEvent (units event) data = .error .syntaxError := by
  have hparse : ∀ schema, parseData schema data = .error .syntaxError := fun schema => by rw [parseData, h]
  simp only [List.mem_cons, List.not_mem_nil, or_false] at he
  rcases he with rfl | rfl | rfl <;> simp only [dispatchEvent, hparse] <;> rfl

/-- What the end of a response makes of a frame that is cut, or whole. -/
theorem Frame.rest (f : Frame) {text : Utf16} (htext : text <+: f.lines ++ [newline]) (calls : List Call) :
    (∃ e, dispatchRest calls text = ⟨calls, .error e⟩) ∨
      ∃ made completed, dispatchEvent (units f.event) (write f.v) = .ok (made, completed) ∧
        dispatchRest calls text = ⟨calls ++ made, if completed then .ok () else .error .ended⟩ ∧
        (f.event = "cancelled" ∨ f.lines <+: text) := by
  unfold dispatchRest
  split
  · exact .inl ⟨_, rfl⟩
  rcases f.cut htext with hnone | ⟨data, hfront, hdispatch, hwhole⟩
  · exact .inl ⟨.ended, by rw [hnone]; simp⟩
  rw [hdispatch]
  rcases List.mem_cons.1 f.known with hevent | hknown
  · rw [hevent]
    exact .inr ⟨[.onCancelled], true, rfl, rfl, .inl rfl⟩
  by_cases heq : data = write f.v
  · rw [heq]
    rcases dispatchEvent (units f.event) (write f.v) with e | ⟨made, completed⟩
    · exact .inl ⟨e, rfl⟩
    · exact .inr ⟨made, completed, rfl, rfl, .inr (hwhole heq)⟩
  · obtain ⟨rest, hrest⟩ := hfront
    have hne : rest ≠ [] := fun hnil => heq (by rw [← hrest, hnil, List.append_nil])
    rw [dispatch_syntaxError hknown (parse_cut f.container hrest.symm hne)]
    exact .inl ⟨_, rfl⟩

/-! ### The frames of a turn -/

def streamOf (frames : List Frame) : Utf16 := frames.flatMap fun f => f.lines ++ [newline, newline]

theorem token_known : "token" ∈ ["cancelled", "token", "terminal", "error"] := by decide

theorem TurnEnd.known (turnEnd : TurnEnd) : turnEnd.event ∈ ["cancelled", "token", "terminal", "error"] := by
  cases turnEnd <;> simp [TurnEnd.event]

theorem TurnEnd.container (turnEnd : TurnEnd) : turnEnd.data.isContainer = true := by cases turnEnd <;> rfl

def tokenFrame (token : Token) : Frame := ⟨"token", tokenData token, token_known, rfl⟩

def TurnEnd.frame (turnEnd : TurnEnd) : Frame := ⟨turnEnd.event, turnEnd.data, turnEnd.known, turnEnd.container⟩

def framesOf (tokens : List Token) (turnEnd : TurnEnd) : List Frame := tokens.map tokenFrame ++ [turnEnd.frame]

theorem events_eq (tokens : List Token) (turnEnd : TurnEnd) :
    events tokens turnEnd = streamOf (framesOf tokens turnEnd) := by
  simp [events, streamOf, framesOf, frameText, Frame.lines, tokenFrame, TurnEnd.frame, List.flatMap_map]

/-- A cut leaves whole frames, and what there is of the next. -/
theorem streamOf_prefix {frames : List Frame} {text : Utf16} (h : text <+: streamOf frames) :
    text = streamOf frames ∨ ∃ before f after tail, frames = before ++ f :: after ∧
      text = streamOf before ++ tail ∧ tail <+: f.lines ++ [newline] := by
  induction frames generalizing text with
  | nil => exact .inl (List.prefix_nil.1 h)
  | cons f frames ih =>
    have hcons : streamOf (f :: frames) = (f.lines ++ [newline]) ++ newline :: streamOf frames := by simp [streamOf]
    rw [hcons] at h ⊢
    rcases prefix_append h with hfront | ⟨c, rest, rfl, hbehind⟩
    · exact .inr ⟨[], f, frames, text, rfl, rfl, hfront⟩
    obtain ⟨rfl, hrest⟩ := List.cons_prefix_cons.1 hbehind
    rcases ih hrest with rfl | ⟨before, next, after, tail, rfl, rfl, htail⟩
    · exact .inl rfl
    · exact .inr ⟨f :: before, next, after, tail, rfl, by simp [streamOf], htail⟩

/-- What is before one of its frames are tokens. -/
theorem framesOf_eq {tokens : List Token} {turnEnd : TurnEnd} {before after : List Frame} {f : Frame}
    (h : framesOf tokens turnEnd = before ++ f :: after) :
    ∃ read later, tokens = read ++ later ∧ before = read.map tokenFrame ∧
      later.map tokenFrame ++ [turnEnd.frame] = f :: after := by
  rcases List.append_eq_append_iff.1 h with ⟨rest, rfl, hrest⟩ | ⟨rest, htokens, hrest⟩
  · obtain rfl : rest = [] := by
      have hlength := congrArg List.length hrest
      simp only [List.length_append, List.length_cons, List.length_nil] at hlength
      exact List.length_eq_zero_iff.1 (by omega)
    exact ⟨tokens, [], by simp, by simp, hrest⟩
  · obtain ⟨read, later, rfl, rfl, rfl⟩ := List.map_eq_append_iff.1 htokens
    exact ⟨read, later, rfl, rfl, hrest.symm⟩

theorem splitFrames_streamOf (frames : List Frame) {tail : Utf16} (htail : Unbroken tail) :
    splitFrames (streamOf frames ++ tail) = (frames.map Frame.lines, tail) := by
  induction frames with
  | nil => exact splitFrames_unbroken htail
  | cons f frames ih =>
    have hcons : streamOf (f :: frames) ++ tail = (f.lines ++ [newline, newline]) ++ (streamOf frames ++ tail) := by
      simp [streamOf]
    rw [hcons, splitFrames_append, splitFrames_frame f.unbroken, List.nil_append, ih]
    rfl

theorem dispatchFrames_tokens (connection : Connection) (tokens : List Token) (calls : List Call)
    (frames : List Utf16) :
    dispatchFrames connection calls ((tokens.map tokenFrame).map Frame.lines ++ frames) =
      dispatchFrames connection (calls ++ tokenCalls tokens) frames := by
  induction tokens generalizing calls with
  | nil => simp [tokenCalls]
  | cons token tokens ih =>
    have htoken : dispatchFrame (tokenFrame token).lines = .ok ([.onToken (utf16 token)], false) :=
      (tokenFrame token).whole.trans (dispatch_token token)
    simp only [List.map_cons, List.cons_append, dispatchFrames, htoken, Bool.false_eq_true, if_false, ih]
    simp [tokenCalls]

/-- A turn ends with one final call, or with an exception. -/
theorem TurnEnd.result (turnEnd : TurnEnd) :
    turnEnd.outcome = .ok () ∧ (∃ call ∈ turnEnd.calls, call.isFinal = true) ∨
      ∃ e, turnEnd.outcome = .error e ∧ turnEnd.calls = [] := by
  cases turnEnd with
  | answer payload =>
    simp only [TurnEnd.outcome, TurnEnd.calls]
    cases terminalSchema.parse (.object payload) with
    | none => exact .inr ⟨_, rfl, rfl⟩
    | some terminal => exact .inl ⟨rfl, _, List.mem_singleton_self _, rfl⟩
  | cancelled => exact .inl ⟨rfl, _, List.mem_singleton_self _, rfl⟩
  | error detail => exact .inr ⟨_, rfl, rfl⟩

theorem TurnEnd.answer_of_terminal {turnEnd : TurnEnd} {terminal : JsonValue}
    (h : .onTerminal terminal ∈ turnEnd.calls) : ∃ payload, turnEnd = .answer payload := by
  cases turnEnd with
  | answer payload => exact ⟨payload, rfl⟩
  | cancelled => simp [TurnEnd.calls] at h
  | error detail => simp [TurnEnd.calls] at h

/-- The whole stream. -/
theorem streamChat_whole (connection : Connection) (tokens : List Token) (turnEnd : TurnEnd) :
    streamChat connection [events tokens turnEnd] =
      ⟨sentCalls tokens turnEnd, turnEnd.outcome.bind fun _ => connection.cancel⟩ := by
  have hend : dispatchFrame turnEnd.frame.lines = turnEnd.outcome.map fun _ => (turnEnd.calls, true) :=
    turnEnd.frame.whole.trans (dispatch_end turnEnd)
  have hsplit := splitFrames_streamOf (framesOf tokens turnEnd) (List.isChain_nil : Unbroken [])
  rw [List.append_nil, ← events_eq, framesOf, List.map_append] at hsplit
  simp only [streamChat, readAll, List.nil_append, hsplit, dispatchFrames_tokens, List.map_singleton, dispatchFrames,
    hend]
  rcases turnEnd.result with ⟨hok, -⟩ | ⟨e, herror, hnone⟩
  · rw [hok]
    rfl
  · rw [herror, sentCalls, hnone, List.append_nil]
    rfl

/-- What a client may make of what it read of a stream. -/
structure Faithful (tokens : List Token) (turnEnd : TurnEnd) (text : Utf16) (made : List Call)
    (outcome : Except Thrown Unit) : Prop where
  /-- The calls are those of the whole stream, up to one of them, -/
  calls : made <+: sentCalls tokens turnEnd
  /-- the terminal one only after its whole payload, -/
  whole : ∀ terminal, .onTerminal terminal ∈ made → ∃ payload, turnEnd = .answer payload ∧
    tokens.flatMap (fun token => frameText "token" (write (tokenData token))) ++
      frameLines "terminal" (write (.object payload)) <+: text
  /-- and without a final one it rejects. -/
  final : outcome = .ok () → ∃ call ∈ made, call.isFinal = true

theorem faithful_tokens {tokens read : List Token} (h : read <+: tokens) (turnEnd : TurnEnd)
    (text : Utf16) (e : Thrown) : Faithful tokens turnEnd text (tokenCalls read) (.error e) := by
  refine ⟨(h.map _).trans (List.prefix_append _ _), fun terminal hterminal => ?_, fun hok => by cases hok⟩
  obtain ⟨token, -, htoken⟩ := List.mem_map.1 hterminal
  cases htoken

theorem faithful_end {tokens : List Token} {turnEnd : TurnEnd} {text : Utf16} {outcome : Except Thrown Unit}
    (htext : turnEnd.event = "cancelled" ∨ streamOf (tokens.map tokenFrame) ++ turnEnd.frame.lines <+: text)
    (houtcome : outcome = .ok () → turnEnd.outcome = .ok ()) :
    Faithful tokens turnEnd text (sentCalls tokens turnEnd) outcome := by
  refine ⟨List.prefix_rfl, fun terminal hterminal => ?_, fun hok => ?_⟩
  · rcases List.mem_append.1 hterminal with htoken | hend
    · obtain ⟨token, -, htoken⟩ := List.mem_map.1 htoken
      cases htoken
    · obtain ⟨payload, rfl⟩ := TurnEnd.answer_of_terminal hend
      have hwhole := htext.resolve_left (by simp [TurnEnd.event])
      rw [streamOf, List.flatMap_map] at hwhole
      exact ⟨payload, rfl, hwhole⟩
  · rcases turnEnd.result with ⟨-, call, hcall, hfinal⟩ | ⟨e, herror, -⟩
    · exact ⟨call, List.mem_append_right _ hcall, hfinal⟩
    · rw [houtcome hok] at herror
      cases herror

/-- What is read before the connection is cut in a frame. -/
theorem streamChat_cut (connection : Connection) {tokens : List Token} {f : Frame} {tail : Utf16}
    (htail : tail <+: f.lines ++ [newline]) :
    streamChat connection [streamOf (tokens.map tokenFrame) ++ tail] =
      if connection.closes then dispatchRest (tokenCalls tokens) tail else ⟨tokenCalls tokens, .error .transport⟩ := by
  have hunbroken : Unbroken tail := List.IsChain.prefix f.unbroken htail
  have hsplit := splitFrames_streamOf (tokens.map tokenFrame) hunbroken
  have hdispatch := dispatchFrames_tokens connection tokens [] []
  rw [List.append_nil] at hdispatch
  simp only [streamChat, readAll, List.nil_append, hsplit, hdispatch, dispatchFrames]

/-- **The chat stream decodes to what was sent**, however it is read; and when it is cut, to nothing that was
not. -/
theorem stream_decodes (connection : Connection) (tokens : List Token) (turnEnd : TurnEnd)
    (chunks : List Utf16) (h : chunks.flatten <+: events tokens turnEnd) :
    (chunks.flatten = events tokens turnEnd → connection.cancels = true →
        streamChat connection chunks = ⟨sentCalls tokens turnEnd, turnEnd.outcome⟩) ∧
      Faithful tokens turnEnd chunks.flatten (streamChat connection chunks).calls
        (streamChat connection chunks).outcome := by
  have hflat : streamChat connection chunks = streamChat connection [chunks.flatten] :=
    readAll_flatten connection [] rfl _
  rw [hflat]
  refine ⟨fun heq hcancels => ?_, ?_⟩
  · rw [heq, streamChat_whole, Connection.cancel, if_pos hcancels]
    cases turnEnd.outcome <;> rfl
  rw [events_eq] at h
  rcases streamOf_prefix h with heq | ⟨before, f, after, tail, hframes, heq, htail⟩
  · rw [heq, ← events_eq, streamChat_whole]
    refine faithful_end (.inr ⟨[newline, newline], ?_⟩) fun hok => ?_
    · simp [events_eq, framesOf, streamOf]
    · cases houtcome : turnEnd.outcome with
      | error e => rw [houtcome] at hok; cases hok
      | ok => rfl
  · obtain ⟨read, later, rfl, rfl, hlater⟩ := framesOf_eq hframes
    rw [heq, streamChat_cut connection htail]
    split
    · rcases f.rest htail (tokenCalls read) with ⟨e, hrest⟩ | ⟨made, completed, hdispatch, hrest, hthere⟩
      · rw [hrest]
        exact faithful_tokens (List.prefix_append _ _) turnEnd _ e
      rw [hrest]
      rcases later with _ | ⟨token, later⟩
      · cases hlater
        have hend := (dispatch_end turnEnd).symm.trans hdispatch
        rcases turnEnd.result with ⟨hok, -⟩ | ⟨e, herror, -⟩
        · rw [hok] at hend
          cases hend
          rw [List.append_nil]
          refine faithful_end (hthere.imp_right fun hfront => ?_) fun _ => hok
          exact (List.prefix_append_right_inj _).2 hfront
        · rw [herror] at hend
          cases hend
      · cases hlater
        cases (dispatch_token token).symm.trans hdispatch
        have hread : tokenCalls read ++ [.onToken (utf16 token)] = tokenCalls (read ++ [token]) := by simp [tokenCalls]
        rw [hread]
        exact faithful_tokens (by simp) turnEnd _ .ended
    · exact faithful_tokens (List.prefix_append _ _) turnEnd _ .transport

/-- A token and a cancellation, in two reads. -/
theorem cancelled_in_two_reads :
    streamChat ⟨true, true⟩ [(events [[0x41]] .cancelled).take 10, (events [[0x41]] .cancelled).drop 10] =
      ⟨[.onToken [0x41], .onCancelled], .ok ()⟩ :=
  (stream_decodes ⟨true, true⟩ [[0x41]] .cancelled _ (by simp)).1 (by simp) rfl

/-- **How a response is split into reads does not matter**, whatever it says. -/
theorem streamChat_flatten (connection : Connection) (chunks : List Utf16) :
    streamChat connection chunks = streamChat connection [chunks.flatten] :=
  readAll_flatten connection [] rfl chunks

end MilpbookLM.ChatStream
