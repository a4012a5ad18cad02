/-
The adapter of OpenAI-compatible endpoints. It reads the lines of a stream and tells deltas, then the usage and the
completion. A failure is told with sequence number 2 whatever came before, and a stream that just ends is told as
completed. The events obey the protocol exactly where the stream is not broken off after a delta, does not end
without a sign of its end, and nothing is raised that the adapter does not catch (`protocol_iff`).

The JSON of a chunk, digits and floats are read by functions that are parameters here.
-/
import Mathlib.Data.List.Range
import MilpbookLM.Base.Uuid
import MilpbookLM.Models.Lifecycle

namespace MilpbookLM.Models

/-! ## The stream -/

/-- What is raised while the request runs, by the handler that it meets. -/
inductive Fault
  | provider (code : ProviderErrorCode)
  | timeout
  | transport
  | malformed
  | cancelled
  /-- No handler: a body that cannot be decoded, say. -/
  | uncaught
  deriving DecidableEq

structure ChoicePayload where
  content : Option String := none
  reasoningContent : Option String := none
  finishReason : Option String := none

structure ChatChunkPayload where
  choices : List ChoicePayload := []
  /-- The prompt and completion tokens. -/
  usage : Option (Int × Int) := none

/-- How what comes from the endpoint is read; none where a ValueError is raised. -/
structure Reader where
  chunk : String → Option ChatChunkPayload
  isDigit : String → Bool
  float : String → Option Rat

/-- A delta, unless its text is missing or empty. -/
def deltaOf (seq : Nat) (text : Option String) (reasoning : Bool) : List ProviderEvent :=
  match text with
  | some text => if text = "" then [] else [.delta seq text reasoning]
  | none => []

/-- `_choice_deltas`. -/
def choiceDeltas (choice : ChoicePayload) (seq : Nat) : List ProviderEvent :=
  let events := deltaOf seq choice.reasoningContent true
  events ++ deltaOf (seq + events.length) choice.content false

/-- What is kept between lines. -/
structure StreamState where
  seq : Nat := 2
  finishReason : String := "stop"
  usage : Int × Int := (0, 0)

/-- `choice.finish_reason or finish_reason`. -/
def nextReason (choice : ChoicePayload) (finishReason : String) : String :=
  match choice.finishReason with
  | some reason => if reason = "" then finishReason else reason
  | none => finishReason

/-- The loop over the choices of a chunk. -/
def streamChoices (st : StreamState) : List ChoicePayload → List ProviderEvent × StreamState
  | [] => ([], st)
  | choice :: choices =>
    let deltas := choiceDeltas choice st.seq
    let rest := streamChoices
      { st with seq := st.seq + deltas.length, finishReason := nextReason choice st.finishReason } choices
    (deltas ++ rest.1, rest.2)

/-- The events of a chunk. -/
def streamChunk (st : StreamState) (chunk : ChatChunkPayload) : List ProviderEvent × StreamState :=
  streamChoices { st with usage := chunk.usage.getD st.usage } chunk.choices

/-- What is told at the end of the stream. -/
def closeStream (st : StreamState) : List ProviderEvent :=
  if st.finishReason = "content_filter" then [.refused st.seq "provider safety policy"]
  else [.usage st.seq st.usage.1 st.usage.2, .completed (st.seq + 1) st.finishReason]

/-- `line.removeprefix("data: ")`, of a line that has the prefix. -/
def payload? (line : String) : Option String :=
  if "data: ".toList.isPrefixOf line.toList then some (String.ofList (line.toList.drop 6)) else none

/-- `_stream_events`: the lines that arrive, and what is raised after them. -/
def streamEvents (reader : Reader) (fault : Option Fault) :
    StreamState → List String → List ProviderEvent × Option Fault
  | st, [] =>
    match fault with
    | some fault => ([], some fault)
    | none => (closeStream st, none)
  | st, line :: lines =>
    match payload? line with
    | none => streamEvents reader fault st lines
    | some payload =>
      if payload = "[DONE]" then (closeStream st, none)
      else
        match reader.chunk payload with
        | none => ([], some .malformed)
        | some chunk =>
          let told := streamChunk st chunk
          let rest := streamEvents reader fault told.2 lines
          (told.1 ++ rest.1, rest.2)

/-! ## The request -/

/-- A response: its body arrives line by line, and then ends or raises. -/
structure Response where
  statusCode : Nat
  retryAfter : Option String := none
  lines : List String := []
  fault : Option Fault := none

/-- What the endpoint does with a request. -/
inductive Endpoint
  | fails (fault : Fault)
  | responds (response : Response)

/-- The code of an HTTP status of 400 or more. -/
def statusError (status : Nat) : ProviderErrorCode :=
  if status = 400 ∨ status = 404 ∨ status = 422 then .invalidRequest
  else if status = 408 then .timeout
  else if status = 401 ∨ status = 403 then .auth
  else if status = 429 then .rateLimited
  else if 500 ≤ status then .providerInternal
  else .transport

/-- `float(retry_after) if retry_after and retry_after.isdigit() else None`. -/
def retrySeconds (reader : Reader) (retryAfter : Option String) : Except Fault (Option Rat) :=
  match retryAfter with
  | none => .ok none
  | some header =>
    if header ≠ "" ∧ reader.isDigit header then
      match reader.float header with
      | some seconds => .ok (some seconds)
      | none => .error .malformed
    else .ok none

/-- `_http_failure`: its code, and the seconds to wait. -/
def httpFailure (reader : Reader) (response : Response) : Except Fault (ProviderErrorCode × Option Rat) := do
  let seconds ← retrySeconds reader response.retryAfter
  match response.fault with
  | some fault => throw fault
  | none => return (statusError response.statusCode, seconds)

/-- What a request is sent with. A port is absent, or does its work, or raises. -/
structure AdapterConfig where
  name : String
  external : Bool
  /-- The owner of the credential that is referred to. -/
  credentialOwner : Option (Option Uuid) := none
  disclosure : Option (Except Fault Unit) := none
  credentials : Option (Except Fault Unit) := none

/-- `_headers`, but for their text. -/
def headers (config : AdapterConfig) (actorUserId : Uuid) : Except Fault Unit := do
  if config.external then
    match config.disclosure with
    | none => throw (.provider .policyDenied)
    | some recorded => recorded
  match config.credentialOwner with
  | none => return
  | some owner =>
    match config.credentials with
    | none => throw (.provider .auth)
    | some secret =>
      if owner ≠ none ∧ owner ≠ some actorUserId then throw (.provider .policyDenied)
      secret

/-- `_dispatch`. -/
def dispatchEvents (reader : Reader) (config : AdapterConfig) (actorUserId : Uuid) (endpoint : Endpoint) :
    List ProviderEvent × Option Fault :=
  match headers config actorUserId, endpoint with
  | .error fault, _ => ([], some fault)
  | .ok _, .fails fault => ([], some fault)
  | .ok _, .responds response =>
    if 400 ≤ response.statusCode then
      match httpFailure reader response with
      | .ok (code, seconds) => ([.failed 2 code code.retryable seconds], none)
      | .error fault => ([], some fault)
    else streamEvents reader response.fault {} response.lines

/-- The handlers of `chat`. -/
def handled : Fault → List ProviderEvent
  | .provider code => [.failed 2 code code.retryable none]
  | .timeout => [.failed 2 .timeout true none]
  | .transport => [.failed 2 .transport true none]
  | .malformed => [.failed 2 .malformedResponse false none]
  | .cancelled => [.cancelled 2]
  | .uncaught => []

/-- `OpenAICompatibleAdapter.chat`. -/
def chat (reader : Reader) (config : AdapterConfig) (actorUserId : Uuid) (endpoint : Endpoint) : List ProviderEvent :=
  let told := dispatchEvents reader config actorUserId endpoint
  .accepted 1 config.name :: told.1 ++ told.2.elim [] handled

/-! ## The protocol -/

/-- How the reading of the lines stops. -/
inductive Stop
  | done
  | malformed
  | exhausted
  deriving DecidableEq

/-- The chunks that are read from the lines, and how the reading stops. -/
def readChunks (reader : Reader) : List String → List ChatChunkPayload × Stop
  | [] => ([], .exhausted)
  | line :: lines =>
    match payload? line with
    | none => readChunks reader lines
    | some payload =>
      if payload = "[DONE]" then ([], .done)
      else
        match reader.chunk payload with
        | none => ([], .malformed)
        | some chunk => (chunk :: (readChunks reader lines).1, (readChunks reader lines).2)

/-- The choices that are read. -/
def choicesOf (chunks : List ChatChunkPayload) : List ChoicePayload := chunks.flatMap (·.choices)

/-- The texts, one after the other. -/
def concat (texts : List String) : List Char := texts.flatMap (·.toList)

/-- The content fields that are received. -/
def received (reader : Reader) (lines : List String) : List String :=
  (choicesOf (readChunks reader lines).1).filterMap (·.content)

/-- The endpoint sent `[DONE]` or a finish reason. -/
def SentEnd (reader : Reader) (lines : List String) : Prop :=
  ∃ line ∈ lines, ∃ payload, payload? line = some payload ∧
    (payload = "[DONE]" ∨ ∃ chunk, reader.chunk payload = some chunk ∧ ∃ choice ∈ chunk.choices,
      choice.finishReason.isSome = true)

/-- The text of a delta that is not of the reasoning. -/
def visibleText? : ProviderEvent → Option String
  | .delta _ text false => some text
  | _ => none

/-- The events that a stream of these lines may be told with. -/
structure Protocol (name : String) (reader : Reader) (lines : List String) (events : List ProviderEvent) : Prop where
  accepted : events.head? = some (.accepted 1 name)
  increasing : (events.map (·.seq)).Pairwise (· < ·)
  ends : EndsOnce events
  usage : ∀ before seq reason after, events = before ++ .completed seq reason :: after →
    ∃ earlier seq' input output, before = earlier ++ [.usage seq' input output]
  completed : ∀ seq reason, .completed seq reason ∈ events → SentEnd reader lines
  texts : concat (events.filterMap visibleText?) = concat (received reader lines)

/-- The lines of the stream, where there is one. -/
def streamLines (config : AdapterConfig) (actorUserId : Uuid) : Endpoint → List String
  | .fails _ => []
  | .responds response =>
    match headers config actorUserId with
    | .error _ => []
    | .ok _ => if 400 ≤ response.statusCode then [] else response.lines

/-! ## Reading and telling -/

/-- The events of the chunks. -/
def streamChunks (st : StreamState) : List ChatChunkPayload → List ProviderEvent × StreamState
  | [] => ([], st)
  | chunk :: chunks =>
    let told := streamChunk st chunk
    let rest := streamChunks told.2 chunks
    (told.1 ++ rest.1, rest.2)

/-- What is told once the reading has stopped. -/
def afterChunks (fault : Option Fault) (st : StreamState) : Stop → List ProviderEvent × Option Fault
  | .done => (closeStream st, none)
  | .malformed => ([], some .malformed)
  | .exhausted =>
    match fault with
    | some fault => ([], some fault)
    | none => (closeStream st, none)

/-- The stream is told chunk by chunk, and then by how the reading stops. -/
theorem streamEvents_eq (reader : Reader) (fault : Option Fault) (st : StreamState) (lines : List String) :
    streamEvents reader fault st lines =
      ((streamChunks st (readChunks reader lines).1).1 ++
          (afterChunks fault (streamChunks st (readChunks reader lines).1).2 (readChunks reader lines).2).1,
        (afterChunks fault (streamChunks st (readChunks reader lines).1).2 (readChunks reader lines).2).2) := by
  induction lines generalizing st with
  | nil => cases fault <;> rfl
  | cons line lines ih =>
    simp only [streamEvents, readChunks]
    split
    · exact ih st
    · split
      · rfl
      · split
        · rfl
        · simp only [streamChunks, ih, List.append_assoc]

/-- What telling adds: deltas that are numbered on, with the contents as their texts. -/
structure Tells (st : StreamState) (choices : List ChoicePayload) (told : List ProviderEvent × StreamState) : Prop where
  seqs : told.1.map (·.seq) = List.range' st.seq told.1.length
  next : told.2.seq = st.seq + told.1.length
  deltas : ∀ e ∈ told.1, e.isDelta = true
  texts : concat (told.1.filterMap visibleText?) = concat (choices.filterMap (·.content))
  reason : (∀ choice ∈ choices, choice.finishReason = none) → told.2.finishReason = st.finishReason
  silent : told.1 = [] ↔ ∀ choice ∈ choices, choice.content.getD "" = "" ∧ choice.reasoningContent.getD "" = ""

theorem Tells.append {st : StreamState} {choices more : List ChoicePayload}
    {told rest : List ProviderEvent × StreamState} (h : Tells st choices told) (hrest : Tells told.2 more rest) :
    Tells st (choices ++ more) (told.1 ++ rest.1, rest.2) where
  seqs := by
    rw [List.map_append, h.seqs, hrest.seqs, h.next, List.length_append, ← List.range'_append_1]
  next := by rw [hrest.next, h.next, List.length_append, Nat.add_assoc]
  deltas := fun e he => (List.mem_append.1 he).elim (h.deltas e) (hrest.deltas e)
  texts := by
    simp only [List.filterMap_append, concat, List.flatMap_append]
    exact congrArg₂ (· ++ ·) h.texts hrest.texts
  reason := fun hnone => by
    rw [hrest.reason fun choice hc => hnone choice (List.mem_append_right _ hc),
      h.reason fun choice hc => hnone choice (List.mem_append_left _ hc)]
  silent := by
    rw [List.append_eq_nil_iff, h.silent, hrest.silent]
    exact List.forall_mem_append.symm

theorem tells_nil {st : StreamState} : Tells st [] ([], st) :=
  ⟨rfl, rfl, by simp, rfl, fun _ => rfl, by simp⟩

theorem deltaOf_cases (seq : Nat) (text : Option String) (reasoning : Bool) :
    deltaOf seq text reasoning = [] ∧ text.getD "" = "" ∨
      ∃ t, deltaOf seq text reasoning = [.delta seq t reasoning] ∧ text = some t ∧ t ≠ "" := by
  cases text with
  | none => exact .inl ⟨rfl, rfl⟩
  | some t =>
    by_cases ht : t = ""
    · exact .inl ⟨by rw [deltaOf, if_pos ht], ht⟩
    · exact .inr ⟨t, by rw [deltaOf, if_neg ht], rfl, ht⟩

theorem concat_content {text : Option String} (h : text.getD "" = "") : concat text.toList = [] := by
  cases text with
  | none => rfl
  | some t =>
    obtain rfl : t = "" := h
    rfl

/-- The deltas of one choice. -/
theorem choiceDeltas_spec (choice : ChoicePayload) (seq : Nat) :
    (choiceDeltas choice seq).map (·.seq) = List.range' seq (choiceDeltas choice seq).length ∧
      (∀ e ∈ choiceDeltas choice seq, e.isDelta = true) ∧
      concat ((choiceDeltas choice seq).filterMap visibleText?) = concat choice.content.toList ∧
      (choiceDeltas choice seq = [] ↔ choice.content.getD "" = "" ∧ choice.reasoningContent.getD "" = "") := by
  rcases deltaOf_cases seq choice.reasoningContent true with ⟨hr, hr'⟩ | ⟨r, hr, hr', hrne⟩
  · rcases deltaOf_cases seq choice.content false with ⟨hc, hc'⟩ | ⟨t, hc, hc', htne⟩
    · have hdeltas : choiceDeltas choice seq = [] := by simp [choiceDeltas, hr, hc]
      rw [hdeltas]
      exact ⟨rfl, by simp, (concat_content hc').symm, by simp [hr', hc']⟩
    · have hdeltas : choiceDeltas choice seq = [.delta seq t false] := by simp [choiceDeltas, hr, hc]
      rw [hdeltas, hc']
      exact ⟨rfl, by simp [ProviderEvent.isDelta], rfl, by simp [htne]⟩
  · rcases deltaOf_cases (seq + 1) choice.content false with ⟨hc, hc'⟩ | ⟨t, hc, hc', htne⟩
    · have hdeltas : choiceDeltas choice seq = [.delta seq r true] := by simp [choiceDeltas, hr, hc]
      rw [hdeltas]
      exact ⟨rfl, by simp [ProviderEvent.isDelta], (concat_content hc').symm, by simp [hr', hrne]⟩
    · have hdeltas : choiceDeltas choice seq = [.delta seq r true, .delta (seq + 1) t false] := by
        simp [choiceDeltas, hr, hc]
      rw [hdeltas, hc']
      exact ⟨rfl, by simp [ProviderEvent.isDelta], rfl, by simp [htne]⟩

theorem tells_choice (st : StreamState) (choice : ChoicePayload) :
    Tells st [choice] (choiceDeltas choice st.seq,
      { st with
        seq := st.seq + (choiceDeltas choice st.seq).length
        finishReason := nextReason choice st.finishReason }) := by
  obtain ⟨hseqs, hdeltas, htexts, hsilent⟩ := choiceDeltas_spec choice st.seq
  refine ⟨hseqs, rfl, hdeltas, ?_, fun hnone => ?_, by simpa using hsilent⟩
  · rw [htexts]
    cases hc : choice.content <;> simp [hc]
  · simp [nextReason, hnone choice List.mem_cons_self]

theorem tells_choices (st : StreamState) (choices : List ChoicePayload) :
    Tells st choices (streamChoices st choices) := by
  induction choices generalizing st with
  | nil => exact tells_nil
  | cons choice choices ih => exact (tells_choice st choice).append (ih _)

/-- **What the chunks are told as.** -/
theorem tells_chunks (st : StreamState) (chunks : List ChatChunkPayload) :
    Tells st (choicesOf chunks) (streamChunks st chunks) := by
  induction chunks generalizing st with
  | nil => exact tells_nil
  | cons chunk chunks ih =>
    have hchunk : Tells st chunk.choices (streamChunk st chunk) := by
      obtain ⟨hseqs, hnext, hdeltas, htexts, hreason, hsilent⟩ :=
        tells_choices { st with usage := chunk.usage.getD st.usage } chunk.choices
      exact ⟨hseqs, hnext, hdeltas, htexts, hreason, hsilent⟩
    exact hchunk.append (ih _)

/-! ## The condition -/

/-- No choice that is read has a text. -/
def Silent (chunks : List ChatChunkPayload) : Prop :=
  ∀ choice ∈ choicesOf chunks, choice.content.getD "" = "" ∧ choice.reasoningContent.getD "" = ""

/-- The stream ends with `[DONE]`, or by itself after a finish reason, or is broken off before any text, by an error
that is handled. -/
def OrderlyStream (reader : Reader) (response : Response) : Prop :=
  match (readChunks reader response.lines).2, response.fault with
  | .done, _ => True
  | .malformed, _ => Silent (readChunks reader response.lines).1
  | .exhausted, some fault => fault ≠ .uncaught ∧ Silent (readChunks reader response.lines).1
  | .exhausted, none => SentEnd reader response.lines

/-- **Nothing is raised that is not handled, and a stream is orderly.** -/
def Orderly (reader : Reader) (config : AdapterConfig) (actorUserId : Uuid) (endpoint : Endpoint) : Prop :=
  match headers config actorUserId, endpoint with
  | .error fault, _ => fault ≠ .uncaught
  | .ok _, .fails fault => fault ≠ .uncaught
  | .ok _, .responds response =>
    if 400 ≤ response.statusCode then httpFailure reader response ≠ .error .uncaught
    else OrderlyStream reader response

section

variable {name : String} {reader : Reader} {lines : List String} {events : List ProviderEvent}

/-- A failure that is told at once. -/
theorem protocol_of_failure {e : ProviderEvent} (hterminal : e.isTerminal = true) (hseq : e.seq = 2)
    (hcompleted : ∀ seq reason, e ≠ .completed seq reason) (htexts : concat (received reader lines) = []) :
    Protocol name reader lines [.accepted 1 name, e] := by
  have hno (seq : Nat) (reason : String) : .completed seq reason ∉ [.accepted 1 name, e] := by
    intro hmem
    simp only [List.mem_cons, List.not_mem_nil, or_false] at hmem
    rcases hmem with hmem | hmem
    · cases hmem
    · exact hcompleted seq reason hmem.symm
  refine ⟨rfl, ?_, ?_, fun before seq reason after heq => ?_, fun seq reason hmem => absurd hmem (hno seq reason), ?_⟩
  · show [1, e.seq].Pairwise (· < ·)
    rw [hseq]
    decide
  · exact ⟨[.accepted 1 name], e, rfl, hterminal, by simp [ProviderEvent.isTerminal]⟩
  · exact absurd (heq ▸ by simp) (hno seq reason)
  · rw [htexts]
    cases e <;> first | rfl | cases hterminal

theorem handled_eq {fault : Fault} (h : fault ≠ .uncaught) :
    ∃ e, handled fault = [e] ∧ e.isTerminal = true ∧ e.seq = 2 ∧ ∀ seq reason, e ≠ .completed seq reason := by
  cases fault with
  | uncaught => exact absurd rfl h
  | _ => exact ⟨_, rfl, rfl, rfl, fun _ _ heq => by cases heq⟩

/-- What is not terminal is no end. -/
theorem not_protocol_of_open (h : ∀ e ∈ events, e.isTerminal = false) : ¬ Protocol name reader lines events :=
  fun hp => not_endsOnce h hp.ends

/-- A failure told with number 2 after a delta. -/
theorem not_protocol_of_broken {told : List ProviderEvent} {e : ProviderEvent} (hne : told ≠ [])
    (hseqs : told.map (·.seq) = List.range' 2 told.length) (hseq : e.seq = 2) :
    ¬ Protocol name reader lines (.accepted 1 name :: (told ++ [e])) := by
  intro hp
  obtain ⟨first, rest, rfl⟩ := List.exists_cons_of_ne_nil hne
  have hfirst : first.seq = 2 := by
    simp only [List.map_cons, List.length_cons, List.range'_succ, List.cons.injEq] at hseqs
    exact hseqs.1
  have hlt := hp.increasing
  simp only [List.map_cons, List.cons_append, List.map_append, List.map_nil, List.pairwise_cons] at hlt
  have hbad := hlt.2.1 e.seq (by simp)
  omega

/-- A stream is closed by its terminal event; a completion comes after the usage. -/
theorem closeStream_spec (st : StreamState) : ∃ before last, closeStream st = before ++ [last] ∧
    (∀ e ∈ before, e.isTerminal = false) ∧ last.isTerminal = true ∧ (closeStream st).filterMap visibleText? = [] ∧
    ∀ seq reason, last = .completed seq reason → ∃ seq' input output, before = [.usage seq' input output] := by
  rw [closeStream]
  split
  · exact ⟨[], _, rfl, by simp, rfl, rfl, fun _ _ heq => by cases heq⟩
  · exact ⟨[_], _, rfl, by simp [ProviderEvent.isTerminal], rfl, rfl, fun _ _ _ => ⟨_, _, _, rfl⟩⟩

theorem closeStream_seqs (st : StreamState) :
    (closeStream st).map (·.seq) = List.range' st.seq (closeStream st).length := by
  rw [closeStream]
  split <;> rfl

theorem Tells.closed_seqs {st : StreamState} {choices : List ChoicePayload} {told : List ProviderEvent × StreamState}
    (h : Tells st choices told) : (told.1 ++ closeStream told.2).map (·.seq) =
      List.range' st.seq (told.1 ++ closeStream told.2).length := by
  rw [List.map_append, h.seqs, closeStream_seqs, h.next, List.length_append, ← List.range'_append_1]

/-- A stream that is told to its end. -/
theorem protocol_of_closed {choices : List ChoicePayload} {told : List ProviderEvent × StreamState}
    (h : Tells {} choices told) (hread : received reader lines = choices.filterMap (·.content))
    (hsent : SentEnd reader lines) :
    Protocol name reader lines (.accepted 1 name :: (told.1 ++ closeStream told.2)) := by
  obtain ⟨before, last, hclose, hbefore, hlast, hsilent, husage⟩ := closeStream_spec told.2
  have hopen : ∀ e ∈ .accepted 1 name :: (told.1 ++ before), e.isTerminal = false := by
    intro e he
    rcases List.mem_cons.1 he with rfl | he
    · rfl
    rcases List.mem_append.1 he with he | he
    · have hd := h.deltas e he
      cases e <;> first | rfl | cases hd
    · exact hbefore e he
  have hsplit : .accepted 1 name :: (told.1 ++ closeStream told.2) =
      (.accepted 1 name :: (told.1 ++ before)) ++ [last] := by
    simp [hclose]
  refine ⟨rfl, ?_, ⟨_, last, hsplit, hlast, hopen⟩, fun earlier seq reason after heq => ?_, fun _ _ _ => hsent, ?_⟩
  · rw [List.map_cons, h.closed_seqs]
    exact List.pairwise_lt_range' (s := 1) (n := (told.1 ++ closeStream told.2).length + 1)
  · obtain ⟨rfl, hcompleted⟩ := last_of_terminal hopen rfl (hsplit.symm.trans heq)
    obtain ⟨seq', input, output, rfl⟩ := husage seq reason hcompleted.symm
    exact ⟨.accepted 1 name :: told.1, seq', input, output, rfl⟩
  · rw [hread, ← h.texts, List.filterMap_cons_none rfl, List.filterMap_append, hsilent, List.append_nil]

end

/-! ## The theorem -/

section

variable {reader : Reader} {lines : List String}

theorem SentEnd.later {line : String} (h : SentEnd reader lines) : SentEnd reader (line :: lines) := by
  obtain ⟨other, hother, hsent⟩ := h
  exact ⟨other, List.mem_cons_of_mem _ hother, hsent⟩

theorem sentEnd_of_done (h : (readChunks reader lines).2 = .done) : SentEnd reader lines := by
  induction lines with
  | nil => cases h
  | cons line lines ih =>
    simp only [readChunks] at h
    split at h
    · exact (ih h).later
    · next payload hpayload =>
      split at h
      · next hdone => exact ⟨line, List.mem_cons_self, payload, hpayload, .inl hdone⟩
      · split at h
        · cases h
        · exact (ih h).later

theorem sentEnd_of_choice {choice : ChoicePayload} (hchoice : choice ∈ choicesOf (readChunks reader lines).1)
    (hreason : choice.finishReason.isSome = true) : SentEnd reader lines := by
  induction lines with
  | nil => cases hchoice
  | cons line lines ih =>
    simp only [readChunks] at hchoice
    split at hchoice
    · exact (ih hchoice).later
    · next payload hpayload =>
      split at hchoice
      · cases hchoice
      · split at hchoice
        · cases hchoice
        · next chunk hchunk =>
          rcases List.mem_append.1 hchoice with hchoice | hchoice
          · exact ⟨line, List.mem_cons_self, payload, hpayload, .inr ⟨chunk, hchunk, choice, hchoice, hreason⟩⟩
          · exact (ih hchoice).later

/-- A stream that just ends without a sign of its end is told as completed. -/
theorem completed_of_unsent {told : List ProviderEvent × StreamState} {chunks : List ChatChunkPayload}
    (h : Tells {} (choicesOf chunks) told)
    (hunsent : ∀ choice ∈ choicesOf chunks, choice.finishReason.isSome = false) :
    ∃ seq, .completed seq "stop" ∈ closeStream told.2 := by
  have hreason := h.reason fun choice hc => by simpa using hunsent choice hc
  rw [closeStream, hreason]
  exact ⟨told.2.seq + 1, by simp⟩

/-- The events of a stream, by how its reading stops. -/
theorem stream_protocol_iff {name : String} {response : Response} :
    Protocol name reader response.lines
        (.accepted 1 name :: (streamEvents reader response.fault {} response.lines).1 ++
          (streamEvents reader response.fault {} response.lines).2.elim [] handled) ↔
      OrderlyStream reader response := by
  rw [streamEvents_eq, OrderlyStream]
  have htells := tells_chunks {} (readChunks reader response.lines).1
  generalize htold : streamChunks {} (readChunks reader response.lines).1 = told at htells ⊢
  have hopen : ∀ e ∈ .accepted 1 name :: told.1, e.isTerminal = false := by
    intro e he
    rcases List.mem_cons.1 he with rfl | he
    · rfl
    · have hd := htells.deltas e he
      cases e <;> first | rfl | cases hd
  have hbroken (fault : Fault) : Protocol name reader response.lines (.accepted 1 name :: told.1 ++ handled fault) ↔
      fault ≠ .uncaught ∧ Silent (readChunks reader response.lines).1 := by
    by_cases huncaught : fault = .uncaught
    · subst huncaught
      refine ⟨fun hp => absurd hp (not_protocol_of_open ?_), fun h => absurd rfl h.1⟩
      simpa only [handled, List.append_nil] using hopen
    · obtain ⟨e, heq, hterminal, hseq, hcompleted⟩ := handled_eq huncaught
      rw [heq]
      by_cases htold : told.1 = []
      · have htexts : concat (received reader response.lines) = [] := htells.texts.symm.trans (by rw [htold]; rfl)
        rw [htold]
        exact ⟨fun _ => ⟨huncaught, htells.silent.1 htold⟩,
          fun _ => protocol_of_failure hterminal hseq hcompleted htexts⟩
      · exact ⟨fun hp => absurd hp (not_protocol_of_broken htold htells.seqs hseq),
          fun h => absurd (htells.silent.2 h.2) htold⟩
  have hclosed (hsent : SentEnd reader response.lines) :
      Protocol name reader response.lines (.accepted 1 name :: (told.1 ++ closeStream told.2) ++ []) := by
    rw [List.append_nil]
    exact protocol_of_closed htells rfl hsent
  cases hstop : (readChunks reader response.lines).2 with
  | done => exact ⟨fun _ => trivial, fun _ => hclosed (sentEnd_of_done hstop)⟩
  | malformed =>
    simp only [afterChunks, List.append_nil, Option.elim_some]
    rw [hbroken]
    simp
  | exhausted =>
    cases hfault : response.fault with
    | some fault =>
      simp only [afterChunks, List.append_nil, Option.elim_some]
      exact hbroken fault
    | none =>
      refine ⟨fun hp => ?_, hclosed⟩
      by_contra hunsent
      obtain ⟨seq, hcompleted⟩ := completed_of_unsent htells fun choice hchoice =>
        Bool.eq_false_iff.2 fun hreason => hunsent (sentEnd_of_choice hchoice hreason)
      exact hunsent (hp.completed seq "stop" (by simp [afterChunks, hcompleted]))

/-- What is told of a fault before any stream. -/
theorem fault_protocol_iff {name : String} {fault : Fault} :
    Protocol name reader [] (.accepted 1 name :: handled fault) ↔ fault ≠ .uncaught := by
  by_cases huncaught : fault = .uncaught
  · subst huncaught
    refine ⟨fun hp => absurd hp (not_protocol_of_open ?_), fun h => absurd rfl h⟩
    simp [handled, ProviderEvent.isTerminal]
  · obtain ⟨e, heq, hterminal, hseq, hcompleted⟩ := handled_eq huncaught
    rw [heq]
    exact ⟨fun _ => huncaught, fun _ => protocol_of_failure hterminal hseq hcompleted rfl⟩

end

/-- **The adapter obeys the protocol** exactly where nothing is raised that it does not handle, and a stream is
orderly. -/
theorem protocol_iff (reader : Reader) (config : AdapterConfig) (actorUserId : Uuid) (endpoint : Endpoint) :
    Protocol config.name reader (streamLines config actorUserId endpoint) (chat reader config actorUserId endpoint) ↔
      Orderly reader config actorUserId endpoint := by
  cases hheaders : headers config actorUserId with
  | error fault =>
    have hlines : streamLines config actorUserId endpoint = [] := by
      cases endpoint <;> simp [streamLines, hheaders]
    simp only [chat, dispatchEvents, Orderly, hheaders, hlines]
    exact fault_protocol_iff
  | ok u =>
    cases endpoint with
    | fails fault =>
      simp only [chat, dispatchEvents, Orderly, hheaders]
      exact fault_protocol_iff
    | responds response =>
      simp only [chat, dispatchEvents, Orderly, streamLines, hheaders]
      by_cases hstatus : 400 ≤ response.statusCode
      · simp only [if_pos hstatus]
        cases hfailure : httpFailure reader response with
        | error fault => simpa using fault_protocol_iff
        | ok failure =>
          refine ⟨fun _ => by simp, fun _ => ?_⟩
          exact protocol_of_failure rfl rfl (fun _ _ heq => by cases heq) rfl
      · simp only [if_neg hstatus]
        exact stream_protocol_iff

/-- A reader of two chunks. -/
def twoChunks : Reader where
  chunk payload := if payload = "rivers" then some { choices := [{ content := some "Rivers" }] } else none
  isDigit _ := false
  float _ := none

def localConfig : AdapterConfig where
  name := "llama.cpp local"
  external := false

/-- The connection is lost after a delta: the failure has its number. -/
theorem failure_after_delta : ¬ ∀ (reader : Reader) (config : AdapterConfig) (actorUserId : Uuid)
    (endpoint : Endpoint), Protocol config.name reader (streamLines config actorUserId endpoint)
      (chat reader config actorUserId endpoint) := by
  intro h
  have hp := (h twoChunks localConfig 1
    (.responds { statusCode := 200, lines := ["data: rivers"], fault := some .transport })).increasing
  have hevents : chat twoChunks localConfig 1
      (.responds { statusCode := 200, lines := ["data: rivers"], fault := some .transport }) =
      [.accepted 1 "llama.cpp local", .delta 2 "Rivers" false, .failed 2 .transport true none] := by decide +kernel
  rw [hevents] at hp
  exact absurd hp (by decide)

end MilpbookLM.Models
