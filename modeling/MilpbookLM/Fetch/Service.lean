/-
`HardenedFetchService.fetch`: the loop over redirects, with the server and the clock as a
script that says for each hop if the deadline has passed, what the client answers or raises,
what the body is, and what closing the response raises. However the script goes, requests are
few, each to a normalized URL, and what is returned is small and recorded as it was
(`fetch_bounded`). A `ValueError` of `urlsplit` or `urljoin`, and a URL that the client finds
invalid, are caught nowhere (`fetch_safe`).
-/
import MilpbookLM.Fetch.Urls

namespace MilpbookLM.Fetch

open Url

abbrev Bytes := List UInt8

/-! ## The client -/

inductive FetchErrorCode
  | unsupported | corrupt | tooLarge | timeout | policyBlocked | internal
  deriving DecidableEq

/-- What the HTTP client raises for a valid URL. -/
inductive ClientError
  /-- `SSRFBlockedError`. -/
  | ssrf (host reason : String)
  /-- `httpx.TimeoutException`. -/
  | timeoutException
  /-- `TimeoutError`. -/
  | timeoutError
  /-- Any other `httpx.HTTPError`, by the name of its type. -/
  | httpError (name : String)

/-- A response, with what reading it to its end and closing it raise. -/
structure Response where
  statusCode : Nat
  headers : List (Text × Text)
  chunks : List Bytes
  readError : Option ClientError := none
  closeError : Option ClientError := none

/-- `response.is_redirect`. -/
def Response.isRedirect (r : Response) : Bool := 300 ≤ r.statusCode && r.statusCode ≤ 399

/-- `response.headers.get(key)`: more than one value is one with commas. -/
def Response.header (r : Response) (key : String) : Option Text :=
  match (r.headers.filter fun h => h.1.map Char.toLower = key.toList).map (·.2) with
  | [] => none
  | values => some (joinWith ", ".toList values)

/-- One turn of the loop, as far as it is the world's. -/
structure Hop where
  late : Bool := false
  answer : Except ClientError Response

abbrev Script := Nat → Hop

/-! ## The service -/

structure FetchLimits where
  maxBytes : Nat := 10 * 1024 * 1024
  maxRedirects : Nat := 5
  allowedPorts : List Nat := allowedPorts

/-- What a service is made of, and what it runs on. -/
structure Service where
  limits : FetchLimits
  unicode : Unicode
  sha256 : Bytes → String
  /-- `datetime.now(UTC).isoformat()`. -/
  capturedAt : String
  /-- The client takes the text for a URL; it raises `InvalidURL` if not. -/
  validUrl : Text → Bool

structure WebFetchRecord where
  requestedUrl : Text
  finalUrl : Text
  capturedAt : String
  statusCode : Nat
  contentSha256 : String
  sizeBytes : Nat
  contentType : Text
  redirectChain : List Text

structure FetchedWebContent where
  body : Bytes
  record : WebFetchRecord
  headers : List (Text × Text)

/-- What is raised inside `fetch`. -/
inductive Raised
  /-- `WebFetchRefusedError`. -/
  | refused (code : FetchErrorCode) (detail : String)
  | client (e : ClientError)
  | valueError
  /-- `httpx.InvalidURL`, which is no `HTTPError`. -/
  | invalidUrl

/-- `_RECORDED_HEADERS`. -/
def recordedHeaders : List String := ["cache-control", "content-language", "content-type", "etag", "last-modified"]

/-- `_read_capped`, from `total` bytes on. -/
def readCapped (maxBytes : Nat) : Nat → Bytes → List Bytes → Except Raised Bytes
  | _, body, [] => .ok body
  | total, body, chunk :: chunks =>
    if total + chunk.length > maxBytes then
      .error (.refused .tooLarge s!"content exceeds {maxBytes} byte fetch limit")
    else readCapped maxBytes (total + chunk.length) (body ++ chunk) chunks

/-- `_normalize_target`. -/
def normalizeTarget (svc : Service) (url : Text) : Except Raised FetchTarget :=
  match normalizeUrl svc.unicode url svc.limits.allowedPorts with
  | .ok target => .ok target
  | .error (.policy detail) => .error (.refused .policyBlocked detail)
  | .error .valueError => .error .valueError

/-- `_recorded`. -/
def recorded (svc : Service) (requestedUrl finalUrl : Text) (chain : List Text) (response : Response) (body : Bytes) :
    FetchedWebContent where
  body := body
  record :=
    { requestedUrl, finalUrl
      capturedAt := svc.capturedAt
      statusCode := response.statusCode
      contentSha256 := svc.sha256 body
      sizeBytes := body.length
      contentType := (response.header "content-type").getD []
      redirectChain := chain }
  headers :=
    (response.headers.map fun h => (h.1.map Char.toLower, h.2)).filter fun h => String.ofList h.1 ∈ recordedHeaders

/-- What one response leads to. -/
inductive Outcome
  | redirect (target : FetchTarget)
  | body (body : Bytes)

/-- The `try` around a response. -/
def handle (svc : Service) (target : FetchTarget) (response : Response) : Except Raised Outcome :=
  match if response.isRedirect then response.header "location" else none with
  | some location =>
    match urljoin svc.unicode target.url location with
    | none => .error .valueError
    | some joined => (normalizeTarget svc joined).map .redirect
  | none =>
    if 400 ≤ response.statusCode then
      .error (.refused .internal s!"upstream returned HTTP {response.statusCode}")
    else
      match readCapped svc.limits.maxBytes 0 [] response.chunks, response.readError with
      | .error e, _ => .error e
      | .ok _, some e => .error (.client e)
      | .ok body, none => .ok (.body body)

/-- Its `finally`: what closing raises takes the place of what was raised. -/
def handleClosed (svc : Service) (target : FetchTarget) (response : Response) : Except Raised Outcome :=
  match response.closeError with
  | some e => .error (.client e)
  | none => handle svc target response

/-- The requests that were sent, and what came of them. -/
structure FetchRun where
  sent : List Text
  outcome : Except Raised FetchedWebContent

/-- The loop, from hop `k` on, with `left` turns to go. -/
def fetchHops (svc : Service) (script : Script) (url : Text) :
    (left k : Nat) → FetchTarget → (chain sent : List Text) → FetchRun
  | 0, _, _, _, sent => ⟨sent, .error (.refused .policyBlocked s!"exceeded {svc.limits.maxRedirects} redirects")⟩
  | left + 1, k, target, chain, sent =>
    if (script k).late then ⟨sent, .error (.refused .timeout "wall-clock fetch limit")⟩
    else if !svc.validUrl target.url then ⟨sent, .error .invalidUrl⟩
    else
      match (script k).answer with
      | .error e => ⟨sent ++ [target.url], .error (.client e)⟩
      | .ok response =>
        match handleClosed svc target response with
        | .error e => ⟨sent ++ [target.url], .error e⟩
        | .ok (.redirect next) => fetchHops svc script url left (k + 1) next (chain ++ [target.url]) (sent ++ [target.url])
        | .ok (.body body) => ⟨sent ++ [target.url], .ok (recorded svc url target.url chain response body)⟩

/-- The handlers around the loop. -/
def caught : Raised → Raised
  | .client (.ssrf host reason) => .refused .policyBlocked s!"destination {host} refused ({reason})"
  | .client .timeoutException => .refused .timeout "connect/read timeout"
  | .client .timeoutError => .refused .timeout "wall-clock fetch limit"
  | .client (.httpError name) => .refused .internal name
  | e => e

/-- `fetch`. -/
def fetch (svc : Service) (script : Script) (url : Text) : FetchRun :=
  match normalizeTarget svc url with
  | .error e => ⟨[], .error e⟩
  | .ok target =>
    let run := fetchHops svc script url (svc.limits.maxRedirects + 1) 0 target [] []
    ⟨run.sent, run.outcome.mapError caught⟩

/-! ## What holds of every run -/

variable (svc : Service) (script : Script) (url : Text)

/-- A URL that `normalize_url` produced. -/
def Normalized (sent : Text) : Prop :=
  ∃ raw target, normalizeUrl svc.unicode raw svc.limits.allowedPorts = .ok target ∧ sent = target.url

/-- What is returned is not too long, and its record says how it was come by. -/
structure Faithful (sent : List Text) (content : FetchedWebContent) : Prop where
  bounded : content.body.length ≤ svc.limits.maxBytes
  chain : content.record.redirectChain ++ [content.record.finalUrl] = sent
  hash : content.record.contentSha256 = svc.sha256 content.body

/-- Few requests, each to a normalized URL, and a faithful record of them. -/
structure Bounded (run : FetchRun) : Prop where
  few : run.sent.length ≤ svc.limits.maxRedirects + 1
  normalized : ∀ u ∈ run.sent, Normalized svc u
  content : ∀ c, run.outcome = .ok c → Faithful svc run.sent c

variable {svc script url}

theorem normalizeTarget_ok {raw : Text} {target : FetchTarget} (h : normalizeTarget svc raw = .ok target) :
    normalizeUrl svc.unicode raw svc.limits.allowedPorts = .ok target := by
  unfold normalizeTarget at h
  split at h
  · next heq =>
    cases h
    exact heq
  · cases h
  · cases h

/-- What is read stays below the cap. -/
theorem readCapped_length {maxBytes : Nat} : ∀ {chunks : List Bytes} {total : Nat} {start body : Bytes},
    readCapped maxBytes total start chunks = .ok body → start.length = total → total ≤ maxBytes →
      body.length ≤ maxBytes
  | [], total, start, body, h, hlen, hle => by
    cases h
    omega
  | chunk :: chunks, total, start, body, h, hlen, hle => by
    unfold readCapped at h
    split at h
    · cases h
    · exact readCapped_length h (by simp [hlen]) (by omega)

/-- What a response leads to. -/
theorem handleClosed_ok {target : FetchTarget} {response : Response} {outcome : Outcome}
    (h : handleClosed svc target response = .ok outcome) :
    (∃ next, outcome = .redirect next ∧ Normalized svc next.url) ∨
      ∃ body, outcome = .body body ∧ body.length ≤ svc.limits.maxBytes := by
  unfold handleClosed at h
  split at h
  · cases h
  unfold handle at h
  split at h
  · split at h
    · cases h
    · next joined _ =>
      cases hn : normalizeTarget svc joined with
      | error e => rw [hn] at h; cases h
      | ok next =>
        rw [hn] at h
        cases h
        exact .inl ⟨next, rfl, joined, next, normalizeTarget_ok hn, rfl⟩
  · split at h
    · cases h
    split at h
    · cases h
    · cases h
    · next body hread _ =>
      cases h
      exact .inr ⟨body, rfl, readCapped_length hread rfl (by omega)⟩

/-- The loop, from where the chain is what was sent. -/
theorem fetchHops_bounded {left k : Nat} {target : FetchTarget} {sent : List Text}
    (hlen : sent.length + left = svc.limits.maxRedirects + 1) (hsent : ∀ u ∈ sent, Normalized svc u)
    (htarget : Normalized svc target.url) : Bounded svc (fetchHops svc script url left k target sent sent) := by
  induction left generalizing k target sent with
  | zero => exact ⟨by simp only [fetchHops]; omega, hsent, fun _ hc => by cases hc⟩
  | succ left ih =>
    have hnext : ∀ u ∈ sent ++ [target.url], Normalized svc u := by
      intro u hu
      simp only [List.mem_append, List.mem_singleton] at hu
      rcases hu with hu | rfl
      · exact hsent u hu
      · exact htarget
    have hfew : (sent ++ [target.url]).length ≤ svc.limits.maxRedirects + 1 := by simp; omega
    unfold fetchHops
    split
    · exact ⟨by simp only; omega, hsent, fun _ hc => by cases hc⟩
    split
    · exact ⟨by simp only; omega, hsent, fun _ hc => by cases hc⟩
    split
    · exact ⟨hfew, hnext, fun _ hc => by cases hc⟩
    split
    · exact ⟨hfew, hnext, fun _ hc => by cases hc⟩
    · next next hok =>
      obtain ⟨_, heq, hnormal⟩ | ⟨_, heq, _⟩ := handleClosed_ok hok
      · cases heq
        exact ih (by simp; omega) hnext hnormal
      · cases heq
    · next body hok =>
      obtain ⟨_, heq, _⟩ | ⟨_, heq, hbody⟩ := handleClosed_ok hok
      · cases heq
      · cases heq
        refine ⟨hfew, hnext, fun c hc => ?_⟩
        cases hc
        exact ⟨hbody, rfl, rfl⟩

/-- **However the servers answer, requests are few and normalized, and what is returned is
bounded and recorded as it was.** -/
theorem fetch_bounded : Bounded svc (fetch svc script url) := by
  unfold fetch
  split
  · exact ⟨by simp, by simp, nofun⟩
  · next target htarget =>
    have hb : Bounded svc (fetchHops svc script url (svc.limits.maxRedirects + 1) 0 target [] []) :=
      fetchHops_bounded (by simp) (by simp) ⟨url, target, normalizeTarget_ok htarget, rfl⟩
    refine ⟨hb.few, hb.normalized, fun c hc => ?_⟩
    simp only at hc
    cases ho : (fetchHops svc script url (svc.limits.maxRedirects + 1) 0 target [] []).outcome with
    | error e => rw [ho] at hc; cases hc
    | ok c' =>
      rw [ho] at hc
      cases hc
      exact hb.content _ ho

/-! ## What escapes -/

/-- The targets that a fetch comes to, by the hop at which it does. -/
inductive Met (svc : Service) (script : Script) (url : Text) : Nat → FetchTarget → Prop
  | first {target} : normalizeTarget svc url = .ok target → Met svc script url 0 target
  | next {k target response target'} : Met svc script url k target → k ≤ svc.limits.maxRedirects →
      (script k).late = false → svc.validUrl target.url = true → (script k).answer = .ok response →
      handleClosed svc target response = .ok (.redirect target') → Met svc script url (k + 1) target'

/-- A text that `normalize_url` raises `ValueError` for: not too long, and `urlsplit` raises it. -/
def Malformed (svc : Service) (raw : Text) : Prop :=
  raw ≠ [] ∧ raw.length ≤ maxUrlLength ∧ urlsplit svc.unicode (strip raw) [] = none

/-- A redirect to a location that cannot be joined to the URL, or only to a malformed one. -/
def RedirectsBadly (svc : Service) (target : FetchTarget) (response : Response) : Prop :=
  response.closeError.isNone = true ∧ response.isRedirect = true ∧
    ∃ location, response.header "location" = some location ∧
      ((urljoin svc.unicode target.url location).isNone = true ∨
        ∃ joined, urljoin svc.unicode target.url location = some joined ∧ Malformed svc joined)

/-- No URL that the fetch comes to is malformed, and none that it requests is invalid. -/
structure WellFormed (svc : Service) (script : Script) (url : Text) : Prop where
  first : ¬Malformed svc url
  hops : ∀ k target, Met svc script url k target → k ≤ svc.limits.maxRedirects → (script k).late = false →
    svc.validUrl target.url = true ∧
      ∀ response, (script k).answer = .ok response → ¬RedirectsBadly svc target response

/-- What is raised is a typed refusal. -/
def Typed (run : FetchRun) : Prop := ∀ e, run.outcome = .error e → ∃ code detail, e = .refused code detail

theorem normalizeTarget_valueError {raw : Text} : normalizeTarget svc raw = .error .valueError ↔ Malformed svc raw := by
  rw [Malformed, ← @normalizeUrl_valueError _ _ svc.limits.allowedPorts]
  unfold normalizeTarget
  split <;> simp_all

theorem readCapped_refused {maxBytes : Nat} : ∀ {chunks : List Bytes} {total : Nat} {start : Bytes} {e : Raised},
    readCapped maxBytes total start chunks = .error e → ∃ code detail, e = .refused code detail
  | [], _, _, _, h => by cases h
  | chunk :: chunks, total, start, e, h => by
    unfold readCapped at h
    split at h
    · cases h
      exact ⟨_, _, rfl⟩
    · exact readCapped_refused h

/-- The location that a response redirects to. -/
theorem location_iff {response : Response} {location : Text} :
    (if response.isRedirect then response.header "location" else none) = some location ↔
      response.isRedirect = true ∧ response.header "location" = some location := by
  cases response.isRedirect <;> simp

theorem handle_valueError {target : FetchTarget} {response : Response} :
    handle svc target response = .error .valueError ↔
      response.isRedirect = true ∧ ∃ location, response.header "location" = some location ∧
        ((urljoin svc.unicode target.url location).isNone = true ∨
          ∃ joined, urljoin svc.unicode target.url location = some joined ∧ Malformed svc joined) := by
  unfold handle
  split
  · next location hlocation =>
    obtain ⟨hredirect, hheader⟩ := location_iff.1 hlocation
    simp only [hredirect, hheader, Option.some.injEq, true_and, exists_eq_left']
    cases hjoin : urljoin svc.unicode target.url location with
    | none => simp
    | some joined =>
      simp only [Option.isNone_some, Bool.false_eq_true, Option.some.injEq, exists_eq_left', false_or]
      rw [← normalizeTarget_valueError]
      cases normalizeTarget svc joined <;> simp [Except.map]
  · next hnone =>
    refine ⟨fun h => ?_, fun ⟨hr, location, hl, _⟩ => ?_⟩
    · split at h
      · cases h
      split at h
      · next hread =>
        obtain ⟨code, detail, rfl⟩ := readCapped_refused hread
        cases h
      · cases h
      · cases h
    · rw [location_iff.2 ⟨hr, hl⟩] at hnone
      cases hnone

theorem handleClosed_valueError {target : FetchTarget} {response : Response} :
    handleClosed svc target response = .error .valueError ↔ RedirectsBadly svc target response := by
  unfold handleClosed RedirectsBadly
  cases response.closeError with
  | some e => simp
  | none => simpa using handle_valueError

/-- What a response makes `fetch` raise is caught, unless it is a `ValueError`. -/
theorem caught_of_handleClosed {target : FetchTarget} {response : Response} {e : Raised}
    (h : handleClosed svc target response = .error e) (hne : e ≠ .valueError) :
    ∃ code detail, caught e = .refused code detail := by
  have hclient : ∀ c : ClientError, ∃ code detail, caught (.client c) = .refused code detail := by
    intro c
    cases c <;> exact ⟨_, _, rfl⟩
  unfold handleClosed at h
  split at h
  · cases h
    exact hclient _
  unfold handle at h
  split at h
  · split at h
    · cases h
      exact absurd rfl hne
    · next joined _ =>
      unfold normalizeTarget at h
      split at h
      · cases h
      · cases h
        exact ⟨_, _, rfl⟩
      · cases h
        exact absurd rfl hne
  · split at h
    · cases h
      exact ⟨_, _, rfl⟩
    split at h
    · next hread =>
      obtain ⟨code, detail, rfl⟩ := readCapped_refused hread
      cases h
      exact ⟨_, _, rfl⟩
    · cases h
      exact hclient _
    · cases h

/-- A fetch that comes to a target at hop `k` goes on from there. -/
theorem Met.reached {k target} (h : Met svc script url k target) (hk : k ≤ svc.limits.maxRedirects + 1) :
    ∃ sent, fetch svc script url =
      let run := fetchHops svc script url (svc.limits.maxRedirects + 1 - k) k target sent sent
      ⟨run.sent, run.outcome.mapError caught⟩ := by
  induction h with
  | first htarget => exact ⟨[], by rw [fetch, htarget]; rfl⟩
  | @next k target response target' _ hle hlate hvalid hanswer hredirect ih =>
    obtain ⟨sent, hsent⟩ := ih (by omega)
    refine ⟨sent ++ [target.url], ?_⟩
    have hleft : svc.limits.maxRedirects + 1 - k = svc.limits.maxRedirects + 1 - (k + 1) + 1 := by omega
    rw [hsent, hleft, fetchHops, hlate, hvalid, hanswer]
    simp only [Bool.false_eq_true, if_false, Bool.not_true, hredirect]

/-- Of well-formed URLs, the loop raises what is caught. -/
theorem fetchHops_typed (hwell : WellFormed svc script url) :
    ∀ {left k : Nat} {target : FetchTarget} {chain sent : List Text},
      k + left = svc.limits.maxRedirects + 1 → Met svc script url k target →
        ∀ e, (fetchHops svc script url left k target chain sent).outcome = .error e →
          ∃ code detail, caught e = .refused code detail
  | 0, k, target, chain, sent, _, _, e, h => by
    cases h
    exact ⟨_, _, rfl⟩
  | left + 1, k, target, chain, sent, hlen, hmet, e, h => by
    have hle : k ≤ svc.limits.maxRedirects := by omega
    unfold fetchHops at h
    split at h
    · cases h
      exact ⟨_, _, rfl⟩
    next hlate =>
    have hlate : (script k).late = false := by simpa using hlate
    obtain ⟨hvalid, hgood⟩ := hwell.hops k target hmet hle hlate
    rw [if_neg (by simp [hvalid])] at h
    split at h
    · next c _ =>
      cases h
      cases c <;> exact ⟨_, _, rfl⟩
    next response hanswer =>
    split at h
    · next e' he' =>
      cases h
      refine caught_of_handleClosed he' ?_
      rintro rfl
      exact hgood response hanswer (handleClosed_valueError.1 he')
    · next next hok => exact fetchHops_typed hwell (by omega) (.next hmet hle hlate hvalid hanswer hok) e h
    · cases h

/-- **A fetch is bounded and faithful and raises only typed refusals if and only if no URL
that it comes to is malformed or invalid.** -/
theorem fetch_safe (svc : Service) (script : Script) (url : Text) :
    Bounded svc (fetch svc script url) ∧ Typed (fetch svc script url) ↔ WellFormed svc script url := by
  constructor
  · rintro ⟨-, htyped⟩
    refine ⟨fun hbad => ?_, fun k target hmet hle hlate => ?_⟩
    · have hraise : (fetch svc script url).outcome = .error .valueError := by
        rw [fetch, normalizeTarget_valueError.2 hbad]
      obtain ⟨code, detail, he⟩ := htyped _ hraise
      cases he
    · obtain ⟨sent, hsent⟩ := hmet.reached (by omega)
      have hleft : svc.limits.maxRedirects + 1 - k = svc.limits.maxRedirects - k + 1 := by omega
      rw [hleft, fetchHops, hlate] at hsent
      simp only [Bool.false_eq_true, if_false] at hsent
      by_cases hvalid : svc.validUrl target.url = true
      · refine ⟨hvalid, fun response hanswer hbad => ?_⟩
        rw [if_neg (by simp [hvalid]), hanswer] at hsent
        simp only [handleClosed_valueError.2 hbad] at hsent
        obtain ⟨code, detail, he⟩ := htyped .valueError (by rw [hsent]; rfl)
        cases he
      · rw [if_pos (by simp [hvalid])] at hsent
        obtain ⟨code, detail, he⟩ := htyped .invalidUrl (by rw [hsent]; rfl)
        cases he
  · intro hwell
    refine ⟨fetch_bounded, fun e he => ?_⟩
    unfold fetch at he
    split at he
    · next e' htarget =>
      cases he
      unfold normalizeTarget at htarget
      split at htarget
      · cases htarget
      · cases htarget
        exact ⟨_, _, rfl⟩
      · next hvalue => exact absurd (normalizeUrl_valueError.1 hvalue) hwell.first
    · next target htarget =>
      simp only at he
      cases ho : (fetchHops svc script url (svc.limits.maxRedirects + 1) 0 target [] []).outcome with
      | ok c => rw [ho] at he; cases he
      | error e' =>
        rw [ho] at he
        cases he
        exact fetchHops_typed hwell (by omega) (.first htarget) e' ho

/-- A service for text in ASCII. -/
def asciiService : Service where
  limits := {}
  unicode := ⟨id, fun t => t.map Char.toLower, some⟩
  sha256 := fun _ => ""
  capturedAt := ""
  validUrl := fun _ => true

/-- A bracket that is not closed makes `fetch` raise `ValueError`. -/
theorem bracket_escapes : ¬∀ svc script url, Bounded svc (fetch svc script url) ∧ Typed (fetch svc script url) := by
  intro h
  have hmalformed : Malformed asciiService "http://[".toList := ⟨by decide, by decide, rfl⟩
  have hraise : (fetch asciiService (fun _ => ⟨false, .error .timeoutError⟩) "http://[".toList).outcome =
      .error .valueError := by
    rw [fetch, normalizeTarget_valueError.2 hmalformed]
  obtain ⟨code, detail, he⟩ := (h _ _ _).2 _ hraise
  cases he

end MilpbookLM.Fetch
