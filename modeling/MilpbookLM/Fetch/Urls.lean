/-
The URL policy of the fetch path, `normalize_url`. It refuses URLs with a policy error, except
where `urlsplit` raises, which it does not catch.
-/
import MilpbookLM.Lib.Urllib
import MilpbookLM.Base.Text

namespace MilpbookLM.Fetch

open Url

def allowedSchemes : List String := ["http", "https"]

def allowedPorts : List Nat := [80, 443]

/-- `_DEFAULT_PORTS`, of an allowed scheme. -/
def defaultPort (scheme : String) : Nat := if scheme = "https" then 443 else 80

def maxUrlLength : Nat := 2048

def maxHostLength : Nat := 253

/-- What `normalize_url` raises. -/
inductive UrlError
  /-- `FetchPolicyError`. -/
  | policy (detail : String)
  | valueError
  deriving DecidableEq

structure FetchTarget where
  scheme : String
  host : Text
  port : Nat
  url : Text

/-- A letter or a digit of `_HOST_LABEL`. -/
def labelChar (c : Char) : Bool := c.isLower || c.isDigit

/-- `[a-z0-9](?:[a-z0-9-]{0,61}[a-z0-9])?`. -/
def hostLabel (label : Text) : Bool :=
  label.length ≤ 63 && label.all (fun c => labelChar c || c = '-') && label.head?.any labelChar &&
    label.getLast?.any labelChar

/-- `_HOST_LABEL.match(host)`; `$` also matches before a newline at the end. -/
def hostLabels (host : Text) : Bool :=
  let host := if host.getLast? = some '\n' then host.dropLast else host
  let labels := host.splitOn '.'
  2 ≤ labels.length && labels.dropLast.all hostLabel &&
    labels.getLast?.any fun top => 2 ≤ top.length && top.all Char.isLower

/-- `_normalized_host`: the host, and if it is an address. -/
def normalizedHost (u : Unicode) (parts : SplitResult) : Except UrlError (Text × Bool) :=
  match parts.hostname u with
  | none => .error (.policy "url has no host")
  | some host =>
    let host := ((u.lower host).reverse.dropWhile (· = '.')).reverse
    if host.length > maxHostLength then .error (.policy "host exceeds the length limit")
    else if (Ip.ipAddress host).isSome then .ok (host, true)
    else
      match u.idna host with
      | none => .error (.policy "host is not a valid hostname")
      | some host => if hostLabels host then .ok (host, false) else .error (.policy "host is not a valid hostname")

/-- `_normalized_port`. -/
def normalizedPort (parts : SplitResult) (scheme : String) (allowed : List Nat) : Except UrlError Nat :=
  match parts.port with
  | none => .error (.policy "url port is invalid")
  | some none => .ok (defaultPort scheme)
  | some (some port) =>
    if port ∈ allowed then .ok port else .error (.policy s!"port {port} is not an allowed web port")

/-- The URL of a target. -/
def targetUrl (parts : SplitResult) (scheme : String) (host : Text) (isIpLiteral : Bool) (port : Nat) : Text :=
  let authority := if isIpLiteral ∧ ':' ∈ host then '[' :: host ++ [']'] else host
  let authority := if port ≠ defaultPort scheme then authority ++ ':' :: Nat.toDigits 10 port else authority
  let path := if parts.path = [] then ['/'] else parts.path
  let query := if parts.query = [] then [] else '?' :: parts.query
  scheme.toList ++ "://".toList ++ authority ++ path ++ query

/-- `normalize_url`, from the split URL on. -/
def normalizeParts (u : Unicode) (parts : SplitResult) (allowed : List Nat) : Except UrlError FetchTarget :=
  let scheme := String.ofList (u.lower parts.scheme)
  if scheme ∉ allowedSchemes then
    .error (.policy s!"scheme '{String.ofList parts.scheme}' is not allowed (http/https only)")
  else if parts.username.isSome ∨ parts.password.isSome then .error (.policy "embedded credentials are not allowed")
  else
    match normalizedHost u parts with
    | .error e => .error e
    | .ok (host, isIpLiteral) =>
      match normalizedPort parts scheme allowed with
      | .error e => .error e
      | .ok port => .ok ⟨scheme, host, port, targetUrl parts scheme host isIpLiteral port⟩

/-- `normalize_url`. -/
def normalizeUrl (u : Unicode) (url : Text) (allowed : List Nat) : Except UrlError FetchTarget :=
  if url = [] ∨ url.length > maxUrlLength then .error (.policy "url is empty or exceeds the length limit")
  else
    match urlsplit u (strip url) [] with
    | none => .error .valueError
    | some parts => normalizeParts u parts allowed

theorem normalizedPort_policy {parts : SplitResult} {scheme : String} {allowed : List Nat} :
    normalizedPort parts scheme allowed ≠ .error .valueError := by
  unfold normalizedPort
  split
  · simp
  · simp
  · split <;> simp

theorem normalizedHost_policy {u : Unicode} {parts : SplitResult} : normalizedHost u parts ≠ .error .valueError := by
  unfold normalizedHost
  split
  · simp
  simp only
  split
  · simp
  split
  · simp
  split
  · simp
  split <;> simp

theorem normalizeParts_policy {u : Unicode} {parts : SplitResult} {allowed : List Nat} :
    normalizeParts u parts allowed ≠ .error .valueError := by
  unfold normalizeParts
  simp only
  split
  · simp
  split
  · simp
  split
  · next e he =>
    rintro ⟨⟩
    exact normalizedHost_policy he
  split
  · next e he =>
    rintro ⟨⟩
    exact normalizedPort_policy he
  · simp

/-- `ValueError` comes from `urlsplit` alone. -/
theorem normalizeUrl_valueError {u : Unicode} {url : Text} {allowed : List Nat} :
    normalizeUrl u url allowed = .error .valueError ↔
      url ≠ [] ∧ url.length ≤ maxUrlLength ∧ urlsplit u (strip url) [] = none := by
  unfold normalizeUrl
  split
  · next hlen =>
    refine ⟨nofun, fun ⟨hne, hle, _⟩ => ?_⟩
    rcases hlen with hlen | hlen
    · exact absurd hlen hne
    · omega
  · next hlen =>
    simp only [not_or] at hlen
    split
    · next hsplit => exact ⟨fun _ => ⟨hlen.1, by omega, hsplit⟩, fun _ => rfl⟩
    · next parts hsplit =>
      refine ⟨fun h => absurd h normalizeParts_policy, fun ⟨_, _, hnone⟩ => ?_⟩
      rw [hsplit] at hnone
      cases hnone

end MilpbookLM.Fetch
