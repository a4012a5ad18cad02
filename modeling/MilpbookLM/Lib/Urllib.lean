/-
URLs as Python's `urllib.parse` takes them apart and joins them: `urlsplit`, the properties of
its result, and `urljoin`. A function that can raise `ValueError` answers `none` then, which
is about brackets, and about hosts that are something else under NFKC. Normalization and
`str.lower` are the runtime's.
-/
import MilpbookLM.Lib.IpAddress

namespace MilpbookLM.Url

/-- What the Unicode tables say. -/
structure Unicode where
  /-- `unicodedata.normalize("NFKC", text)`. -/
  nfkc : List Char → List Char
  /-- `text.lower()`. -/
  lower : List Char → List Char
  /-- `text.encode("idna").decode("ascii")`, unless it raises `UnicodeError`. -/
  idna : List Char → Option (List Char)

/-! ## Texts -/

/-- `text.partition(sep)`: what is before the first `sep`, if there is one, and what is after it. -/
def partition (sep : Char) (t : List Char) : List Char × Bool × List Char :=
  (t.takeWhile (· ≠ sep), decide (sep ∈ t), (t.dropWhile (· ≠ sep)).drop 1)

/-- `text.rpartition(sep)`: the same about the last one. -/
def rpartition (sep : Char) (t : List Char) : List Char × Bool × List Char :=
  if sep ∈ t then
    (((t.reverse.dropWhile (· ≠ sep)).drop 1).reverse, true, (t.reverse.takeWhile (· ≠ sep)).reverse)
  else ([], false, t)

/-- A character of `_WHATWG_C0_CONTROL_OR_SPACE`. -/
def isControl (c : Char) : Bool := c.toNat ≤ 32

/-- The text without `_UNSAFE_URL_BYTES_TO_REMOVE`. -/
def removeUnsafe (t : List Char) : List Char := t.filter fun c => c ≠ '\t' && c ≠ '\r' && c ≠ '\n'

/-! ## Splitting -/

/-- `SplitResult`. -/
structure SplitResult where
  scheme : List Char
  netloc : List Char
  path : List Char
  query : List Char
  fragment : List Char

/-- A character of `scheme_chars`. -/
def schemeChar (c : Char) : Bool := c.isAlphanum || c = '+' || c = '-' || c = '.'

/-- The scheme and what follows it, if the text begins with one. -/
def splitScheme (t : List Char) : Option (List Char × List Char) :=
  match partition ':' t with
  | (c :: scheme, true, rest) =>
    if c.isAlpha && (c :: scheme).all schemeChar then some ((c :: scheme).map Char.toLower, rest) else none
  | _ => none

/-- `_splitnetloc`, after the two slashes. -/
def splitNetloc (t : List Char) : List Char × List Char :=
  let inside := fun c => c ≠ '/' && c ≠ '?' && c ≠ '#'
  (t.takeWhile inside, t.dropWhile inside)

/-- `re.match(r"\Av[a-fA-F0-9]+\..+\Z", hostname)`, after the `v`. -/
def isFuture (t : List Char) : Bool :=
  let hex := fun c => (Ip.hexDigit c).isSome
  match t.takeWhile hex, t.dropWhile hex with
  | _ :: _, '.' :: c :: rest => (c :: rest).all (· ≠ '\n')
  | _, _ => false

/-- `_check_bracketed_host` raises nothing. -/
def bracketedHostOk (hostname : List Char) : Bool :=
  match hostname with
  | 'v' :: t => isFuture t
  | _ =>
    match Ip.ipAddress hostname with
    | some (.v6 _) => true
    | _ => false

/-- `_check_bracketed_netloc` raises nothing. -/
def bracketedNetlocOk (netloc : List Char) : Bool :=
  let hostnameAndPort := (rpartition '@' netloc).2.2
  match partition '[' hostnameAndPort with
  | (before, true, bracketed) =>
    let (hostname, _, port) := partition ']' bracketed
    before = [] && (port = [] || port.head? = some ':') && bracketedHostOk hostname
  | (_, false, _) => bracketedHostOk (partition ':' hostnameAndPort).1

/-- `_checknetloc` raises nothing. -/
def netlocOk (u : Unicode) (netloc : List Char) : Bool :=
  if netloc.all (·.toNat < 128) then true
  else
    let n := netloc.filter fun c => c ≠ '@' && c ≠ ':' && c ≠ '#' && c ≠ '?'
    n = u.nfkc n || !(u.nfkc n).any fun c => c = '/' || c = '?' || c = '#' || c = '@' || c = ':'

/-- The brackets of a network location are in order. -/
def bracketsOk (netloc : List Char) : Bool :=
  decide ('[' ∈ netloc) = decide (']' ∈ netloc) && (!decide ('[' ∈ netloc) || bracketedNetlocOk netloc)

/-- `urlsplit(url, scheme)`. -/
def urlsplit (u : Unicode) (url scheme : List Char) : Option SplitResult := do
  let url := removeUnsafe (url.dropWhile isControl)
  let scheme := removeUnsafe ((scheme.dropWhile isControl).reverse.dropWhile isControl).reverse
  let (scheme, url) := (splitScheme url).getD (scheme, url)
  let (netloc, url) := match url with
    | '/' :: '/' :: rest => splitNetloc rest
    | _ => ([], url)
  guard (bracketsOk netloc)
  let (url, _, fragment) := partition '#' url
  let (url, _, query) := partition '?' url
  guard (netlocOk u netloc)
  return ⟨scheme, netloc, url, query, fragment⟩

namespace SplitResult

variable (parts : SplitResult)

/-- `_userinfo`. -/
def userinfo : Option (List Char) × Option (List Char) :=
  match rpartition '@' parts.netloc with
  | (info, true, _) =>
    let (username, havePassword, password) := partition ':' info
    (some username, if havePassword then some password else none)
  | (_, false, _) => (none, none)

/-- `_hostinfo`. -/
def hostinfo : List Char × Option (List Char) :=
  let hostinfo := (rpartition '@' parts.netloc).2.2
  let (hostname, port) :=
    match partition '[' hostinfo with
    | (_, true, bracketed) =>
      let (hostname, _, port) := partition ']' bracketed
      (hostname, (partition ':' port).2.2)
    | (_, false, _) =>
      let (hostname, _, port) := partition ':' hostinfo
      (hostname, port)
  (hostname, if port = [] then none else some port)

def username : Option (List Char) := parts.userinfo.1

def password : Option (List Char) := parts.userinfo.2

/-- `hostname`: a zone is not lowered. -/
def hostname (u : Unicode) : Option (List Char) :=
  let hostname := parts.hostinfo.1
  if hostname = [] then none
  else
    let (hostname, percent, zone) := partition '%' hostname
    some (u.lower hostname ++ (if percent then '%' :: zone else []))

/-- `port`, unless it raises `ValueError`. -/
def port : Option (Option Nat) :=
  match parts.hostinfo.2 with
  | none => some none
  | some port =>
    if port.all Char.isDigit && Nat.ofDigitChars 10 port 0 ≤ 65535 then some (some (Nat.ofDigitChars 10 port 0)) else none

end SplitResult

/-! ## Joining -/

def usesRelative : List String :=
  ["", "ftp", "http", "gopher", "nntp", "imap", "wais", "file", "https", "shttp", "mms", "prospero", "rtsp", "rtsps",
    "rtspu", "sftp", "svn", "svn+ssh", "ws", "wss"]

def usesNetloc : List String :=
  ["", "ftp", "http", "gopher", "nntp", "telnet", "imap", "wais", "file", "mms", "https", "shttp", "snews", "prospero",
    "rtsp", "rtsps", "rtspu", "rsync", "svn", "svn+ssh", "sftp", "nfs", "git", "git+ssh", "ws", "wss"]

def usesParams : List String :=
  ["", "ftp", "hdl", "prospero", "http", "imap", "https", "shttp", "rtsp", "rtsps", "rtspu", "sip", "sips", "mms",
    "sftp", "tel"]

/-- `_splitparams`: the parameters are in the last part of the path. -/
def splitParams (url : List Char) : List Char × List Char :=
  let (front, slash, last) := rpartition '/' url
  let (last, _, params) := partition ';' last
  (front ++ (if slash then '/' :: last else last), params)

/-- `urlparse(url, scheme)`: the parts, and the parameters of the path. -/
def urlparse (u : Unicode) (url scheme : List Char) : Option (SplitResult × List Char) := do
  let parts ← urlsplit u url scheme
  if String.ofList parts.scheme ∈ usesParams ∧ ';' ∈ parts.path then
    let (path, params) := splitParams parts.path
    return (⟨parts.scheme, parts.netloc, path, parts.query, parts.fragment⟩, params)
  else return (parts, [])

/-- `urlunparse`. -/
def urlunparse (parts : SplitResult) (params : List Char) : List Char :=
  let url := if params = [] then parts.path else parts.path ++ ';' :: params
  let rooted := url.head? = some '/'
  let url :=
    if parts.netloc ≠ [] then
      "//".toList ++ parts.netloc ++ (if url ≠ [] ∧ !rooted then '/' :: url else url)
    else if url.take 2 = "//".toList then "//".toList ++ url
    else if parts.scheme ≠ [] ∧ String.ofList parts.scheme ∈ usesNetloc ∧ (url = [] ∨ rooted) then "//".toList ++ url
    else url
  let url := if parts.scheme = [] then url else parts.scheme ++ ':' :: url
  let url := if parts.query = [] then url else url ++ '?' :: parts.query
  if parts.fragment = [] then url else url ++ '#' :: parts.fragment

/-- The segments of a relative path, the empty ones between the first and the last left out. -/
def relativeSegments : List (List Char) → List (List Char)
  | [] => []
  | first :: rest =>
    match rest.getLast? with
    | none => [first]
    | some last => first :: rest.dropLast.filter (· ≠ []) ++ [last]

/-- `.` stays where it is, `..` goes one up. -/
def resolveDots (segments : List (List Char)) : List (List Char) :=
  segments.foldl (fun resolved seg =>
    if seg = ['.', '.'] then resolved.dropLast else if seg = ['.'] then resolved else resolved ++ [seg]) []

/-- The path that `path` is when it is read at `base`. -/
def resolvePath (base path : List Char) : List Char :=
  let baseParts := base.splitOn '/'
  let baseParts := if baseParts.getLast? = some [] then baseParts else baseParts.dropLast
  let segments := if path.head? = some '/' then path.splitOn '/' else relativeSegments (baseParts ++ path.splitOn '/')
  let resolved := resolveDots segments
  let resolved :=
    if segments.getLast? = some ['.'] ∨ segments.getLast? = some ['.', '.'] then resolved ++ [[]] else resolved
  let joined := ['/'].intercalate resolved
  if joined = [] then ['/'] else joined

/-- `urljoin(base, url)`. -/
def urljoin (u : Unicode) (base url : List Char) : Option (List Char) :=
  if base = [] then some url
  else if url = [] then some base
  else do
    let (b, bparams) ← urlparse u base []
    let (parts, params) ← urlparse u url b.scheme
    if parts.scheme ≠ b.scheme ∨ String.ofList parts.scheme ∉ usesRelative then return url
    let usesNet := decide (String.ofList parts.scheme ∈ usesNetloc)
    if usesNet ∧ parts.netloc ≠ [] then return urlunparse parts params
    let netloc := if usesNet then b.netloc else parts.netloc
    if parts.path = [] ∧ params = [] then
      let query := if parts.query = [] then b.query else parts.query
      return urlunparse ⟨parts.scheme, netloc, b.path, query, parts.fragment⟩ bparams
    return urlunparse ⟨parts.scheme, netloc, resolvePath b.path parts.path, parts.query, parts.fragment⟩ params

end MilpbookLM.Url
