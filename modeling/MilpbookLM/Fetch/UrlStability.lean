/-
`normalize_url` for any allowed schemes and ports, and what becomes of its target when it is
normalized again. A redirect chain is to record a fixed point; the exact kinds of URLs for
which it does not, or for which something else than a policy error is raised, are the
exceptions of `normalizes_iff`.
-/
import MilpbookLM.Fetch.Hosts

namespace MilpbookLM.Fetch

open Url

/-! ## The code -/

/-- `_DEFAULT_PORTS`. -/
def defaultPorts (scheme : String) : Option Nat :=
  if scheme = "http" then some 80 else if scheme = "https" then some 443 else none

/-- What `normalize_url` raises when it is given the schemes. -/
inductive NormalizeError
  | raised (e : UrlError)
  /-- `_DEFAULT_PORTS[scheme]`. -/
  | keyError
  deriving DecidableEq

/-- `_normalized_port`. -/
def normalizedPortFor (ports : List Nat) (parts : SplitResult) (scheme : String) : Except NormalizeError Nat :=
  match parts.port with
  | none => .error (.raised (.policy "url port is invalid"))
  | some none =>
    match defaultPorts scheme with
    | some port => .ok port
    | none => .error .keyError
  | some (some port) =>
    if port ∈ ports then .ok port else .error (.raised (.policy s!"port {port} is not an allowed web port"))

section Normalize

variable (u : Unicode) (schemes : List String) (ports : List Nat)

/-- `normalize_url`, from the split URL on. -/
def normalizePartsFor (parts : SplitResult) : Except NormalizeError FetchTarget :=
  let scheme := String.ofList (u.lower parts.scheme)
  if scheme ∉ schemes then
    .error (.raised (.policy s!"scheme '{String.ofList parts.scheme}' is not allowed (http/https only)"))
  else if parts.username.isSome ∨ parts.password.isSome then
    .error (.raised (.policy "embedded credentials are not allowed"))
  else
    match normalizedHost u parts with
    | .error e => .error (.raised e)
    | .ok (host, isIpLiteral) =>
      match normalizedPortFor ports parts scheme with
      | .error e => .error e
      | .ok port =>
        match defaultPorts scheme with
        | none => .error .keyError
        | some _ => .ok ⟨scheme, host, port, targetUrl parts scheme host isIpLiteral port⟩

/-- `normalize_url(url, allowed_schemes=schemes, allowed_ports=ports)`. -/
def normalizeUrlFor (url : Text) : Except NormalizeError FetchTarget :=
  if url = [] ∨ url.length > maxUrlLength then
    .error (.raised (.policy "url is empty or exceeds the length limit"))
  else
    match urlsplit u (strip url) [] with
    | none => .error (.raised .valueError)
    | some parts => normalizePartsFor u schemes ports parts

end Normalize

theorem defaultPorts_some {scheme : String} {port : Nat} (h : defaultPorts scheme = some port) :
    (scheme = "http" ∨ scheme = "https") ∧ port = defaultPort scheme := by
  unfold defaultPorts at h
  split at h
  · next hs =>
    cases h
    exact ⟨.inl hs, by rw [hs]; decide⟩
  · split at h
    · next hs =>
      cases h
      exact ⟨.inr hs, by rw [hs]; decide⟩
    · cases h

/-! ## Targets -/

/-- The network location of a target. -/
def authority (host : Text) (isIpLiteral : Bool) (port : Option Nat) : Text :=
  if isIpLiteral = true ∧ ':' ∈ host then '[' :: host ++ ']' :: portText port else host ++ portText port

/-- The port that is written. -/
def writtenPort (scheme : String) (port : Nat) : Option Nat := if port = defaultPort scheme then none else some port

/-- What is written after the network location. -/
def resource (parts : SplitResult) : Text :=
  (if parts.path = [] then ['/'] else parts.path) ++ if parts.query = [] then [] else '?' :: parts.query

theorem targetUrl_eq (parts : SplitResult) (scheme : String) (host : Text) (isIpLiteral : Bool) (port : Nat) :
    targetUrl parts scheme host isIpLiteral port =
      scheme.toList ++ "://".toList ++ authority host isIpLiteral (writtenPort scheme port) ++ resource parts := by
  unfold targetUrl authority writtenPort resource
  by_cases hb : isIpLiteral = true ∧ ':' ∈ host <;> by_cases hport : port = defaultPort scheme <;>
    simp [hb, hport, portText]

/-- The path and the query of a resource. -/
def resourceParts (scheme : String) (netloc resource : Text) : SplitResult :=
  ⟨scheme.toList, netloc, (partition '?' resource).1, (partition '?' resource).2.2, []⟩

theorem resource_length (scheme : String) (netloc : Text) {t : Text} (h : t.head? = some '/') :
    (resource (resourceParts scheme netloc t)).length ≤ t.length := by
  have hpath : (partition '?' t).1 ≠ [] := by
    cases t with
    | nil => cases h
    | cons c t =>
      cases h
      simp [partition]
  have hjoin := congrArg List.length (partition_rejoin '?' t)
  rw [List.length_append] at hjoin
  change ((if (partition '?' t).1 = [] then ['/'] else (partition '?' t).1) ++
    if (partition '?' t).2.2 = [] then [] else '?' :: (partition '?' t).2.2).length ≤ t.length
  rw [if_neg hpath, List.length_append]
  by_cases hq : '?' ∈ t
  · rw [if_pos hq, List.length_cons] at hjoin
    by_cases hempty : (partition '?' t).2.2 = []
    · rw [if_pos hempty, List.length_nil]
      omega
    · rw [if_neg hempty, List.length_cons]
      omega
  · have hnone : (partition '?' t).2.2 = [] := by rw [partition_not_mem hq]
    rw [if_neg hq] at hjoin
    rw [if_pos hnone, List.length_nil]
    simp only [List.length_nil] at hjoin
    omega

/-- A resource is written as it was. -/
theorem resource_written {u : Unicode} (scheme : String) (netloc : Text) {parts : SplitResult} (ht : Taken u parts) :
    resource (resourceParts scheme netloc (resource parts)) = resource parts := by
  have hpath : ∀ path : Text, path ≠ [] → '?' ∉ path →
      resource (resourceParts scheme netloc (path ++ if parts.query = [] then [] else '?' :: parts.query)) =
        path ++ if parts.query = [] then [] else '?' :: parts.query := by
    intro path hne hno
    by_cases hq : parts.query = []
    · simp [resource, resourceParts, hq, partition_not_mem hno, hne]
    · simp [resource, resourceParts, hq, partition_append hno, hne]
  unfold resource
  split
  · exact hpath ['/'] (by simp) (by decide)
  · next hne => exact hpath parts.path hne fun hq => (ht.path _ hq).2.1 rfl

theorem resource_head {u : Unicode} {parts : SplitResult} (ht : Taken u parts) (hnetloc : parts.netloc ≠ []) :
    (resource parts).head? = some '/' := by
  unfold resource
  split
  · rfl
  · next hne =>
    have hhead := ht.rooted hnetloc hne
    cases hp : parts.path with
    | nil => exact absurd hp hne
    | cons c path =>
      rw [hp] at hhead
      simpa using hhead

theorem resource_chars {u : Unicode} {parts : SplitResult} (ht : Taken u parts) :
    ∀ c ∈ resource parts, UrlChar c ∧ c ≠ '#' := by
  intro c hc
  unfold resource at hc
  simp only [List.mem_append] at hc
  rcases hc with hc | hc
  · split at hc
    · simp only [List.mem_singleton] at hc
      exact hc ▸ ⟨⟨by decide, by decide, by decide⟩, by decide⟩
    · exact ⟨(ht.path c hc).1, (ht.path c hc).2.2⟩
  · split at hc
    · simp at hc
    · simp only [List.mem_cons] at hc
      rcases hc with rfl | hc
      · exact ⟨⟨by decide, by decide, by decide⟩, by decide⟩
      · exact ht.query c hc

section Settled

variable {u : Unicode} (hu : Documented u) {host : Text} {isIpLiteral : Bool} (hs : SettledHost u host isIpLiteral)

include hs

theorem authority_chars (port : Option Nat) :
    ∀ c ∈ authority host isIpLiteral port, UrlChar c ∧ NetlocChar c ∧ c ≠ '@' := by
  have hport : ∀ c ∈ portText port, UrlChar c ∧ NetlocChar c ∧ c ≠ '@' := fun c hc => by
    have hno : ∀ {d : Char}, ¬(d = ':' ∨ d.isDigit = true) → c ≠ d := fun hd he => hd (he ▸ mem_portText hc)
    exact ⟨⟨hno (by decide), hno (by decide), hno (by decide)⟩, ⟨hno (by decide), hno (by decide), hno (by decide)⟩,
      hno (by decide)⟩
  have hhost : ∀ c ∈ host, UrlChar c ∧ NetlocChar c ∧ c ≠ '@' := fun c hc =>
    ⟨(hs.chars c hc).1, (hs.chars c hc).2.1, (hs.chars c hc).2.2.1⟩
  have hbracket : ∀ c, c = '[' ∨ c = ']' → UrlChar c ∧ NetlocChar c ∧ c ≠ '@' := by
    rintro c (rfl | rfl)
    · exact ⟨⟨by decide, by decide, by decide⟩, ⟨by decide, by decide, by decide⟩, by decide⟩
    · exact ⟨⟨by decide, by decide, by decide⟩, ⟨by decide, by decide, by decide⟩, by decide⟩
  intro c hc
  unfold authority at hc
  split at hc
  · simp only [List.cons_append, List.mem_cons, List.mem_append] at hc
    rcases hc with hc | hc | hc | hc
    · exact hbracket c (.inl hc)
    · exact hhost c hc
    · exact hbracket c (.inr hc)
    · exact hport c hc
  · rw [List.mem_append] at hc
    exact hc.elim (hhost c) (hport c)

theorem authority_ok (port : Option Nat) :
    bracketsOk (authority host isIpLiteral port) = true ∧ netlocOk u (authority host isIpLiteral port) = true := by
  unfold authority
  split
  · next hb =>
    exact ⟨bracketsOk_bracketed (fun hc => (hs.chars _ hc).2.2.1 rfl) (fun hc => (hs.chars _ hc).2.2.2 rfl)
      (hs.bracketed hb).1, (hs.bracketed hb).2 port⟩
  · next hb =>
    have hplain := hs.plain hb
    refine ⟨bracketsOk_plain (fun hc => ?_) (fun hc => ?_), ?_⟩
    · rcases List.mem_append.1 hc with hc | hc
      · exact (hplain _ hc).2.1 rfl
      · exact absurd (mem_portText hc) (by decide)
    · rcases List.mem_append.1 hc with hc | hc
      · exact (hs.chars _ hc).2.2.2 rfl
      · exact absurd (mem_portText hc) (by decide)
    · refine if_pos (List.all_eq_true.2 fun c hc => ?_)
      rw [decide_eq_true_eq]
      rcases List.mem_append.1 hc with hc | hc
      · exact (hplain c hc).2.2
      · rcases mem_portText hc with rfl | hdigit
        · decide
        · rw [isDigit_iff] at hdigit
          omega

theorem authority_hostinfo {parts : SplitResult} {port : Option Nat}
    (hnetloc : parts.netloc = authority host isIpLiteral port) :
    parts.hostinfo = (host, port.map (Nat.toDigits 10)) := by
  have hat : '@' ∉ parts.netloc := fun hc => (authority_chars hs port _ (hnetloc ▸ hc)).2.2 rfl
  unfold authority at hnetloc
  split at hnetloc
  · exact hostinfo_bracketed hnetloc hat fun hc => (hs.chars _ hc).2.2.2 rfl
  · next hb =>
    refine hostinfo_plain hnetloc hat (fun hc => ?_) fun hc => (hs.plain hb _ hc).1 rfl
    rw [hnetloc] at hc
    rcases List.mem_append.1 hc with hc | hc
    · exact (hs.plain hb _ hc).2.1 rfl
    · exact absurd (mem_portText hc) (by decide)

include hu

theorem settled_hostname {parts : SplitResult} (hhost : parts.hostinfo.1 = host) : parts.hostname u = some host := by
  have hfront : u.lower (partition '%' host).1 = (partition '%' host).1 :=
    hu.lower_fixed _ fun c hc => hs.lowered c (partition_front hc)
  have hjoin := partition_rejoin '%' host
  unfold SplitResult.hostname
  simp only [hhost, hs.nonempty, if_false, hfront]
  by_cases hp : '%' ∈ host
  · have hpart : (partition '%' host).2.1 = true := decide_eq_true hp
    rw [if_pos hp] at hjoin
    simp only [hpart, if_true, hjoin]
  · have hpart : (partition '%' host).2.1 = false := decide_eq_false hp
    rw [if_neg hp] at hjoin
    rw [hpart, if_neg (by simp), hjoin]

/-- A settled host is normalized as it is, unless it has grown too long. -/
theorem settled_normalizedHost {parts : SplitResult} (hhost : parts.hostinfo.1 = host) {host' : Text} {ip : Bool} :
    normalizedHost u parts = .ok (host', ip) ↔ host.length ≤ maxHostLength ∧ host' = host ∧ ip = isIpLiteral := by
  have hname := settled_hostname hu hs hhost
  have hwritten : writtenHost u parts = host := by
    rw [writtenHost, hname, Option.getD_some, hu.lower_fixed _ hs.lowered, hs.undotted]
  rw [normalizedHost_ok, hname, hwritten]
  obtain ⟨hip, hsome⟩ | ⟨hip, hnone, hidna, hlabels, -⟩ := hs.kind
  · have hne : Ip.ipAddress host ≠ none := fun he => by simp [he] at hsome
    simp [hsome, hne, hip]
  · simp only [Option.isSome_some, hnone, hip, hidna, Option.isSome_none, Option.some.injEq, true_and, false_and,
      false_or, Bool.false_eq_true]
    refine and_congr_right fun _ => ⟨fun h => ⟨h.2.1.symm, h.1⟩, fun h => ⟨h.2, h.1.symm, h.1 ▸ hlabels⟩⟩

end Settled

/-! ## Normalizing a target again -/

theorem normalizedPortFor_ok {ports : List Nat} {parts : SplitResult} {scheme : String} {port : Nat} :
    normalizedPortFor ports parts scheme = .ok port ↔
      parts.port = some none ∧ defaultPorts scheme = some port ∨ parts.port = some (some port) ∧ port ∈ ports := by
  unfold normalizedPortFor
  cases parts.port with
  | none => simp
  | some given =>
    cases given with
    | none => cases defaultPorts scheme <;> simp
    | some p =>
      by_cases hp : p ∈ ports
      · simp only [hp, if_true, Except.ok.injEq, Option.some.injEq, reduceCtorEq, false_and, false_or]
        exact ⟨fun he => ⟨he, he ▸ hp⟩, fun he => he.1⟩
      · simp only [hp, if_false, reduceCtorEq, Option.some.injEq, false_and, false_or, false_iff]
        rintro ⟨rfl, hin⟩
        exact hp hin

theorem normalizePartsFor_ok {u : Unicode} {schemes : List String} {ports : List Nat} {parts : SplitResult}
    {target : FetchTarget} : normalizePartsFor u schemes ports parts = .ok target ↔
      ∃ host isIpLiteral port, String.ofList (u.lower parts.scheme) ∈ schemes ∧ parts.username = none ∧
        parts.password = none ∧ normalizedHost u parts = .ok (host, isIpLiteral) ∧
        normalizedPortFor ports parts (String.ofList (u.lower parts.scheme)) = .ok port ∧
        (defaultPorts (String.ofList (u.lower parts.scheme))).isSome ∧
        target = ⟨String.ofList (u.lower parts.scheme), host, port,
          targetUrl parts (String.ofList (u.lower parts.scheme)) host isIpLiteral port⟩ := by
  unfold normalizePartsFor
  simp only
  generalize String.ofList (u.lower parts.scheme) = scheme
  by_cases hscheme : scheme ∈ schemes
  case neg => simp [hscheme]
  by_cases hcred : parts.username.isSome ∨ parts.password.isSome
  case pos =>
    simp only [hscheme, not_true_eq_false, if_false, hcred, if_true, reduceCtorEq, true_and, false_iff]
    rintro ⟨host, isIpLiteral, port, hname, hpass, -⟩
    simp [hname, hpass] at hcred
  have hnone : parts.username = none ∧ parts.password = none := by simpa using hcred
  rw [if_neg (not_not.2 hscheme), if_neg hcred]
  simp only [hscheme, hnone, true_and]
  cases normalizedHost u parts with
  | error e => simp
  | ok r =>
    obtain ⟨host, isIpLiteral⟩ := r
    cases normalizedPortFor ports parts scheme with
    | error e => simp
    | ok port =>
      cases defaultPorts scheme with
      | none => simp
      | some d =>
        simp only [Except.ok.injEq, Option.isSome_some, true_and, Prod.mk.injEq]
        refine ⟨fun h => ⟨host, isIpLiteral, port, ⟨rfl, rfl⟩, rfl, h.symm⟩, ?_⟩
        rintro ⟨_, _, _, ⟨rfl, rfl⟩, rfl, h⟩
        exact h.symm

/-- A target that a normalization made. -/
structure Made (u : Unicode) (schemes : List String) (ports : List Nat) (parts : SplitResult) (isIpLiteral : Bool)
    (target : FetchTarget) : Prop where
  scheme : target.scheme = "http" ∨ target.scheme = "https"
  allowed : target.scheme ∈ schemes
  port : target.port = defaultPort target.scheme ∨ target.port ∈ ports
  low : target.port ≤ 65535
  settled : SettledHost u target.host isIpLiteral
  taken : Taken u parts
  rooted : (resource parts).head? = some '/'
  url : target.url = target.scheme.toList ++ "://".toList ++
    authority target.host isIpLiteral (writtenPort target.scheme target.port) ++ resource parts

theorem normalizePartsFor_made {u : Unicode} (hu : Documented u) {schemes : List String} {ports : List Nat}
    {parts : SplitResult} (ht : Taken u parts) {target : FetchTarget}
    (h : normalizePartsFor u schemes ports parts = .ok target) :
    ∃ isIpLiteral, Made u schemes ports parts isIpLiteral target := by
  obtain ⟨host, isIpLiteral, port, hscheme, hname, -, hhost, hport, hdefault, rfl⟩ := normalizePartsFor_ok.1 h
  obtain ⟨d, hd⟩ := Option.isSome_iff_exists.1 hdefault
  have hweb := (defaultPorts_some hd).1
  have hat := username_none_iff.1 hname
  have hnetloc : parts.netloc ≠ [] := fun he => by
    have hsome := (normalizedHost_ok.1 hhost).1
    simp [SplitResult.hostname, SplitResult.hostinfo, he, rpartition, partition] at hsome
  refine ⟨isIpLiteral, hweb, hscheme, ?_, ?_, normalizedHost_settled hu ht hat hhost, ht,
    resource_head ht hnetloc, targetUrl_eq _ _ _ _ _⟩
  · rcases normalizedPortFor_ok.1 hport with ⟨-, hp⟩ | ⟨-, hp⟩
    · exact .inl (defaultPorts_some hp).2
    · exact .inr hp
  · rcases normalizedPortFor_ok.1 hport with ⟨-, hp⟩ | ⟨hp, -⟩
    · rw [(defaultPorts_some hp).2]
      simp only [defaultPort]
      split <;> omega
    · exact port_le hp

/-- What is at the end of a resource is not stripped from it. -/
def Trimmed (t : Text) : Prop := ∀ c, t.getLast? = some c → isSpace c = false

instance (t : Text) : Decidable (Trimmed t) :=
  decidable_of_iff (t.getLast?.all fun c => !isSpace c) (by
    unfold Trimmed
    cases t.getLast? <;> simp)

theorem rdropWhile_append {p : Char → Bool} (front : Text) {t : Text} (h : t.rdropWhile p ≠ []) :
    (front ++ t).rdropWhile p = front ++ t.rdropWhile p := by
  have hne : t.reverse.dropWhile p ≠ [] := fun he => h (by rw [List.rdropWhile, he, List.reverse_nil])
  simp only [List.rdropWhile, List.reverse_append, List.dropWhile_append, List.isEmpty_iff, hne, if_false,
    List.reverse_reverse]

/-- Stripping a written URL is stripping its resource. -/
theorem strip_written {scheme rest : Text} (front : Text) (hne : scheme ≠ []) (hlower : ∀ c ∈ scheme, c.isLower = true)
    (hhead : rest.head? = some '/') :
    strip (scheme ++ front ++ rest) = scheme ++ front ++ rest.rdropWhile isSpace ∧
      (rest.rdropWhile isSpace).head? = some '/' := by
  obtain ⟨c, scheme, rfl⟩ : ∃ c t, scheme = c :: t := List.exists_cons_of_ne_nil hne
  obtain ⟨rest, rfl⟩ : ∃ t, rest = '/' :: t := by
    cases rest with
    | nil => cases hhead
    | cons c t => exact ⟨t, by simpa using hhead⟩
  have hc : isSpace c = false := by
    have hc := isLower_iff.1 (hlower c (by simp))
    simp only [isSpace, Bool.or_eq_false_iff, Bool.and_eq_false_iff, decide_eq_false_iff_not]
    omega
  have hkept : ('/' :: rest).rdropWhile isSpace ≠ [] := fun h =>
    absurd (List.rdropWhile_eq_nil_iff.1 h '/' (by simp)) (by decide)
  have hstart : (c :: scheme ++ front ++ '/' :: rest).dropWhile isSpace = c :: scheme ++ front ++ '/' :: rest := by
    rw [List.cons_append, List.cons_append, List.dropWhile_cons_of_neg (by simp [hc])]
  refine ⟨?_, ?_⟩
  · rw [strip, hstart]
    exact rdropWhile_append _ hkept
  · obtain ⟨back, hback⟩ := List.rdropWhile_prefix isSpace ('/' :: rest)
    cases hr : ('/' :: rest).rdropWhile isSpace with
    | nil => exact absurd hr hkept
    | cons d t =>
      rw [hr] at hback
      cases hback
      rfl

theorem rdropWhile_trimmed (t : Text) : t.rdropWhile isSpace = t ↔ Trimmed t := by
  rw [List.rdropWhile_eq_self_iff, Trimmed]
  refine ⟨fun h c hc => ?_, fun h hne => ?_⟩
  · have hne : t ≠ [] := by
      rintro rfl
      cases hc
    rw [List.getLast?_eq_some_getLast hne, Option.some.injEq] at hc
    simpa [hc] using h hne
  · rw [h _ (List.getLast?_eq_some_getLast hne)]
    decide

section Again

variable {u : Unicode} (hu : Documented u) {schemes : List String} {ports : List Nat} {parts : SplitResult}
  {isIpLiteral : Bool} {target : FetchTarget} (hm : Made u schemes ports parts isIpLiteral target)

include hm

theorem Made.scheme_lower : target.scheme.toList ≠ [] ∧ ∀ c ∈ target.scheme.toList, c.isLower = true := by
  rcases hm.scheme with h | h
  · rw [h]
    exact ⟨List.cons_ne_nil _ _, List.all_eq_true.1 (rfl : "http".toList.all Char.isLower = true)⟩
  · rw [h]
    exact ⟨List.cons_ne_nil _ _, List.all_eq_true.1 (rfl : "https".toList.all Char.isLower = true)⟩

/-- **A target's URL, with any resource, is split into the parts of the target.** -/
theorem Made.split {rest : Text} (hhead : rest.head? = some '/') (hrest : ∀ c ∈ rest, UrlChar c ∧ c ≠ '#') :
    urlsplit u (target.scheme.toList ++ "://".toList ++
        authority target.host isIpLiteral (writtenPort target.scheme target.port) ++ rest) [] =
      some (resourceParts target.scheme (authority target.host isIpLiteral (writtenPort target.scheme target.port))
        rest) := by
  have hchars := authority_chars hm.settled (writtenPort target.scheme target.port)
  have hok := authority_ok hm.settled (writtenPort target.scheme target.port)
  exact urlsplit_written hm.scheme_lower.1 hm.scheme_lower.2 (fun c hc => ⟨(hchars c hc).1, (hchars c hc).2.1⟩) hhead
    hrest hok.1 hok.2

include hu

/-- What is read back from these parts. -/
theorem Made.read (rest : Text) :
    let again := resourceParts target.scheme (authority target.host isIpLiteral (writtenPort target.scheme target.port))
      rest
    u.lower again.scheme = target.scheme.toList ∧ again.username = none ∧ again.password = none ∧
      again.hostinfo.1 = target.host ∧ again.port = some (writtenPort target.scheme target.port) := by
  intro again
  have hnetloc : again.netloc = authority target.host isIpLiteral (writtenPort target.scheme target.port) := rfl
  have hat : '@' ∉ again.netloc := fun hc => (authority_chars hm.settled _ _ (hnetloc ▸ hc)).2.2 rfl
  have hinfo := authority_hostinfo hm.settled hnetloc
  refine ⟨?_, username_none_iff.2 hat, password_none hat, by rw [hinfo], port_of_hostinfo hinfo fun n hn => ?_⟩
  · have hlower := hm.scheme_lower.2
    change u.lower target.scheme.toList = _
    rw [hu.lower_ascii _ fun c hc => by have := isLower_iff.1 (hlower c hc); omega,
      List.map_congr_left fun c hc => toLower_of_isLower (hlower c hc)]
    exact List.map_id _
  · simp only [writtenPort] at hn
    split at hn
    · cases hn
    · cases hn
      exact hm.low

/-- **The parts of a target's URL are normalized to the target, with their own resource, unless its host has
grown too long.** -/
theorem Made.again (rest : Text) (target' : FetchTarget) :
    normalizePartsFor u schemes ports
        (resourceParts target.scheme (authority target.host isIpLiteral (writtenPort target.scheme target.port)) rest) =
          .ok target' ↔
      target.host.length ≤ maxHostLength ∧ target' = ⟨target.scheme, target.host, target.port,
        target.scheme.toList ++ "://".toList ++
          authority target.host isIpLiteral (writtenPort target.scheme target.port) ++
          resource (resourceParts target.scheme
            (authority target.host isIpLiteral (writtenPort target.scheme target.port)) rest)⟩ := by
  obtain ⟨hscheme, hname, hpass, hhost, hport⟩ := hm.read hu rest
  generalize hagain : resourceParts target.scheme
    (authority target.host isIpLiteral (writtenPort target.scheme target.port)) rest = again at *
  have hlist : String.ofList (u.lower again.scheme) = target.scheme := by rw [hscheme, String.ofList_toList]
  have hdefault : defaultPorts target.scheme = some (defaultPort target.scheme) := by
    rcases hm.scheme with h | h <;> rw [h] <;> decide
  have hportFor : ∀ port, normalizedPortFor ports again target.scheme = .ok port ↔ port = target.port := by
    intro port
    rw [normalizedPortFor_ok, hport, hdefault, writtenPort]
    by_cases hd : target.port = defaultPort target.scheme
    · simp [hd, eq_comm]
    · have hallowed := hm.port.resolve_left hd
      simp only [hd, if_false, Option.some.injEq, reduceCtorEq, false_and, false_or]
      exact ⟨fun he => he.1.symm, fun he => ⟨he.symm, he ▸ hallowed⟩⟩
  rw [normalizePartsFor_ok, hlist]
  constructor
  · rintro ⟨host, ip, port, -, -, -, hh, hp, -, rfl⟩
    obtain rfl := (hportFor port).1 hp
    obtain ⟨hlen, rfl, rfl⟩ := (settled_normalizedHost hu hm.settled hhost).1 hh
    exact ⟨hlen, by rw [targetUrl_eq]⟩
  · rintro ⟨hlen, rfl⟩
    exact ⟨target.host, isIpLiteral, target.port, hm.allowed, hname, hpass,
      (settled_normalizedHost hu hm.settled hhost).2 ⟨hlen, rfl, rfl⟩, (hportFor _).2 rfl, by rw [hdefault]; rfl,
      by rw [targetUrl_eq]⟩

/-- **The target is a fixed point unless its URL or its host is too long, or ends with white space.** -/
theorem Made.fixed : normalizeUrlFor u schemes ports target.url = .ok target ↔
    target.url.length ≤ maxUrlLength ∧ target.host.length ≤ maxHostLength ∧ Trimmed (resource parts) := by
  obtain ⟨hne, hlower⟩ := hm.scheme_lower
  have hurl : target.url ≠ [] := fun he => by simp [hm.url] at he
  have hstrip := strip_written ("://".toList ++
    authority target.host isIpLiteral (writtenPort target.scheme target.port)) hne hlower hm.rooted
  rw [← List.append_assoc, ← hm.url] at hstrip
  have hchars := resource_chars hm.taken
  have hsplit := hm.split hstrip.2 fun c hc => hchars c ((List.rdropWhile_prefix _ _).subset hc)
  have hlength := resource_length target.scheme
    (authority target.host isIpLiteral (writtenPort target.scheme target.port)) hstrip.2
  unfold normalizeUrlFor
  by_cases hlong : target.url.length > maxUrlLength
  · rw [if_pos (.inr hlong)]
    simp only [reduceCtorEq, false_iff]
    omega
  rw [if_neg (not_or.2 ⟨hurl, hlong⟩), hstrip.1, hsplit]
  simp only
  rw [hm.again hu]
  have hle : target.url.length ≤ maxUrlLength := by omega
  simp only [hle, true_and]
  refine and_congr_right fun _ => ?_
  rw [← rdropWhile_trimmed]
  constructor
  · intro he
    -- the resource is not shorter than it was
    have hlen := congrArg (fun t : FetchTarget => t.url.length) he
    simp only [hm.url, List.length_append] at hlen
    refine (List.rdropWhile_prefix _ _).eq_of_length ?_
    have := (List.rdropWhile_prefix isSpace (resource parts)).length_le
    omega
  · intro he
    rw [he, resource_written _ _ hm.taken, ← hm.url]

end Again

/-! ## What the fetch path relies on -/

/-- Labels with dots between them. -/
def Dotted (host : Text) : Prop :=
  ∃ labels : List Text, 2 ≤ labels.length ∧ host = ['.'].intercalate labels ∧
    ∀ label ∈ labels, label ≠ [] ∧ ∀ c ∈ label, c.isLower = true ∨ c.isDigit = true ∨ c = '-'

/-- A target's URL, split again, satisfies the policy. -/
structure Admissible (u : Unicode) (schemes : List String) (ports : List Nat) (target : FetchTarget) : Prop where
  url : ∃ parts, urlsplit u target.url [] = some parts ∧ parts.scheme = target.scheme.toList ∧
    parts.username = none ∧ parts.password = none ∧ parts.hostname u = some target.host ∧
    (parts.port = some none ∧ defaultPorts target.scheme = some target.port ∨ parts.port = some (some target.port)) ∧
    parts.fragment = []
  scheme : target.scheme ∈ schemes
  port : target.port ∈ ports
  host : target.host ≠ [] ∧ u.lower target.host = target.host
  named : (Ip.ipAddress target.host).isSome ∨ Dotted target.host
  fragment : '#' ∉ target.url

/-- A policy error, or a target that satisfies the policy and is the target of its own URL. -/
def Normalizes (u : Unicode) (schemes : List String) (ports : List Nat) (url : Text) : Prop :=
  match normalizeUrlFor u schemes ports url with
  | .error e => ∃ detail, e = .raised (.policy detail)
  | .ok target => Admissible u schemes ports target ∧ normalizeUrlFor u schemes ports target.url = .ok target

section Condition

variable (u : Unicode) (schemes : List String) (ports : List Nat) (parts : SplitResult)

def givenScheme : String := String.ofList (u.lower parts.scheme)

/-- The host in the form that it is sent in. -/
def sentHost : Text :=
  if (Ip.ipAddress (writtenHost u parts)).isSome then writtenHost u parts else (u.idna (writtenHost u parts)).getD []

/-- The parts pass every check. -/
structure Passes : Prop where
  scheme : givenScheme u parts ∈ schemes
  credentials : parts.username = none ∧ parts.password = none
  host : (parts.hostname u).isSome ∧ (writtenHost u parts).length ≤ maxHostLength
  named : (Ip.ipAddress (writtenHost u parts)).isSome ∨
    ∃ name, u.idna (writtenHost u parts) = some name ∧ hostLabels name = true
  port : parts.port = some none ∨ ∃ port ∈ ports, parts.port = some (some port)

/-- The length of what is written for a port. -/
def portLength : Nat :=
  match parts.port with
  | some (some port) => if port = defaultPort (givenScheme u parts) then 0 else 1 + (Nat.toDigits 10 port).length
  | _ => 0

/-- What the checks leave open. -/
structure Steady : Prop where
  web : givenScheme u parts = "http" ∨ givenScheme u parts = "https"
  /-- The scheme's own port is allowed where none is given. -/
  default : parts.port = some none → defaultPort (givenScheme u parts) ∈ ports
  /-- The name is not too long in its ASCII form, -/
  name : (sentHost u parts).length ≤ maxHostLength
  /-- nor the URL with it, with its brackets, its port and a path. -/
  length : (givenScheme u parts).length + 3 + ((sentHost u parts).length + (if ':' ∈ sentHost u parts then 2 else 0)) +
    portLength u parts + max 1 parts.path.length + (if parts.query = [] then 0 else 1 + parts.query.length) ≤
      maxUrlLength
  /-- No white space is left at the end. -/
  ending : Trimmed (if parts.query = [] then parts.path else parts.query)

end Condition

theorem givenPort_cases (ports : List Nat) (parts : SplitResult) (scheme : String) :
    (∃ detail, normalizedPortFor ports parts scheme = .error (.raised (.policy detail))) ∧
        ¬(parts.port = some none ∨ ∃ port ∈ ports, parts.port = some (some port)) ∨
      (parts.port = some none ∧ normalizedPortFor ports parts scheme =
        (match defaultPorts scheme with | some port => .ok port | none => .error .keyError)) ∨
      ∃ port ∈ ports, parts.port = some (some port) ∧ normalizedPortFor ports parts scheme = .ok port := by
  unfold normalizedPortFor
  cases parts.port with
  | none => exact .inl ⟨⟨_, rfl⟩, by simp⟩
  | some given =>
    cases given with
    | none => exact .inr (.inl ⟨rfl, rfl⟩)
    | some port =>
      by_cases hport : port ∈ ports
      · exact .inr (.inr ⟨port, hport, rfl, by simp [hport]⟩)
      · refine .inl ⟨⟨_, if_neg hport⟩, ?_⟩
        rintro (he | ⟨p, hp, he⟩)
        · cases he
        · cases he
          exact hport hp

/-- A host that does not pass is refused; one that passes is sent as it is written, or in its ASCII form. -/
theorem givenHost_cases (u : Unicode) (parts : SplitResult) :
    (∃ detail, normalizedHost u parts = .error (.policy detail)) ∧
        ¬(((parts.hostname u).isSome ∧ (writtenHost u parts).length ≤ maxHostLength) ∧
          ((Ip.ipAddress (writtenHost u parts)).isSome ∨
            ∃ name, u.idna (writtenHost u parts) = some name ∧ hostLabels name = true)) ∨
      normalizedHost u parts = .ok (sentHost u parts, (Ip.ipAddress (writtenHost u parts)).isSome) ∧
        ((parts.hostname u).isSome ∧ (writtenHost u parts).length ≤ maxHostLength) ∧
          ((Ip.ipAddress (writtenHost u parts)).isSome ∨
            ∃ name, u.idna (writtenHost u parts) = some name ∧ hostLabels name = true) := by
  cases hr : normalizedHost u parts with
  | error e =>
    refine .inl ⟨?_, fun hpass => ?_⟩
    · cases e with
      | policy detail => exact ⟨detail, rfl⟩
      | valueError => exact absurd hr normalizedHost_policy
    · have hok : ∃ r, normalizedHost u parts = .ok r := by
        by_cases hip : (Ip.ipAddress (writtenHost u parts)).isSome
        · exact ⟨_, normalizedHost_ok.2 ⟨hpass.1.1, hpass.1.2, .inl ⟨hip, rfl, rfl⟩⟩⟩
        · obtain ⟨name, hidna, hlabels⟩ := hpass.2.resolve_left hip
          exact ⟨_, normalizedHost_ok.2 ⟨hpass.1.1, hpass.1.2, .inr ⟨by simpa using hip, rfl, hidna, hlabels⟩⟩⟩
      obtain ⟨r, hok⟩ := hok
      rw [hr] at hok
      cases hok
  | ok r =>
    obtain ⟨host, isIpLiteral⟩ := r
    obtain ⟨hname, hlen, ⟨hip, rfl, rfl⟩ | ⟨hip, rfl, hidna, hlabels⟩⟩ := normalizedHost_ok.1 hr
    · exact .inr ⟨by rw [sentHost, if_pos hip, hip], ⟨hname, hlen⟩, .inl hip⟩
    · exact .inr ⟨by rw [sentHost, hip, hidna]; rfl, ⟨hname, hlen⟩, .inr ⟨host, hidna, hlabels⟩⟩

/-- **What becomes of the parts of a URL.** -/
theorem normalizePartsFor_cases (u : Unicode) (schemes : List String) (ports : List Nat) (parts : SplitResult) :
    (∃ detail, normalizePartsFor u schemes ports parts = .error (.raised (.policy detail))) ∧
        ¬Passes u schemes ports parts ∨
      normalizePartsFor u schemes ports parts = .error .keyError ∧ Passes u schemes ports parts ∧
        ¬(givenScheme u parts = "http" ∨ givenScheme u parts = "https") ∨
      ∃ port, normalizePartsFor u schemes ports parts = .ok ⟨givenScheme u parts, sentHost u parts, port,
          targetUrl parts (givenScheme u parts) (sentHost u parts) (Ip.ipAddress (writtenHost u parts)).isSome port⟩ ∧
        Passes u schemes ports parts ∧ (givenScheme u parts = "http" ∨ givenScheme u parts = "https") ∧
        (parts.port = some none ∧ port = defaultPort (givenScheme u parts) ∨
          parts.port = some (some port) ∧ port ∈ ports) := by
  have hnone : defaultPorts (givenScheme u parts) = none →
      ¬(givenScheme u parts = "http" ∨ givenScheme u parts = "https") := fun hd hweb => by
    rcases hweb with hweb | hweb <;> (rw [hweb] at hd; exact absurd hd (by decide))
  have hgiven : String.ofList (u.lower parts.scheme) = givenScheme u parts := rfl
  unfold normalizePartsFor
  simp only [hgiven]
  by_cases hscheme : givenScheme u parts ∈ schemes
  case neg => exact .inl ⟨⟨_, if_pos hscheme⟩, fun hp => hscheme hp.scheme⟩
  rw [if_neg (not_not.2 hscheme)]
  by_cases hcred : parts.username.isSome ∨ parts.password.isSome
  case pos =>
    refine .inl ⟨⟨_, if_pos hcred⟩, fun hp => ?_⟩
    simp [hp.credentials] at hcred
  rw [if_neg hcred]
  have hcred' : parts.username = none ∧ parts.password = none := by simpa using hcred
  obtain ⟨⟨detail, hhost⟩, hno⟩ | ⟨hhost, hname, hnamed⟩ := givenHost_cases u parts
  · rw [hhost]
    exact .inl ⟨⟨detail, rfl⟩, fun hp => hno ⟨hp.host, hp.named⟩⟩
  rw [hhost]
  simp only
  obtain ⟨⟨detail, hport⟩, hno⟩ | ⟨hgiven, hport⟩ | ⟨port, hin, hgiven, hport⟩ :=
    givenPort_cases ports parts (givenScheme u parts)
  · rw [hport]
    exact .inl ⟨⟨detail, rfl⟩, fun hp => hno hp.port⟩
  · have hpass : Passes u schemes ports parts := ⟨hscheme, hcred', hname, hnamed, .inl hgiven⟩
    rw [hport]
    cases hd : defaultPorts (givenScheme u parts) with
    | none => exact .inr (.inl ⟨rfl, hpass, hnone hd⟩)
    | some port =>
      exact .inr (.inr ⟨port, rfl, hpass, (defaultPorts_some hd).1, .inl ⟨hgiven, (defaultPorts_some hd).2⟩⟩)
  · have hpass : Passes u schemes ports parts := ⟨hscheme, hcred', hname, hnamed, .inr ⟨port, hin, hgiven⟩⟩
    rw [hport]
    cases hd : defaultPorts (givenScheme u parts) with
    | none => exact .inr (.inl ⟨rfl, hpass, hnone hd⟩)
    | some d => exact .inr (.inr ⟨port, rfl, hpass, (defaultPorts_some hd).1, .inr ⟨hgiven, hin⟩⟩)

theorem trimmed_resource (parts : SplitResult) :
    Trimmed (resource parts) ↔ Trimmed (if parts.query = [] then parts.path else parts.query) := by
  unfold resource
  by_cases hq : parts.query = []
  · simp only [hq, if_true, List.append_nil]
    split
    · next hp =>
      refine ⟨fun _ c hc => ?_, fun _ c hc => ?_⟩
      · rw [hp] at hc
        cases hc
      · cases hc
        decide
    · exact Iff.rfl
  · simp only [hq, if_false, Trimmed]
    have hlast : ∀ front : Text, (front ++ '?' :: parts.query).getLast? = parts.query.getLast? := fun front => by
      rw [List.getLast?_append, List.getLast?_cons]
      cases hl : parts.query.getLast? with
      | none => exact absurd (List.getLast?_eq_none_iff.1 hl) hq
      | some c => rfl
    rw [hlast]

theorem Labelled.isDotted {host : Text} (h : Labelled host) : Dotted host :=
  ⟨host.splitOn '.', h.dotted, by rw [@List.intercalate_splitOn], fun label hlabel =>
    ⟨(h.labels label hlabel).1, fun c hc => by
      rcases (h.labels label hlabel).2 c hc with hchar | rfl
      · rw [labelChar, Bool.or_eq_true] at hchar
        exact hchar.imp_right .inl
      · exact .inr (.inr rfl)⟩⟩

/-- A target on an allowed port is what the policy asks for. -/
theorem Made.admissible {u : Unicode} (hu : Documented u) {schemes : List String} {ports : List Nat}
    {parts : SplitResult} {isIpLiteral : Bool} {target : FetchTarget}
    (hm : Made u schemes ports parts isIpLiteral target) (hport : target.port ∈ ports) :
    Admissible u schemes ports target := by
  have hsplit := hm.split hm.rooted (resource_chars hm.taken)
  obtain ⟨-, hname, hpass, hhost, hp⟩ := hm.read hu (resource parts)
  have hnetloc := authority_chars hm.settled (writtenPort target.scheme target.port)
  rw [← hm.url] at hsplit
  refine ⟨⟨_, hsplit, rfl, hname, hpass, settled_hostname hu hm.settled hhost, ?_, rfl⟩, hm.allowed, hport,
    ⟨hm.settled.nonempty, hu.lower_fixed _ hm.settled.lowered⟩, ?_, fun hc => ?_⟩
  · rw [hp, writtenPort]
    split
    · next hd =>
      refine .inl ⟨rfl, ?_⟩
      rw [hd]
      rcases hm.scheme with h | h <;> rw [h] <;> decide
    · exact .inr rfl
  · obtain ⟨-, hip⟩ | ⟨-, -, -, -, hlabelled⟩ := hm.settled.kind
    · exact .inl hip
    · exact .inr hlabelled.isDotted
  · rw [hm.url] at hc
    simp only [List.mem_append] at hc
    rcases hc with ((hc | hc) | hc) | hc
    · exact absurd (hm.scheme_lower.2 _ hc) (by decide)
    · exact absurd hc (by decide)
    · exact (hnetloc _ hc).2.1.2.2 rfl
    · exact (resource_chars hm.taken _ hc).2 rfl

/-- A host with a colon in it is an address. -/
theorem sentHost_colon {u : Unicode} (hu : Documented u) {schemes : List String} {ports : List Nat}
    {parts : SplitResult} (ht : Taken u parts) (hpass : Passes u schemes ports parts)
    (hcolon : ':' ∈ sentHost u parts) :
    (Ip.ipAddress (writtenHost u parts)).isSome = true := by
  obtain ⟨-, hno⟩ | ⟨hhost, -⟩ := givenHost_cases u parts
  · exact absurd ⟨hpass.host, hpass.named⟩ hno
  · obtain ⟨hip, -⟩ | ⟨-, -, -, -, hlabelled⟩ :=
      (normalizedHost_settled hu ht (username_none_iff.1 hpass.credentials.1) hhost).kind
    · exact hip
    · exact absurd (hlabelled.nameChars _ hcolon) (by decide)

/-- How long the URL of a target is. -/
theorem targetUrl_length (u : Unicode) (parts : SplitResult) {port : Nat}
    (hport : parts.port = some none ∧ port = defaultPort (givenScheme u parts) ∨ parts.port = some (some port))
    (hcolon : ':' ∈ sentHost u parts → (Ip.ipAddress (writtenHost u parts)).isSome = true) :
    (targetUrl parts (givenScheme u parts) (sentHost u parts) (Ip.ipAddress (writtenHost u parts)).isSome port).length =
      (givenScheme u parts).length + 3 + ((sentHost u parts).length + (if ':' ∈ sentHost u parts then 2 else 0)) +
        portLength u parts + max 1 parts.path.length + (if parts.query = [] then 0 else 1 + parts.query.length) := by
  have hauthority : ∀ port, (authority (sentHost u parts) (Ip.ipAddress (writtenHost u parts)).isSome port).length =
      (sentHost u parts).length + (if ':' ∈ sentHost u parts then 2 else 0) + (portText port).length := fun port => by
    unfold authority
    by_cases hc : ':' ∈ sentHost u parts
    · simp only [hc, hcolon hc, and_self, if_true, List.length_append, List.length_cons]
      omega
    · simp [hc]
  have hportText : (portText (writtenPort (givenScheme u parts) port)).length = portLength u parts := by
    rcases hport with ⟨hnone, rfl⟩ | hsome
    · simp [writtenPort, portLength, hnone, portText]
    · simp only [writtenPort, portLength, hsome]
      split
      · rfl
      · simp only [portText, List.length_cons]
        omega
  have hresource : (resource parts).length =
      max 1 parts.path.length + (if parts.query = [] then 0 else 1 + parts.query.length) := by
    have hpath : (if parts.path = [] then ['/'] else parts.path).length = max 1 parts.path.length := by
      split
      · next hp => simp [hp]
      · next hp =>
        have := List.length_pos_iff.2 hp
        omega
    rw [resource, List.length_append, hpath]
    by_cases hq : parts.query = []
    · simp [hq]
    · simp only [hq, if_false, List.length_cons]
      omega
  have hslashes : "://".toList.length = 3 := rfl
  rw [targetUrl_eq, List.length_append, List.length_append, List.length_append, hauthority, hportText, hresource,
    hslashes, String.length_toList]
  omega

/-- **A URL normalizes to a fixed point that satisfies the policy, or to a policy error, exactly if it can be split
and, where it passes every check, is steady.** -/
theorem normalizes_iff {u : Unicode} (hu : Documented u) (schemes : List String) (ports : List Nat) (url : Text) :
    Normalizes u schemes ports url ↔ url = [] ∨ maxUrlLength < url.length ∨
      ∃ parts, urlsplit u (strip url) [] = some parts ∧ (Passes u schemes ports parts → Steady u ports parts) := by
  unfold Normalizes
  by_cases hlong : url = [] ∨ url.length > maxUrlLength
  · have hres : normalizeUrlFor u schemes ports url =
        .error (.raised (.policy "url is empty or exceeds the length limit")) := if_pos hlong
    rw [hres]
    exact iff_of_true ⟨_, rfl⟩ (hlong.imp_right .inl)
  · have hres : normalizeUrlFor u schemes ports url = (match urlsplit u (strip url) [] with
        | none => .error (.raised .valueError)
        | some parts => normalizePartsFor u schemes ports parts) := if_neg hlong
    have hno : (url = [] ∨ maxUrlLength < url.length ∨ ∃ parts, urlsplit u (strip url) [] = some parts ∧
        (Passes u schemes ports parts → Steady u ports parts)) ↔ ∃ parts, urlsplit u (strip url) [] = some parts ∧
        (Passes u schemes ports parts → Steady u ports parts) := by
      rw [← or_assoc]
      exact or_iff_right hlong
    rw [hres, hno]
    cases hsplit : urlsplit u (strip url) [] with
    | none => simp
    | some parts =>
      have ht := urlsplit_taken hsplit
      simp only [Option.some.injEq, exists_eq_left']
      obtain ⟨⟨detail, hp⟩, hpass⟩ | ⟨hp, hpass, hweb⟩ | ⟨port, hp, hpass, hweb, hport⟩ :=
        normalizePartsFor_cases u schemes ports parts
      · rw [hp]
        exact iff_of_true ⟨detail, rfl⟩ fun h => absurd h hpass
      · rw [hp]
        refine iff_of_false ?_ fun h => hweb (h hpass).web
        rintro ⟨detail, hd⟩
        cases hd
      · obtain ⟨isIpLiteral, hm⟩ := normalizePartsFor_made hu ht hp
        rw [hp]
        simp only [hm.fixed hu, trimmed_resource]
        have hlength := targetUrl_length u parts (hport.imp_right fun h => h.1) (sentHost_colon hu ht hpass)
        refine ⟨fun ⟨hadm, hlen, hname, htrim⟩ _ => ⟨hweb, fun hnone => ?_, hname, hlength ▸ hlen, htrim⟩, fun h => ?_⟩
        · rcases hport with ⟨-, rfl⟩ | ⟨hsome, -⟩
          · exact hadm.port
          · rw [hnone] at hsome
            cases hsome
        · have hsteady := h hpass
          refine ⟨hm.admissible hu ?_, hlength ▸ hsteady.length, hsteady.name, hsteady.ending⟩
          rcases hport with ⟨hnone, rfl⟩ | ⟨-, hin⟩
          · exact hsteady.default hnone
          · exact hin

/-! ## Tables for ASCII text -/

/-- What the tables say of ASCII text. -/
def asciiTables : Unicode where
  nfkc t := t
  lower t := t.map Char.toLower
  idna t :=
    if t.all (fun c => c.toNat < 128) && (t.splitOn '.').all fun label => label ≠ [] && label.length < 64 then some t
    else none

theorem toLower_cases (c : Char) : c.toLower = c ∨ c.toLower.isLower = true := by
  by_cases h : c.isUpper = true
  · have hc := isUpper_iff.1 h
    have hval : c.toLower.toNat = c.toNat + 32 := by
      have hle : c.val ≥ 'A'.val ∧ c.val ≤ 'Z'.val := by simpa [Char.isUpper] using h
      have hnat : c.val.toNat = c.toNat := rfl
      simp only [Char.toLower, hle, and_self, dif_pos, Char.toNat, UInt32.toNat_add]
      simp
      omega
    refine .inr (isLower_iff.2 ?_)
    omega
  · exact .inl (toLower_of_not_isUpper h)

theorem asciiTables_lower {t : Text} {c : Char} (h : c ∈ asciiTables.lower t) : c ∈ t ∨ c.isLower = true := by
  obtain ⟨d, hd, rfl⟩ := List.mem_map.1 h
  rcases toLower_cases d with he | hlower
  · rw [he]
    exact .inl hd
  · exact .inr hlower

theorem asciiTables_lowered {t : Text} {c : Char} (h : c ∈ asciiTables.lower t) : asciiTables.lower [c] = [c] := by
  obtain ⟨d, -, rfl⟩ := List.mem_map.1 h
  change [d.toLower.toLower] = _
  rcases toLower_cases d with he | hlower
  · rw [he, he]
  · rw [toLower_of_isLower hlower]

theorem asciiTables_idna {t name : Text} : asciiTables.idna t = some name ↔
    t = name ∧ (∀ c ∈ t, c.toNat < 128) ∧ ∀ label ∈ t.splitOn '.', label ≠ [] ∧ label.length < 64 := by
  simp only [asciiTables, Bool.and_eq_true, List.all_eq_true, decide_eq_true_eq, Option.ite_none_right_eq_some,
    Option.some.injEq]
  exact and_comm

theorem delimiter_not_isLower {c : Char} (h : delimiter c = true) : ¬c.isLower = true := by
  rcases delimiter_eq h with rfl | rfl | rfl | rfl | rfl <;> decide

theorem asciiTables_documented : Documented asciiTables := by
  constructor
  · exact fun _ _ => rfl
  · exact fun _ _ hc => asciiTables_lowered hc
  · exact fun t h => (List.map_congr_left fun c hc => by simpa [asciiTables] using h c hc).trans (List.map_id t)
  · exact fun _ _ hc => (asciiTables_lower hc).imp_right .inl
  · exact fun _ _ hc hdelim =>
      (asciiTables_lower hc).resolve_right (delimiter_not_isLower (by simpa [asciiTables] using hdelim))
  · exact fun _ _ => rfl
  · exact fun t => by simp [asciiTables]
  · exact fun _ hascii hlabels => asciiTables_idna.2 ⟨rfl, hascii, hlabels⟩
  · intro t name h label hlabel
    obtain ⟨rfl, -, hlabels⟩ := asciiTables_idna.1 h
    exact (hlabels label hlabel).2
  · intro t name h hmem
    obtain ⟨rfl, -⟩ := asciiTables_idna.1 h
    exact hmem

theorem normalizes_web :
    Normalizes asciiTables allowedSchemes allowedPorts "HTTP://Example.com:80/a b?q#f".toList := by
  have hsplit : urlsplit asciiTables (strip "HTTP://Example.com:80/a b?q#f".toList) [] =
      some ⟨"http".toList, "Example.com:80".toList, "/a b".toList, "q".toList, "f".toList⟩ := rfl
  refine (normalizes_iff asciiTables_documented _ _ _).2 (.inr (.inr ⟨_, hsplit, fun _ => ⟨?_, ?_, ?_, ?_, ?_⟩⟩))
  · decide
  · decide
  · decide
  · decide
  · decide

/-- An open bracket is no policy error. -/
theorem open_bracket_raises :
    ¬∀ (u : Unicode), Documented u → ∀ (schemes : List String) (ports : List Nat) (url : Text),
      Normalizes u schemes ports url := by
  intro h
  have hres : normalizeUrlFor asciiTables allowedSchemes allowedPorts "http://[".toList =
      .error (.raised .valueError) := rfl
  have hbad := h asciiTables asciiTables_documented allowedSchemes allowedPorts "http://[".toList
  unfold Normalizes at hbad
  rw [hres] at hbad
  obtain ⟨detail, hd⟩ := hbad
  cases hd

end MilpbookLM.Fetch
