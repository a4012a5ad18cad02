/-
The hosts that `normalize_url` lets through. What the runtime's tables are relied on for is
`Documented`; under it a host that was normalized is one that normalizing leaves as it is
(`normalizedHost_settled`).
-/
import MilpbookLM.Fetch.Urls
import MilpbookLM.Lib.UrlText
import MilpbookLM.Lib.Ipv6Text
import Mathlib.Data.List.DropRight

namespace MilpbookLM.Fetch

open Url

/-! ## The runtime's tables -/

/-- A character that `_checknetloc` looks for. -/
def delimiter (c : Char) : Bool := c = '/' || c = '?' || c = '#' || c = '@' || c = ':'

/-- What the documentation says of lower case, of NFKC, and of the codec of internationalized names. -/
structure Documented (u : Unicode) : Prop where
  /-- ASCII text is lowered letter by letter. -/
  lower_ascii : ∀ t : Text, (∀ c ∈ t, c.toNat < 128) → u.lower t = t.map Char.toLower
  /-- Lowered text is lower-case, -/
  lower_lowered : ∀ t, ∀ c ∈ u.lower t, u.lower [c] = [c]
  /-- and lower-case text stays as it is. -/
  lower_fixed : ∀ t, (∀ c ∈ t, u.lower [c] = [c]) → u.lower t = t
  /-- Only letters get into a text that is lowered. -/
  lower_kept : ∀ t, ∀ c ∈ u.lower t, c ∈ t ∨ c.isLower = true ∨ 128 ≤ c.toNat
  /-- No letter is lowered to a character that stands for a delimiter. -/
  lower_delimiter : ∀ t, ∀ c ∈ u.lower t, (u.nfkc [c]).any delimiter = true → c ∈ t
  /-- ASCII text is normalized. -/
  nfkc_ascii : ∀ c : Char, c.toNat < 128 → u.nfkc [c] = [c]
  /-- A delimiter comes from one character that stands for it. -/
  nfkc_delimiter : ∀ t, (u.nfkc t).any delimiter = t.any fun c => (u.nfkc [c]).any delimiter
  /-- The labels of an ASCII name are left as they are. -/
  idna_ascii : ∀ t : Text, (∀ c ∈ t, c.toNat < 128) → (∀ label ∈ t.splitOn '.', label ≠ [] ∧ label.length < 64) →
    u.idna t = some t
  /-- No label is longer than 63 characters. -/
  idna_label : ∀ t name, u.idna t = some name → ∀ label ∈ name.splitOn '.', label.length < 64
  /-- No line breaks get into a name. -/
  idna_newline : ∀ t name, u.idna t = some name → '\n' ∈ name → '\n' ∈ t

/-! ## Address texts -/

theorem parseV4_chars {t : Text} {n : Nat} (h : Ip.parseV4 t = some n) : ∀ c ∈ t, c = '.' ∨ c.isDigit = true := by
  unfold Ip.parseV4 at h
  split at h
  · cases h
  · obtain ⟨ds, hds, -⟩ := Option.map_eq_some_iff.1 h
    intro c hc
    rw [← @List.intercalate_splitOn _ t _ _ '.'] at hc
    rcases Ip.mem_intercalate hc with rfl | ⟨p, hp, hc⟩
    · exact .inl rfl
    · obtain ⟨d, hd⟩ := Ip.mapM_read hds p hp
      unfold Ip.parseOctet at hd
      split at hd; · cases hd
      split at hd; · cases hd
      next hdigits => exact .inr (List.all_eq_true.1 (by simpa using hdigits) c hc)

/-- An IPv6 text starts with a part of the address. -/
theorem parseV6_head {t : Text} {n : Nat} (h : Ip.parseV6 t = some n) :
    ':' ∈ t ∧ ∃ c, t.head? = some c ∧ (c = ':' ∨ c = '.' ∨ (Ip.hexDigit c).isSome = true) := by
  have hbody : ∀ {a : Text}, Ip.parseV6Body a = some n → ':' ∈ a ∧ ∃ c, a.head? = some c ∧
      (c = ':' ∨ c = '.' ∨ (Ip.hexDigit c).isSome = true) := by
    intro a ha
    have hlegible := Ip.parseV6Body_legible ha
    unfold Ip.parseV6Body at ha
    split at ha; · cases ha
    next hlong =>
    simp only [not_or] at hlong
    refine ⟨Decidable.not_not.1 fun hno => ?_, ?_⟩
    · rw [List.splitOn_eq_singleton hno] at hlong
      simp at hlong
    · cases a with
      | nil => exact absurd rfl hlong.1
      | cons c a => exact ⟨c, rfl, hlegible c (by simp)⟩
  unfold Ip.parseV6 at h
  split at h; · cases h
  split at h
  · next a hsplit =>
    have ht : t = a := by rw [← @List.intercalate_splitOn _ t _ _ '%', hsplit]; simp
    rw [ht]
    exact hbody h
  · next a scope hsplit =>
    split at h; · cases h
    have ht : t = a ++ '%' :: scope := by rw [← @List.intercalate_splitOn _ t _ _ '%', hsplit]; simp
    obtain ⟨hcolon, c, hc, hkind⟩ := hbody h
    rw [ht]
    exact ⟨by simp [hcolon], c, by simp [hc], hkind⟩
  · cases h

theorem ipAddress_colon {t : Text} {a : Ip.Address} (h : Ip.ipAddress t = some a) (hcolon : ':' ∈ t) :
    bracketedHostOk t = true := by
  unfold Ip.ipAddress at h
  split at h
  · next n hv4 => exact absurd (parseV4_chars hv4 _ hcolon) (by decide)
  · next hv4 =>
    obtain ⟨n, hv6, rfl⟩ := Option.map_eq_some_iff.1 h
    obtain ⟨-, c, hc, hkind⟩ := parseV6_head hv6
    have hip : Ip.ipAddress t = some (.v6 n) := by simp [Ip.ipAddress, hv4, hv6]
    unfold bracketedHostOk
    split
    · next rest =>
      cases hc
      exact absurd hkind (by decide)
    · rw [hip]

/-- An address without a colon is an IPv4 address. -/
theorem ipAddress_plain {t : Text} {a : Ip.Address} (h : Ip.ipAddress t = some a) (hcolon : ':' ∉ t) :
    ∀ c ∈ t, c = '.' ∨ c.isDigit = true := by
  unfold Ip.ipAddress at h
  split at h
  · next n hv4 => exact parseV4_chars hv4
  · obtain ⟨n, hv6, rfl⟩ := Option.map_eq_some_iff.1 h
    exact absurd (parseV6_head hv6).1 hcolon

/-! ## Names -/

/-- A character of a dotted name. -/
def nameChar (c : Char) : Bool := c.isLower || c.isDigit || c = '-' || c = '.'

theorem nameChar_lt {c : Char} (h : nameChar c = true) : c.toNat < 128 := by
  simp only [nameChar, Bool.or_eq_true, decide_eq_true_eq] at h
  rcases h with ((h | h) | rfl) | rfl
  · rw [isLower_iff] at h
    omega
  · rw [isDigit_iff] at h
    omega
  · decide
  · decide

theorem nameChar_toLower {c : Char} (h : nameChar c = true) : c.toLower = c := by
  simp only [nameChar, Bool.or_eq_true, decide_eq_true_eq] at h
  refine toLower_of_not_isUpper fun hc => ?_
  rw [isUpper_iff] at hc
  rcases h with ((h | h) | rfl) | rfl
  · rw [isLower_iff] at h
    omega
  · rw [isDigit_iff] at h
    omega
  · simp at hc
  · simp at hc

theorem intercalate_concat {x : Char} {parts : List Text} (h : parts ≠ []) (last : Text) :
    [x].intercalate (parts ++ [last]) = [x].intercalate parts ++ x :: last := by
  induction parts with
  | nil => exact absurd rfl h
  | cons p ps ih =>
    cases ps with
    | nil => simp
    | cons q qs =>
      have := ih (by simp)
      simp only [List.cons_append, List.intercalate_cons_cons] at this ⊢
      rw [this]
      simp

/-- Two or more labels, the last one of letters. -/
structure Labelled (host : Text) : Prop where
  dotted : 2 ≤ (host.splitOn '.').length
  labels : ∀ label ∈ host.splitOn '.', label ≠ [] ∧ ∀ c ∈ label, labelChar c = true ∨ c = '-'
  top : ∃ front top, host.splitOn '.' = front ++ [top] ∧ 2 ≤ top.length ∧ ∀ c ∈ top, c.isLower = true

theorem hostLabels_labelled {host : Text} (h : hostLabels host = true) (hnl : '\n' ∉ host) : Labelled host := by
  have hlast : host.getLast? ≠ some '\n' := fun he => hnl (List.mem_of_getLast? he)
  unfold hostLabels at h
  simp only [hlast, if_false, Bool.and_eq_true, decide_eq_true_eq, List.all_eq_true] at h
  obtain ⟨⟨hlen, hfront⟩, htop⟩ := h
  obtain ⟨front, top, hsplit⟩ : ∃ front top, host.splitOn '.' = front ++ [top] :=
    ⟨_, _, (List.dropLast_append_getLast (List.splitOn_ne_nil '.' host)).symm⟩
  rw [hsplit, List.dropLast_concat] at hfront
  rw [hsplit, List.getLast?_concat, Option.any_some, Bool.and_eq_true, decide_eq_true_eq, List.all_eq_true] at htop
  refine ⟨hlen, fun label hlabel => ?_, front, top, hsplit, htop.1, htop.2⟩
  rw [hsplit, List.mem_append, List.mem_singleton] at hlabel
  rcases hlabel with hlabel | rfl
  · have hok := hfront label hlabel
    simp only [hostLabel, Bool.and_eq_true, decide_eq_true_eq, List.all_eq_true, Bool.or_eq_true] at hok
    refine ⟨fun he => ?_, hok.1.1.2⟩
    rw [he] at hok
    simp at hok
  · refine ⟨fun he => ?_, fun c hc => .inl ?_⟩
    · rw [he] at htop
      simp at htop
    · rw [labelChar, htop.2 c hc, Bool.true_or]

theorem Labelled.nameChars {host : Text} (h : Labelled host) : ∀ c ∈ host, nameChar c = true := by
  intro c hc
  rw [← @List.intercalate_splitOn _ host _ _ '.'] at hc
  rcases Ip.mem_intercalate hc with rfl | ⟨p, hp, hc⟩
  · decide
  · rcases (h.labels p hp).2 c hc with hc | rfl
    · rw [labelChar, Bool.or_eq_true] at hc
      rcases hc with hc | hc <;> simp [nameChar, hc]
    · decide

/-- A name ends with a letter. -/
theorem Labelled.ending {host : Text} (h : Labelled host) : ∃ c, host.getLast? = some c ∧ c.isLower = true := by
  obtain ⟨front, top, hsplit, hlen, htop⟩ := h.top
  have hne : front ≠ [] := fun he => by
    have := h.dotted
    rw [hsplit, he] at this
    simp at this
  have hhost : host = ['.'].intercalate front ++ '.' :: top := by
    rw [← @List.intercalate_splitOn _ host _ _ '.', hsplit]
    exact intercalate_concat hne top
  cases top using List.reverseRecOn with
  | nil => simp at hlen
  | append_singleton t c =>
    refine ⟨c, ?_, htop c (by simp)⟩
    rw [hhost, ← List.cons_append, ← List.append_assoc, List.getLast?_concat]

theorem Labelled.not_address {host : Text} (h : Labelled host) : Ip.ipAddress host = none := by
  have hcolon : ':' ∉ host := fun hc => absurd (h.nameChars _ hc) (by decide)
  cases hip : Ip.ipAddress host with
  | none => rfl
  | some a =>
    obtain ⟨c, hc, hlower⟩ := h.ending
    rcases ipAddress_plain hip hcolon c (List.mem_of_getLast? hc) with rfl | hdigit
    · exact absurd hlower (by decide)
    · rw [isDigit_iff] at hdigit
      rw [isLower_iff] at hlower
      omega

/-! ## Hosts -/

/-- The host as it is checked: lower-case, without the dots at its end. -/
def writtenHost (u : Unicode) (parts : SplitResult) : Text :=
  (u.lower ((parts.hostname u).getD [])).rdropWhile (· = '.')

theorem normalizedHost_ok {u : Unicode} {parts : SplitResult} {host : Text} {isIpLiteral : Bool} :
    normalizedHost u parts = .ok (host, isIpLiteral) ↔
      (parts.hostname u).isSome ∧ (writtenHost u parts).length ≤ maxHostLength ∧
        ((Ip.ipAddress (writtenHost u parts)).isSome ∧ host = writtenHost u parts ∧ isIpLiteral = true ∨
          Ip.ipAddress (writtenHost u parts) = none ∧ isIpLiteral = false ∧
            u.idna (writtenHost u parts) = some host ∧ hostLabels host = true) := by
  unfold normalizedHost
  cases hname : parts.hostname u with
  | none => simp
  | some name =>
    have hwritten : writtenHost u parts = ((u.lower name).reverse.dropWhile (· = '.')).reverse := by
      rw [writtenHost, hname]
      rfl
    simp only [← hwritten, Option.isSome_some, true_and]
    by_cases hlong : (writtenHost u parts).length > maxHostLength
    · simp only [hlong, if_true, reduceCtorEq, false_iff]
      omega
    · have hle : (writtenHost u parts).length ≤ maxHostLength := by omega
      simp only [hlong, if_false, hle, true_and]
      cases hip : Ip.ipAddress (writtenHost u parts) with
      | some a =>
        simp
        grind
      | none =>
        cases hidna : u.idna (writtenHost u parts) with
        | none => simp
        | some name =>
          by_cases hlabels : hostLabels name = true
          · simp [hlabels]
            grind
          · simp [hlabels]
            grind

/-- A host that is a normalized one already. -/
structure SettledHost (u : Unicode) (host : Text) (isIpLiteral : Bool) : Prop where
  lowered : ∀ c ∈ host, u.lower [c] = [c]
  undotted : host.rdropWhile (· = '.') = host
  nonempty : host ≠ []
  chars : ∀ c ∈ host, UrlChar c ∧ NetlocChar c ∧ c ≠ '@' ∧ c ≠ ']'
  kind : isIpLiteral = true ∧ (Ip.ipAddress host).isSome ∨
    isIpLiteral = false ∧ Ip.ipAddress host = none ∧ u.idna host = some host ∧ hostLabels host = true ∧ Labelled host
  plain : ¬(isIpLiteral = true ∧ ':' ∈ host) → ∀ c ∈ host, c ≠ ':' ∧ c ≠ '[' ∧ c.toNat < 128
  bracketed : isIpLiteral = true ∧ ':' ∈ host → bracketedHostOk host = true ∧
    ∀ port, netlocOk u ('[' :: host ++ ']' :: portText port) = true

theorem Labelled.settled {u : Unicode} (hu : Documented u) {host written : Text} (h : Labelled host)
    (hidna : u.idna written = some host) (hlabels : hostLabels host = true) : SettledHost u host false := by
  have hascii : ∀ c ∈ host, c.toNat < 128 := fun c hc => nameChar_lt (h.nameChars c hc)
  obtain ⟨last, hlast, hlower⟩ := h.ending
  refine ⟨fun c hc => ?_, ?_, fun he => ?_, fun c hc => ?_, .inr ⟨rfl, h.not_address, ?_, hlabels, h⟩,
    fun _ c hc => ⟨?_, ?_, hascii c hc⟩, fun hc => absurd hc.1 (by decide)⟩
  · rw [hu.lower_ascii [c] (by simpa using hascii c hc), List.map_singleton, nameChar_toLower (h.nameChars c hc)]
  · refine List.rdropWhile_eq_self_iff.2 fun hne hdot => ?_
    rw [List.getLast?_eq_some_getLast hne, Option.some.injEq] at hlast
    rw [hlast, decide_eq_true_eq] at hdot
    rw [hdot] at hlower
    exact absurd hlower (by decide)
  · rw [he] at hlast
    cases hlast
  · have hname := h.nameChars c hc
    have hno : ∀ {d : Char}, nameChar d = false → c ≠ d := fun hd he => by
      rw [he, hd] at hname
      cases hname
    exact ⟨⟨hno (by decide), hno (by decide), hno (by decide)⟩, ⟨hno (by decide), hno (by decide), hno (by decide)⟩,
      hno (by decide), hno (by decide)⟩
  · exact hu.idna_ascii host hascii fun label hlabel =>
      ⟨(h.labels label hlabel).1, hu.idna_label _ _ hidna label hlabel⟩
  · rintro rfl
    exact absurd (h.nameChars _ hc) (by decide)
  · rintro rfl
    exact absurd (h.nameChars _ hc) (by decide)

/-- What is in a written host and is no letter was in the host that was given. -/
theorem mem_writtenHost {u : Unicode} (hu : Documented u) {parts : SplitResult} {c : Char}
    (h : c ∈ writtenHost u parts) (hlower : ¬c.isLower = true) (hascii : c.toNat < 128) (hpercent : c ≠ '%') :
    c ∈ parts.hostinfo.1 := by
  have hkept : ∀ {t : Text}, c ∈ u.lower t → c ∈ t := fun {t} hc => by
    rcases hu.lower_kept t c hc with hc | hc | hc
    · exact hc
    · exact absurd hc hlower
    · omega
  have hname := hkept ((List.rdropWhile_prefix _ _).subset h)
  unfold SplitResult.hostname at hname
  simp only at hname
  split at hname
  · simp at hname
  · simp only [Option.getD_some, List.mem_append] at hname
    rcases hname with hc | hc
    · exact partition_front (hkept hc)
    · split at hc
      · simp only [List.mem_cons] at hc
        exact partition_back (hc.resolve_left hpercent)
      · simp at hc

/-- The same of a character that stands for a delimiter. -/
theorem mem_writtenHost_delimiter {u : Unicode} (hu : Documented u) {parts : SplitResult} {c : Char}
    (h : c ∈ writtenHost u parts) (hdelimiter : (u.nfkc [c]).any delimiter = true) (hascii : 128 ≤ c.toNat) :
    c ∈ parts.hostinfo.1 := by
  have hname := hu.lower_delimiter _ c ((List.rdropWhile_prefix _ _).subset h) hdelimiter
  unfold SplitResult.hostname at hname
  simp only at hname
  split at hname
  · simp at hname
  · simp only [Option.getD_some, List.mem_append] at hname
    rcases hname with hc | hc
    · exact partition_front (hu.lower_delimiter _ c hc hdelimiter)
    · split at hc
      · simp only [List.mem_cons] at hc
        rcases hc with rfl | hc
        · exact absurd hascii (by decide)
        · exact partition_back hc
      · simp at hc

section Given

variable {u : Unicode} (hu : Documented u) {parts : SplitResult} (ht : Taken u parts) (hat : '@' ∉ parts.netloc)

include hat in
theorem hostinfo_netloc {c : Char} (h : c ∈ parts.hostinfo.1) : c ∈ parts.netloc := by
  obtain ⟨-, -, hsub⟩ | ⟨-, -, hsub⟩ := hostinfo_cases hat
  · exact hsub c h
  · exact hsub c h

include hu ht hat in
/-- A written host has none of the characters that end a host or a network location. -/
theorem writtenHost_chars : ∀ c ∈ writtenHost u parts, UrlChar c ∧ NetlocChar c ∧ c ≠ '@' := by
  have hno : ∀ {d : Char}, d ∈ writtenHost u parts → ¬d.isLower = true → d.toNat < 128 → d ≠ '%' →
      UrlChar d ∧ NetlocChar d ∧ d ≠ '@' := fun {d} hd hlower hascii hpercent => by
    have hd' := hostinfo_netloc hat (mem_writtenHost hu hd hlower hascii hpercent)
    exact ⟨(ht.netloc d hd').1, (ht.netloc d hd').2, fun he => hat (he ▸ hd')⟩
  intro c hc
  refine ⟨⟨?_, ?_, ?_⟩, ⟨?_, ?_, ?_⟩, ?_⟩
  · rintro rfl
    exact (hno hc (by decide) (by decide) (by decide)).1.1 rfl
  · rintro rfl
    exact (hno hc (by decide) (by decide) (by decide)).1.2.1 rfl
  · rintro rfl
    exact (hno hc (by decide) (by decide) (by decide)).1.2.2 rfl
  · rintro rfl
    exact (hno hc (by decide) (by decide) (by decide)).2.1.1 rfl
  · rintro rfl
    exact (hno hc (by decide) (by decide) (by decide)).2.1.2.1 rfl
  · rintro rfl
    exact (hno hc (by decide) (by decide) (by decide)).2.1.2.2 rfl
  · rintro rfl
    exact (hno hc (by decide) (by decide) (by decide)).2.2 rfl

theorem delimiter_eq {c : Char} (h : delimiter c = true) : c = '/' ∨ c = '?' ∨ c = '#' ∨ c = '@' ∨ c = ':' := by
  simpa [delimiter, or_assoc] using h

include hu ht in
/-- A character of the network location that stands for a delimiter is not let through. -/
theorem netloc_delimiter {c : Char} (h : c ∈ parts.netloc) (hascii : 128 ≤ c.toNat) :
    (u.nfkc [c]).any delimiter = false := by
  have hchecked := ht.checked
  unfold netlocOk at hchecked
  split at hchecked
  · next hall =>
    have := List.all_eq_true.1 hall c h
    rw [decide_eq_true_eq] at this
    omega
  · simp only [Bool.or_eq_true, decide_eq_true_eq, Bool.not_eq_true'] at hchecked
    cases hany : (u.nfkc [c]).any delimiter with
    | false => rfl
    | true =>
      -- `c` is in what is normalized
      have hin : c ∈ parts.netloc.filter fun c => c ≠ '@' && c ≠ ':' && c ≠ '#' && c ≠ '?' := by
        refine List.mem_filter.2 ⟨h, ?_⟩
        simp only [Bool.and_eq_true, decide_eq_true_eq]
        refine ⟨⟨⟨?_, ?_⟩, ?_⟩, ?_⟩ <;> (rintro rfl; exact absurd hascii (by decide))
      have hn : (u.nfkc (parts.netloc.filter fun c => c ≠ '@' && c ≠ ':' && c ≠ '#' && c ≠ '?')).any delimiter =
          true := by
        rw [hu.nfkc_delimiter]
        exact List.any_eq_true.2 ⟨c, hin, hany⟩
      rcases hchecked with heq | hnone
      · rw [← heq] at hn
        obtain ⟨d, hd, hdelim⟩ := List.any_eq_true.1 hn
        obtain ⟨hmem, hnot⟩ := List.mem_filter.1 hd
        rcases delimiter_eq hdelim with rfl | rfl | rfl | rfl | rfl
        · exact absurd rfl (ht.netloc _ hmem).2.1
        · exact absurd hnot (by decide)
        · exact absurd hnot (by decide)
        · exact absurd hnot (by decide)
        · exact absurd hnot (by decide)
      · exact absurd hn (by simpa [delimiter] using hnone)

include hu ht hat in
theorem netlocOk_written (port : Option Nat) :
    netlocOk u ('[' :: writtenHost u parts ++ ']' :: portText port) = true := by
  have hchars := writtenHost_chars hu ht hat
  unfold netlocOk
  split
  · rfl
  · simp only [Bool.or_eq_true, decide_eq_true_eq, Bool.not_eq_true']
    refine .inr ?_
    cases hany : (u.nfkc (('[' :: writtenHost u parts ++ ']' :: portText port).filter fun c =>
        c ≠ '@' && c ≠ ':' && c ≠ '#' && c ≠ '?')).any delimiter with
    | false => exact hany
    | true =>
      rw [hu.nfkc_delimiter] at hany
      obtain ⟨c, hc, hdelim⟩ := List.any_eq_true.1 hany
      obtain ⟨hmem, hnot⟩ := List.mem_filter.1 hc
      simp only [Bool.and_eq_true, decide_eq_true_eq] at hnot
      -- it is in the host, as nothing else is not ASCII, and a delimiter in ASCII is filtered out
      by_cases hascii : c.toNat < 128
      · rw [hu.nfkc_ascii c hascii, List.any_cons, List.any_nil, Bool.or_false] at hdelim
        rcases delimiter_eq hdelim with rfl | rfl | rfl | rfl | rfl
        · simp only [List.cons_append, List.mem_cons, List.mem_append] at hmem
          rcases hmem with hmem | hmem | hmem | hmem
          · exact absurd hmem (by decide)
          · exact absurd rfl (hchars _ hmem).2.1.1
          · exact absurd hmem (by decide)
          · exact absurd (mem_portText hmem) (by decide)
        · exact absurd rfl hnot.2
        · exact absurd rfl hnot.1.2
        · exact absurd rfl hnot.1.1.1
        · exact absurd rfl hnot.1.1.2
      · have hhost : c ∈ writtenHost u parts := by
          simp only [List.cons_append, List.mem_cons, List.mem_append] at hmem
          rcases hmem with rfl | hmem | rfl | hmem
          · exact absurd (by decide) hascii
          · exact hmem
          · exact absurd (by decide) hascii
          · rcases mem_portText hmem with rfl | hdigit
            · exact absurd (by decide) hascii
            · rw [isDigit_iff] at hdigit
              omega
        have hin := hostinfo_netloc hat (mem_writtenHost_delimiter hu hhost hdelim (by omega))
        rw [netloc_delimiter hu ht hin (by omega)] at hdelim
        cases hdelim

include hu ht hat in
/-- **A normalized host is settled.** -/
theorem normalizedHost_settled {host : Text} {isIpLiteral : Bool}
    (h : normalizedHost u parts = .ok (host, isIpLiteral)) : SettledHost u host isIpLiteral := by
  have hchars := writtenHost_chars hu ht hat
  obtain ⟨-, -, ⟨hip, rfl, rfl⟩ | ⟨-, rfl, hidna, hlabels⟩⟩ := normalizedHost_ok.1 h
  · obtain ⟨a, ha⟩ := Option.isSome_iff_exists.1 hip
    have hclose : ']' ∉ writtenHost u parts := fun hmem => by
      have hin := mem_writtenHost hu hmem (by decide) (by decide) (by decide)
      by_cases hcolon : ':' ∈ writtenHost u parts
      · have hcolon' := mem_writtenHost hu hcolon (by decide) (by decide) (by decide)
        obtain ⟨-, hno, -⟩ | ⟨-, hno, -⟩ := hostinfo_cases hat
        · exact hno hcolon'
        · exact hno hin
      · exact absurd (ipAddress_plain ha hcolon _ hmem) (by decide)
    refine ⟨fun c hc => hu.lower_lowered _ c ((List.rdropWhile_prefix _ _).subset hc), List.rdropWhile_idempotent _ _,
      fun he => ?_, fun c hc => ⟨(hchars c hc).1, (hchars c hc).2.1, (hchars c hc).2.2, fun he => hclose (he ▸ hc)⟩,
      .inl ⟨rfl, hip⟩, fun hplain c hc => ?_, fun hcolon => ⟨ipAddress_colon ha hcolon.2, netlocOk_written hu ht hat⟩⟩
    · rw [he] at hip
      exact absurd hip (by decide)
    · have hno : ':' ∉ writtenHost u parts := fun hcolon => hplain ⟨rfl, hcolon⟩
      refine ⟨fun he => hno (he ▸ hc), fun he => ?_, ?_⟩
      · rw [he] at hc
        exact absurd (ipAddress_plain ha hno _ hc) (by decide)
      · rcases ipAddress_plain ha hno c hc with rfl | hdigit
        · decide
        · rw [isDigit_iff] at hdigit
          omega
  · refine (hostLabels_labelled hlabels fun hnl => ?_).settled hu hidna hlabels
    exact (hchars _ (hu.idna_newline _ _ hidna hnl)).1.2.2 rfl

end Given

end MilpbookLM.Fetch
