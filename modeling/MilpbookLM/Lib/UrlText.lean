/-
What `urlsplit` makes of a URL, read off its parts (`Taken`), and that it takes a URL that is
written as a scheme, a network location and what follows apart into these (`urlsplit_written`).
-/
import MilpbookLM.Lib.Urllib
import Mathlib

namespace MilpbookLM.Url

/-! ## Partitions -/

theorem partition_not_mem {sep : Char} {t : List Char} (h : sep ∉ t) : partition sep t = (t, false, []) := by
  have hall : ∀ c ∈ t, decide (c ≠ sep) = true := fun c hc => by
    simp only [ne_eq, decide_eq_true_eq]
    exact fun he => h (he ▸ hc)
  rw [partition, List.takeWhile_eq_self_iff.2 hall, List.dropWhile_eq_nil_iff.2 hall, decide_eq_false h]
  rfl

theorem partition_append {sep : Char} {s : List Char} (h : sep ∉ s) (t : List Char) :
    partition sep (s ++ sep :: t) = (s, true, t) := by
  have hall : ∀ c ∈ s, decide (c ≠ sep) = true := fun c hc => by
    simp only [ne_eq, decide_eq_true_eq]
    exact fun he => h (he ▸ hc)
  rw [partition, List.takeWhile_append_of_pos hall, List.dropWhile_append_of_pos hall]
  simp

theorem rpartition_not_mem {sep : Char} {t : List Char} (h : sep ∉ t) : rpartition sep t = ([], false, t) := if_neg h

theorem not_mem_partition (sep : Char) (t : List Char) : sep ∉ (partition sep t).1 := fun h => by
  simpa using List.mem_takeWhile_imp h

theorem partition_front {sep c : Char} {t : List Char} (h : c ∈ (partition sep t).1) : c ∈ t :=
  (List.takeWhile_prefix _).subset h

theorem partition_back {sep c : Char} {t : List Char} (h : c ∈ (partition sep t).2.2) : c ∈ t :=
  (List.dropWhile_suffix _).subset (List.mem_of_mem_drop h)

/-- What a partition leaves out is the separator. -/
theorem partition_rejoin (sep : Char) (t : List Char) :
    (partition sep t).1 ++ (if sep ∈ t then sep :: (partition sep t).2.2 else []) = t := by
  split
  · next hmem =>
    obtain ⟨s, t, rfl, hs⟩ := List.eq_append_cons_of_mem hmem
    rw [partition_append hs]
  · next hmem => rw [partition_not_mem hmem, List.append_nil]

/-- What is in front of a separator starts as the text does, unless the separator comes first. -/
theorem partition_head {sep : Char} {t : List Char} (h : (partition sep t).1 ≠ []) :
    (partition sep t).1.head? = t.head? := by
  cases t with
  | nil => exact absurd rfl h
  | cons c t =>
    simp only [partition, List.takeWhile_cons] at h ⊢
    split at h
    · next hc => simp [hc]
    · exact absurd rfl h

/-! ## Splitting -/

theorem isLower_iff {c : Char} : c.isLower = true ↔ 97 ≤ c.toNat ∧ c.toNat ≤ 122 := by
  simp [Char.isLower, UInt32.le_iff_toNat_le, ← Char.toNat_val]

theorem isUpper_iff {c : Char} : c.isUpper = true ↔ 65 ≤ c.toNat ∧ c.toNat ≤ 90 := by
  simp [Char.isUpper, UInt32.le_iff_toNat_le, ← Char.toNat_val]

theorem isDigit_iff {c : Char} : c.isDigit = true ↔ 48 ≤ c.toNat ∧ c.toNat ≤ 57 := by
  simp [Char.isDigit, UInt32.le_iff_toNat_le, ← Char.toNat_val]

theorem toLower_of_not_isUpper {c : Char} (h : ¬c.isUpper = true) : c.toLower = c :=
  dif_neg fun hc => h (by simpa [Char.isUpper] using hc)

theorem toLower_of_isLower {c : Char} (h : c.isLower = true) : c.toLower = c :=
  toLower_of_not_isUpper fun hc => by
    rw [isUpper_iff] at hc
    rw [isLower_iff] at h
    omega

/-- The network location, and what follows it. -/
def splitAuthority (t : List Char) : List Char × List Char :=
  match t with
  | '/' :: '/' :: rest => splitNetloc rest
  | _ => ([], t)

/-- `urlsplit` of a URL without its unsafe characters. -/
def splitParts (u : Unicode) (scheme t : List Char) : Option SplitResult :=
  if bracketsOk (splitAuthority t).1 ∧ netlocOk u (splitAuthority t).1 then
    some ⟨scheme, (splitAuthority t).1, (partition '?' (partition '#' (splitAuthority t).2).1).1,
      (partition '?' (partition '#' (splitAuthority t).2).1).2.2, (partition '#' (splitAuthority t).2).2.2⟩
  else none

theorem urlsplit_eq (u : Unicode) (url : List Char) :
    urlsplit u url [] = splitParts u ((splitScheme (removeUnsafe (url.dropWhile isControl))).getD
        ([], removeUnsafe (url.dropWhile isControl))).1
      ((splitScheme (removeUnsafe (url.dropWhile isControl))).getD ([], removeUnsafe (url.dropWhile isControl))).2 := by
  have hscheme : removeUnsafe ((([] : List Char).dropWhile isControl).reverse.dropWhile isControl).reverse = [] := rfl
  unfold urlsplit splitParts
  simp only [hscheme]
  generalize (splitScheme (removeUnsafe (url.dropWhile isControl))).getD
    ([], removeUnsafe (url.dropWhile isControl)) = p
  change (do
    guard (bracketsOk (splitAuthority p.2).1)
    guard (netlocOk u (splitAuthority p.2).1)
    return (⟨p.1, (splitAuthority p.2).1, (partition '?' (partition '#' (splitAuthority p.2).2).1).1,
      (partition '?' (partition '#' (splitAuthority p.2).2).1).2.2, (partition '#' (splitAuthority p.2).2).2.2⟩ :
        SplitResult)) = _
  by_cases hb : bracketsOk (splitAuthority p.2).1 = true <;>
    by_cases hn : netlocOk u (splitAuthority p.2).1 = true <;> simp [hb, hn, guard]

/-- A character that `urlsplit` leaves in a URL. -/
def UrlChar (c : Char) : Prop := c ≠ '\t' ∧ c ≠ '\r' ∧ c ≠ '\n'

/-- A character of a network location. -/
def NetlocChar (c : Char) : Prop := c ≠ '/' ∧ c ≠ '?' ∧ c ≠ '#'

/-- The parts of a URL are taken from a text without unsafe characters, each up to what ends it. -/
structure Taken (u : Unicode) (parts : SplitResult) : Prop where
  brackets : bracketsOk parts.netloc = true
  checked : netlocOk u parts.netloc = true
  netloc : ∀ c ∈ parts.netloc, UrlChar c ∧ NetlocChar c
  rooted : parts.netloc ≠ [] → parts.path ≠ [] → parts.path.head? = some '/'
  path : ∀ c ∈ parts.path, UrlChar c ∧ c ≠ '?' ∧ c ≠ '#'
  query : ∀ c ∈ parts.query, UrlChar c ∧ c ≠ '#'

theorem safe_of_mem_removeUnsafe {t : List Char} {c : Char} (h : c ∈ removeUnsafe t) : UrlChar c := by
  simp only [removeUnsafe, List.mem_filter, Bool.and_eq_true, decide_eq_true_eq] at h
  exact ⟨h.2.1.1, h.2.1.2, h.2.2⟩

theorem splitAuthority_front {t : List Char} {c : Char} (h : c ∈ (splitAuthority t).1) : c ∈ t ∧ NetlocChar c := by
  unfold splitAuthority at h
  split at h
  · next rest =>
    have hchar := List.mem_takeWhile_imp h
    simp only [ne_eq, Bool.and_eq_true, decide_eq_true_eq] at hchar
    exact ⟨by simp [(List.takeWhile_prefix _).subset h], hchar.1.1, hchar.1.2, hchar.2⟩
  · simp at h

theorem splitAuthority_back {t : List Char} {c : Char} (h : c ∈ (splitAuthority t).2) : c ∈ t := by
  unfold splitAuthority at h
  split at h
  · next rest => simp [(List.dropWhile_suffix _).subset h]
  · exact h

/-- What follows a network location starts with what ends it. -/
theorem splitAuthority_head {t : List Char} {c : Char} (hne : (splitAuthority t).1 ≠ [])
    (h : (splitAuthority t).2.head? = some c) : ¬NetlocChar c := by
  unfold splitAuthority at h hne
  split at h
  · next rest =>
    intro hc
    have hdrop := List.head?_dropWhile_not (fun c => c ≠ '/' && c ≠ '?' && c ≠ '#') rest
    simp only [splitNetloc] at h
    rw [h] at hdrop
    simp [hc.1, hc.2.1, hc.2.2] at hdrop
  · simp at hne

theorem splitScheme_subset {t rest scheme : List Char} {c : Char} (h : splitScheme t = some (scheme, rest))
    (hc : c ∈ rest) : c ∈ t := by
  unfold splitScheme at h
  split at h
  · next hp =>
    split at h
    · cases h
      exact @partition_back ':' _ _ (by rw [hp]; exact hc)
    · cases h
  · cases h

theorem splitParts_taken {u : Unicode} {scheme t : List Char} {parts : SplitResult} (ht : ∀ c ∈ t, UrlChar c)
    (h : splitParts u scheme t = some parts) : Taken u parts := by
  unfold splitParts at h
  split at h
  · next hok =>
    cases h
    have hpath : ∀ c ∈ (partition '#' (splitAuthority t).2).1, UrlChar c ∧ c ≠ '#' := fun c hc =>
      ⟨ht c (splitAuthority_back (partition_front hc)), fun he => not_mem_partition '#' _ (he ▸ hc)⟩
    refine ⟨hok.1, hok.2, fun c hc => ?_, fun hnetloc hne => ?_, fun c hc => ?_, fun c hc => ?_⟩
    · have hfront := splitAuthority_front hc
      exact ⟨ht c hfront.1, hfront.2⟩
    · have hfront : (partition '#' (splitAuthority t).2).1 ≠ [] := fun he => hne (by rw [he]; rfl)
      have hhead : (partition '?' (partition '#' (splitAuthority t).2).1).1.head? = (splitAuthority t).2.head? :=
        (partition_head hne).trans (partition_head hfront)
      cases hc : (splitAuthority t).2.head? with
      | none =>
        rw [hc, List.head?_eq_none_iff] at hhead
        exact absurd hhead hne
      | some c =>
        have hcpath := hpath c (List.mem_of_mem_head? (by rw [partition_head hfront, hc]; rfl))
        have hquery : c ≠ '?' := fun he => not_mem_partition '?' _ (by
          have := List.mem_of_mem_head? (hhead.trans hc)
          rwa [he] at this)
        by_cases hslash : c = '/'
        · rw [hhead, hc, hslash]
        · exact absurd ⟨hslash, hquery, hcpath.2⟩ (splitAuthority_head hnetloc hc)
    · have hp := hpath c (partition_front hc)
      exact ⟨hp.1, fun he => not_mem_partition '?' _ (he ▸ hc), hp.2⟩
    · exact hpath c (partition_back hc)
  · cases h

/-- **The parts of a URL.** -/
theorem urlsplit_taken {u : Unicode} {url : List Char} {parts : SplitResult} (h : urlsplit u url [] = some parts) :
    Taken u parts := by
  rw [urlsplit_eq] at h
  refine splitParts_taken (fun c hc => ?_) h
  cases hs : splitScheme (removeUnsafe (url.dropWhile isControl)) with
  | none =>
    rw [hs] at hc
    exact safe_of_mem_removeUnsafe hc
  | some p =>
    rw [hs] at hc
    exact safe_of_mem_removeUnsafe (splitScheme_subset hs hc)

/-! ## Written URLs -/

theorem splitAuthority_written {netloc rest : List Char} (hnetloc : ∀ c ∈ netloc, NetlocChar c)
    (hrest : rest.head? = some '/') : splitAuthority ("//".toList ++ netloc ++ rest) = (netloc, rest) := by
  have hall : ∀ c ∈ netloc, (decide (c ≠ '/') && decide (c ≠ '?') && decide (c ≠ '#')) = true := fun c hc => by
    simp [(hnetloc c hc).1, (hnetloc c hc).2.1, (hnetloc c hc).2.2]
  obtain ⟨rest, rfl⟩ : ∃ t, rest = '/' :: t := by
    cases rest with
    | nil => cases hrest
    | cons c t => exact ⟨t, by simpa using hrest⟩
  change splitNetloc (netloc ++ '/' :: rest) = _
  simp only [splitNetloc]
  rw [List.takeWhile_append_of_pos hall, List.dropWhile_append_of_pos hall]
  simp

/-- Letters in front of a colon are a scheme. -/
theorem splitScheme_written {scheme : List Char} (hne : scheme ≠ []) (hlower : ∀ c ∈ scheme, c.isLower = true)
    (rest : List Char) : splitScheme (scheme ++ ':' :: rest) = some (scheme, rest) := by
  have hcolon : ':' ∉ scheme := fun h => absurd (hlower _ h) (by decide)
  have hall : scheme.all schemeChar = true := List.all_eq_true.2 fun c hc => by
    simp [schemeChar, Char.isAlphanum, Char.isAlpha, hlower c hc]
  have hmap : scheme.map Char.toLower = scheme :=
    (List.map_congr_left fun c hc => toLower_of_isLower (hlower c hc)).trans (List.map_id _)
  cases scheme with
  | nil => exact absurd rfl hne
  | cons c scheme =>
    have halpha : c.isAlpha = true := by simp [Char.isAlpha, hlower c (by simp)]
    simp only [splitScheme, partition_append hcolon, halpha, hall, hmap, Bool.and_self, if_true]

/-- **A written URL is split into what it was written from.** -/
theorem urlsplit_written {u : Unicode} {scheme netloc rest : List Char} (hne : scheme ≠ [])
    (hlower : ∀ c ∈ scheme, c.isLower = true) (hnetloc : ∀ c ∈ netloc, UrlChar c ∧ NetlocChar c)
    (hhead : rest.head? = some '/') (hrest : ∀ c ∈ rest, UrlChar c ∧ c ≠ '#') (hbrackets : bracketsOk netloc = true)
    (hchecked : netlocOk u netloc = true) :
    urlsplit u (scheme ++ "://".toList ++ netloc ++ rest) [] =
      some ⟨scheme, netloc, (partition '?' rest).1, (partition '?' rest).2.2, []⟩ := by
  have hurl : scheme ++ "://".toList ++ netloc ++ rest = scheme ++ ':' :: ("//".toList ++ netloc ++ rest) := by simp
  have hsafe : removeUnsafe (scheme ++ ':' :: ("//".toList ++ netloc ++ rest)) =
      scheme ++ ':' :: ("//".toList ++ netloc ++ rest) := by
    refine List.filter_eq_self.2 fun c hc => ?_
    have hc' : UrlChar c := by
      simp only [List.mem_append, List.mem_cons] at hc
      rcases hc with hc | rfl | (hc | hc) | hc
      · exact ⟨fun h => absurd (hlower c hc) (by simp [h]), fun h => absurd (hlower c hc) (by simp [h]),
          fun h => absurd (hlower c hc) (by simp [h])⟩
      · exact ⟨by decide, by decide, by decide⟩
      · simp at hc
        simp [hc, UrlChar]
      · exact (hnetloc c hc).1
      · exact (hrest c hc).1
    simp [hc'.1, hc'.2.1, hc'.2.2]
  have hstart : (scheme ++ ':' :: ("//".toList ++ netloc ++ rest)).dropWhile isControl =
      scheme ++ ':' :: ("//".toList ++ netloc ++ rest) := by
    cases scheme with
    | nil => exact absurd rfl hne
    | cons c scheme =>
      have hc : isControl c = false := by
        have hc := isLower_iff.1 (hlower c (by simp))
        simp only [isControl, decide_eq_false_iff_not]
        omega
      rw [List.cons_append, List.dropWhile_cons_of_neg (by simp [hc])]
  have hhash : '#' ∉ rest := fun h => (hrest _ h).2 rfl
  rw [urlsplit_eq, hurl, hstart, hsafe, splitScheme_written hne hlower]
  simp only [Option.getD_some, splitParts, splitAuthority_written (fun c hc => (hnetloc c hc).2) hhead, hbrackets,
    hchecked, and_self, if_true, partition_not_mem hhash]

/-! ## Network locations -/

/-- `:port` after a host, if a port is given. -/
def portText : Option Nat → List Char
  | none => []
  | some port => ':' :: Nat.toDigits 10 port

theorem mem_portText {port : Option Nat} {c : Char} (h : c ∈ portText port) : c = ':' ∨ c.isDigit = true := by
  cases port with
  | none => simp [portText] at h
  | some port =>
    simp only [portText, List.mem_cons] at h
    exact h.imp_right fun h => Nat.isDigit_of_mem_toDigits (by omega) (by omega) h

theorem partition_portText (port : Option Nat) :
    (partition ':' (portText port)).2.2 = (port.map (Nat.toDigits 10)).getD [] := by
  cases port with
  | none => rfl
  | some port => simp [portText, partition]

theorem username_none_iff {parts : SplitResult} : parts.username = none ↔ '@' ∉ parts.netloc := by
  unfold SplitResult.username SplitResult.userinfo rpartition
  by_cases h : '@' ∈ parts.netloc <;> simp [h]

theorem password_none {parts : SplitResult} (h : '@' ∉ parts.netloc) : parts.password = none := by
  simp [SplitResult.password, SplitResult.userinfo, rpartition, h]

/-- The host and the port of a network location without credentials, by its brackets. -/
theorem hostinfo_cases {parts : SplitResult} (h : '@' ∉ parts.netloc) :
    ('[' ∉ parts.netloc ∧ ':' ∉ parts.hostinfo.1 ∧ (∀ c ∈ parts.hostinfo.1, c ∈ parts.netloc)) ∨
      ('[' ∈ parts.netloc ∧ ']' ∉ parts.hostinfo.1 ∧ (∀ c ∈ parts.hostinfo.1, c ∈ parts.netloc)) := by
  have hat : (rpartition '@' parts.netloc).2.2 = parts.netloc := by rw [rpartition_not_mem h]
  by_cases hb : '[' ∈ parts.netloc
  · obtain ⟨front, bracketed, hpart⟩ : ∃ front bracketed, partition '[' parts.netloc = (front, true, bracketed) :=
      ⟨_, _, by rw [partition, decide_eq_true hb]⟩
    have hhost : parts.hostinfo.1 = (partition ']' bracketed).1 := by
      unfold SplitResult.hostinfo
      simp only [hat, hpart]
    rw [hhost]
    exact .inr ⟨hb, not_mem_partition _ _, fun c hc =>
      @partition_back '[' _ _ (by rw [hpart]; exact partition_front hc)⟩
  · have hhost : parts.hostinfo.1 = (partition ':' parts.netloc).1 := by
      unfold SplitResult.hostinfo
      simp only [hat, partition_not_mem hb]
    rw [hhost]
    exact .inl ⟨hb, not_mem_partition _ _, fun c hc => partition_front hc⟩

section Written

variable {parts : SplitResult} {host : List Char} {port : Option Nat}

theorem hostinfo_bracketed (hnetloc : parts.netloc = '[' :: host ++ ']' :: portText port) (hat : '@' ∉ parts.netloc)
    (hhost : ']' ∉ host) : parts.hostinfo = (host, port.map (Nat.toDigits 10)) := by
  have hopen : partition '[' parts.netloc = ([], true, host ++ ']' :: portText port) := by
    rw [hnetloc]
    exact partition_append (s := []) (by simp) _
  unfold SplitResult.hostinfo
  rw [rpartition_not_mem hat]
  simp only [hopen, partition_append hhost, partition_portText]
  cases port with
  | none => rfl
  | some port => simp [Nat.toDigits_ne_nil]

theorem hostinfo_plain (hnetloc : parts.netloc = host ++ portText port) (hat : '@' ∉ parts.netloc)
    (hopen : '[' ∉ parts.netloc) (hhost : ':' ∉ host) : parts.hostinfo = (host, port.map (Nat.toDigits 10)) := by
  unfold SplitResult.hostinfo
  rw [rpartition_not_mem hat]
  simp only [partition_not_mem hopen]
  cases port with
  | none =>
    rw [hnetloc, portText, List.append_nil, partition_not_mem hhost]
    rfl
  | some port =>
    rw [hnetloc, portText, partition_append hhost]
    simp [Nat.toDigits_ne_nil]

theorem port_of_hostinfo (h : parts.hostinfo = (host, port.map (Nat.toDigits 10))) (hport : ∀ n ∈ port, n ≤ 65535) :
    parts.port = some port := by
  unfold SplitResult.port
  rw [h]
  cases port with
  | none => rfl
  | some n =>
    have hdigits : (Nat.toDigits 10 n).all Char.isDigit = true := List.all_eq_true.2 fun c hc =>
      Nat.isDigit_of_mem_toDigits (by omega) (by omega) hc
    have hn : n ≤ 65535 := hport n rfl
    simp [hdigits, Nat.ofDigitChars_ten_toDigits, hn]

theorem port_le {n : Nat} (h : parts.port = some (some n)) : n ≤ 65535 := by
  unfold SplitResult.port at h
  split at h
  · cases h
  · split at h
    · next hok =>
      cases h
      simpa using (Bool.and_eq_true_iff.1 hok).2
    · cases h

theorem bracketsOk_bracketed (hat : '@' ∉ host) (hhost : ']' ∉ host) (hok : bracketedHostOk host = true) :
    bracketsOk ('[' :: host ++ ']' :: portText port) = true := by
  have hat' : '@' ∉ '[' :: host ++ ']' :: portText port := by
    have hport : '@' ∉ portText port := fun h => absurd (mem_portText h) (by decide)
    simp [hat, hport]
  have hopen : partition '[' ('[' :: host ++ ']' :: portText port) = ([], true, host ++ ']' :: portText port) :=
    partition_append (s := []) (by simp) _
  have hnetloc : bracketedNetlocOk ('[' :: host ++ ']' :: portText port) = true := by
    unfold bracketedNetlocOk
    rw [rpartition_not_mem hat']
    simp only [hopen, partition_append hhost, hok]
    cases port <;> simp [portText]
  simp [bracketsOk] at hnetloc ⊢
  exact hnetloc

theorem bracketsOk_plain {netloc : List Char} (hopen : '[' ∉ netloc) (hclose : ']' ∉ netloc) :
    bracketsOk netloc = true := by
  simp [bracketsOk, hopen, hclose]

end Written

end MilpbookLM.Url
