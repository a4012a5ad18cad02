/-
What IPv6 text is accepted: eight parts between colons, or two lists of parts, fewer than
eight together, with `::` between them (`parseV6Body_shape`). A part is up to four
hexadecimal digits; the last one may be a dotted IPv4 address in place of two.
-/
import MilpbookLM.Lib.IpAddress

namespace MilpbookLM.Ip

/-- Parts with colons between them. -/
abbrev joined (parts : List (List Char)) : List Char := [':'].intercalate parts

/-- A part with something in it and no colon. -/
def Plain (part : List Char) : Prop := part ≠ [] ∧ ':' ∉ part

theorem joined_append {ps qs : List (List Char)} (hp : ps ≠ []) (hq : qs ≠ []) :
    joined (ps ++ qs) = joined ps ++ ':' :: joined qs := by
  induction ps with
  | nil => exact absurd rfl hp
  | cons p ps ih =>
    cases ps with
    | nil =>
      rw [List.singleton_append, joined, List.intercalate_cons_of_ne_nil hq]
      simp [joined]
    | cons p' ps =>
      have := ih (by simp)
      rw [List.cons_append] at this
      simp only [joined, List.cons_append, List.intercalate_cons_cons] at this ⊢
      rw [this]
      simp

/-- A piece has no separator. -/
theorem not_mem_splitOn {x : Char} {t p : List Char} (h : p ∈ t.splitOn x) : x ∉ p := by
  induction t generalizing p with
  | nil => simp at h; simp [h]
  | cons c t ih =>
    rw [List.splitOn_cons_eq_if_modifyHead] at h
    split at h
    · simp only [List.mem_cons] at h
      rcases h with rfl | h
      · simp
      · exact ih h
    · next hc =>
      cases hs : t.splitOn x with
      | nil => exact absurd hs (List.splitOn_ne_nil x t)
      | cons q qs =>
        rw [hs] at h ih
        simp only [List.modifyHead_cons, List.mem_cons] at h
        rcases h with rfl | h
        · have hq : x ∉ q := ih (by simp)
          simp only [List.mem_cons, not_or]
          exact ⟨fun he => hc (by simp [he]), hq⟩
        · exact ih (by simp [h])

/-! ## Dotted tails -/

theorem dottedTail_cases {parts parts' : List (List Char)} (h : dottedTail parts = some parts') :
    (parts' = parts ∧ ∀ p, parts.getLast? = some p → '.' ∉ p) ∨
      ∃ init last v, parts = init ++ [last] ∧ '.' ∈ last ∧ parseV4 last = some v ∧
        parts' = init ++ [Nat.toDigits 16 (v / 65536 % 65536), Nat.toDigits 16 (v % 65536)] := by
  unfold dottedTail at h
  split at h
  · next last hlast =>
    have hparts : parts = parts.dropLast ++ [last] := (List.dropLast_append_getLast? last hlast).symm
    split at h
    · next hdot =>
      obtain ⟨v, hv, rfl⟩ := Option.map_eq_some_iff.1 h
      exact .inr ⟨parts.dropLast, last, v, hparts, hdot, hv, rfl⟩
    · next hdot =>
      cases h
      exact .inl ⟨rfl, fun p hp => by rw [hlast] at hp; cases hp; exact hdot⟩
  · next hnone =>
    cases h
    exact .inl ⟨rfl, fun p hp => by rw [hnone] at hp; cases hp⟩

theorem dottedTail_dotted (init : List (List Char)) {last : List Char} {v : Nat} (hdot : '.' ∈ last)
    (hv : parseV4 last = some v) : dottedTail (init ++ [last]) =
      some (init ++ [Nat.toDigits 16 (v / 65536 % 65536), Nat.toDigits 16 (v % 65536)]) := by
  simp [dottedTail, hdot, hv]

theorem dottedTail_plain {parts : List (List Char)} (h : ∀ p, parts.getLast? = some p → '.' ∉ p) :
    dottedTail parts = some parts := by
  unfold dottedTail
  split
  · next last hlast => rw [if_neg (h last hlast)]
  · rfl

/-! ## Hextets -/

theorem parseHextet_nonempty {t : List Char} {n : Nat} (h : parseHextet t = some n) : t ≠ [] := by
  rintro rfl
  simp [parseHextet] at h

/-- Whatever a list is read from is read. -/
theorem mapM_read {f : List Char → Option Nat} : ∀ {ts : List (List Char)} {ds : List Nat}, ts.mapM f = some ds →
    ∀ t ∈ ts, ∃ d, f t = some d
  | [], _, _ => by simp
  | t :: ts, ds, h => by
    simp only [List.mapM_cons, bind, Option.bind_eq_some_iff, pure, Option.some.injEq] at h
    obtain ⟨d, hd, es, hes, -⟩ := h
    intro s hs
    simp only [List.mem_cons] at hs
    rcases hs with rfl | hs
    · exact ⟨d, hd⟩
    · exact mapM_read hes s hs

theorem mapM_nonempty {ps : List (List Char)} {ns : List Nat} (h : ps.mapM parseHextet = some ns) :
    ∀ p ∈ ps, p ≠ [] := by
  intro p hp
  obtain ⟨n, hn⟩ := mapM_read h p hp
  exact parseHextet_nonempty hn

theorem hextetsValue_some {hi lo : List (List Char)} {skipped n : Nat} (h : hextetsValue hi skipped lo = some n) :
    ∃ hs ls, hi.mapM parseHextet = some hs ∧ lo.mapM parseHextet = some ls ∧
      n = ofDigits 65536 (hs ++ List.replicate skipped 0 ++ ls) := by
  simp only [hextetsValue, bind, Option.bind_eq_some_iff, pure, Option.some.injEq] at h
  obtain ⟨hs, hhs, ls, hls, rfl⟩ := h
  exact ⟨hs, ls, hhs, hls, rfl⟩

theorem hexDigit_lt {c : Char} {d : Nat} (h : hexDigit c = some d) : d < 16 := by
  have hle : ∀ {b : Char}, c ≤ b → c.toNat ≤ b.toNat := fun hc => UInt32.le_iff_toNat_le.1 hc
  unfold hexDigit at h
  split at h
  · next hc =>
    cases h
    have := (Char.isDigit_iff_toNat.1 hc).2
    have h9 : '9'.toNat = 57 := rfl
    omega
  split at h
  · next hc =>
    cases h
    have := hle hc.2
    have hf : 'f'.toNat = 102 := rfl
    omega
  split at h
  · next hc =>
    cases h
    have := hle hc.2
    have hf : 'F'.toNat = 70 := rfl
    omega
  · cases h

theorem hexValue_lt : ∀ {t : List Char} {n m : Nat}, hexValue n t = some m → m < (n + 1) * 16 ^ t.length
  | [], n, m, h => by
    cases h
    simp
  | c :: t, n, m, h => by
    simp only [hexValue, List.foldlM_cons, bind, Option.bind_eq_some_iff, Option.map_eq_some_iff] at h
    obtain ⟨k, ⟨d, hd, rfl⟩, hrest⟩ := h
    have hlt : m < (n * 16 + d + 1) * 16 ^ t.length := hexValue_lt hrest
    have hd16 := hexDigit_lt hd
    have hle : (n * 16 + d + 1) * 16 ^ t.length ≤ (n + 1) * 16 * 16 ^ t.length := Nat.mul_le_mul_right _ (by omega)
    rw [List.length_cons, Nat.pow_succ, Nat.mul_comm (16 ^ t.length) 16, ← Nat.mul_assoc]
    omega

/-- A text has a value if all of it is hexadecimal. -/
theorem hexValue_isSome (t : List Char) (n : Nat) : (hexValue n t).isSome = t.all fun c => (hexDigit c).isSome := by
  induction t generalizing n with
  | nil => rfl
  | cons c t ih =>
    unfold hexValue at ih ⊢
    rw [List.foldlM_cons, List.all_cons]
    cases hexDigit c with
    | none => rfl
    | some d => simpa using ih (n * 16 + d)

theorem parseHextet_lt {t : List Char} {n : Nat} (h : parseHextet t = some n) : n < 65536 := by
  unfold parseHextet at h
  split at h
  · cases h
  · next hlen =>
    have := hexValue_lt h
    have : 16 ^ t.length ≤ 16 ^ 4 := Nat.pow_le_pow_right (by omega) (by omega)
    omega

theorem parseHextet_digits {t : List Char} {n : Nat} (h : parseHextet t = some n) :
    ∀ c ∈ t, (hexDigit c).isSome = true := by
  unfold parseHextet at h
  split at h
  · cases h
  · have hsome := hexValue_isSome t 0
    rw [h] at hsome
    exact List.all_eq_true.1 hsome.symm

theorem hexDigit_digitChar {d : Nat} (h : d < 16) : hexDigit (Nat.digitChar d) = some d := by
  have : d = 0 ∨ d = 1 ∨ d = 2 ∨ d = 3 ∨ d = 4 ∨ d = 5 ∨ d = 6 ∨ d = 7 ∨ d = 8 ∨ d = 9 ∨ d = 10 ∨ d = 11 ∨ d = 12 ∨
      d = 13 ∨ d = 14 ∨ d = 15 := by omega
  rcases this with rfl | rfl | rfl | rfl | rfl | rfl | rfl | rfl | rfl | rfl | rfl | rfl | rfl | rfl | rfl | rfl <;> decide

theorem hexValue_append {n m : Nat} {t : List Char} {c : Char} {d : Nat} (ht : hexValue n t = some m)
    (hc : hexDigit c = some d) : hexValue n (t ++ [c]) = some (m * 16 + d) := by
  unfold hexValue at ht ⊢
  rw [List.foldlM_append, ht]
  simp [hc]

/-- Hexadecimal digits are read as their number, decimal ones of two digits or more as a greater one. -/
theorem hexValue_toDigits (base : Nat) (hbase : 1 < base) (hle : base ≤ 16) (n : Nat) :
    ∃ m, hexValue 0 (Nat.toDigits base n) = some m ∧ n ≤ m ∧ (m = n ↔ n < base ∨ base = 16) := by
  induction n using Nat.strongRecOn with
  | ind n ih =>
    rw [Nat.toDigits_eq_if hbase]
    split
    · next h =>
      refine ⟨n, ?_, by omega, by simp [h]⟩
      have := hexValue_append (n := 0) (m := 0) (t := []) rfl (hexDigit_digitChar (by omega : n < 16))
      simpa using this
    · next h =>
      have hdiv : n / base < n := Nat.div_lt_self (by omega) hbase
      have hpos : 1 ≤ n / base := Nat.div_pos (by omega) (by omega)
      have hmod : n % base < base := Nat.mod_lt n (by omega)
      obtain ⟨m, hm, hge, hiff⟩ := ih (n / base) hdiv
      have hn : base * (n / base) + n % base = n := Nat.div_add_mod n base
      have hmul : base * (n / base) ≤ 16 * (n / base) := Nat.mul_le_mul_right _ hle
      refine ⟨m * 16 + n % base, hexValue_append hm (hexDigit_digitChar (by omega)), by omega, ?_⟩
      constructor
      · intro heq
        refine .inr (Nat.le_antisymm hle (Nat.le_of_not_lt fun hlt => ?_))
        have : base * (n / base) < 16 * (n / base) := Nat.mul_lt_mul_of_pos_right hlt (by omega)
        omega
      · rintro (hlt | rfl)
        · exact absurd hlt h
        · have := hiff.2 (.inr rfl)
          omega

/-- The text of a hextet is read as it. -/
theorem parseHextet_toDigits {n : Nat} (h : n < 65536) : parseHextet (Nat.toDigits 16 n) = some n := by
  obtain ⟨m, hm, -, hiff⟩ := hexValue_toDigits 16 (by omega) (by omega) n
  have hlen : (Nat.toDigits 16 n).length ≤ 4 := (Nat.length_toDigits_le_iff (by omega) (by omega)).2 (by omega)
  rw [parseHextet, if_neg, hm, hiff.2 (.inr rfl)]
  simp only [Nat.toDigits_ne_nil, false_or]
  omega

/-! ## Shapes -/

/-- The parts on one side of `::`, where no part is read as one empty part. -/
def padded (parts : List (List Char)) : List (List Char) := if parts = [] then [[]] else parts

theorem padded_ne_nil (parts : List (List Char)) : padded parts ≠ [] := by
  unfold padded
  split
  · simp
  · assumption

theorem joined_padded (parts : List (List Char)) : joined (padded parts) = joined parts := by
  unfold padded
  split
  · next h => rw [h]; rfl
  · rfl

theorem joined_double (hi lo : List (List Char)) :
    joined (padded hi ++ [] :: padded lo) = joined hi ++ ':' :: ':' :: joined lo := by
  rw [joined_append (padded_ne_nil hi) (by simp), joined_padded, ← joined_padded lo]
  have := @joined_append [[]] (padded lo) (by simp) (padded_ne_nil lo)
  rw [List.singleton_append] at this
  rw [this]
  simp

theorem skips_mem {parts : List (List Char)} {i : Nat} (h : skips parts = [i]) :
    1 ≤ i ∧ i < parts.length - 1 ∧ parts[i]? = some [] := by
  have hmem : i ∈ skips parts := by rw [h]; simp
  simp only [skips, List.mem_filter, decide_eq_true_eq] at hmem
  exact hmem.2

theorem split_at {parts : List (List Char)} {i : Nat} (h : parts[i]? = some []) :
    parts = parts.take i ++ [] :: parts.drop (i + 1) := by
  obtain ⟨hlt, hget⟩ := List.getElem?_eq_some_iff.1 h
  calc parts = parts.take i ++ parts.drop i := (List.take_append_drop i parts).symm
    _ = parts.take i ++ [] :: parts.drop (i + 1) := by rw [List.drop_eq_getElem_cons hlt, hget]

/-- The parts before `::` that are read are those before it, an empty first one aside. -/
theorem padded_take {parts : List (List Char)} {i : Nat} (hpos : 1 ≤ i) (hi : i < parts.length)
    (hempty : parts.head? = some [] → i - 1 = 0) :
    padded (parts.take (if parts.head? = some [] then i - 1 else i)) = parts.take i := by
  split
  · next h =>
    have hone : i = 1 := by have := hempty h; omega
    cases parts with
    | nil => cases h
    | cons p ps =>
      cases h
      simp [hone, padded]
  · have hne : parts.take i ≠ [] := fun he => by
      have := congrArg List.length he
      simp only [List.length_take, List.length_nil] at this
      omega
    rw [padded, if_neg hne]

/-- The parts after `::` that are read are those after it, an empty last one aside. -/
theorem padded_drop {parts : List (List Char)} {i : Nat} (hi : i < parts.length - 1)
    (hempty : parts.getLast? = some [] → parts.length - i - 1 - 1 = 0) :
    padded (parts.drop (parts.length -
        if parts.getLast? = some [] then parts.length - i - 1 - 1 else parts.length - i - 1)) = parts.drop (i + 1) := by
  split
  · next h =>
    have hlen : parts.length = i + 2 := by have := hempty h; omega
    have hparts := List.dropLast_append_getLast? [] h
    have hdrop : parts.drop (i + 1) = [[]] := by
      rw [← hparts, List.drop_append_of_le_length (by simp; omega), List.drop_of_length_le (by simp; omega)]
      rfl
    rw [hdrop, hempty h, List.drop_of_length_le (by omega)]
    rfl
  · have hsame : parts.length - (parts.length - i - 1) = i + 1 := by omega
    have hne : parts.drop (i + 1) ≠ [] := fun he => by
      have := congrArg List.length he
      simp only [List.length_drop, List.length_nil] at this
      omega
    rw [hsame, padded, if_neg hne]

/-- What `parseParts` accepts. -/
theorem parseParts_shape {parts : List (List Char)} {n : Nat} (h : parseParts parts = some n) :
    (parts.length = 8 ∧ ∃ hs, parts.mapM parseHextet = some hs ∧ n = ofDigits 65536 hs) ∨
      ∃ hi lo hs ls, parts = padded hi ++ [] :: padded lo ∧ hi.length + lo.length < 8 ∧
        hi.mapM parseHextet = some hs ∧ lo.mapM parseHextet = some ls ∧
          n = ofDigits 65536 (hs ++ List.replicate (8 - (hi.length + lo.length)) 0 ++ ls) := by
  unfold parseParts at h
  split at h
  · cases h
  split at h
  · split at h
    · cases h
    · next hfull =>
      simp only [not_or] at hfull
      obtain ⟨hs, ls, hhs, hls, rfl⟩ := hextetsValue_some h
      cases hls
      exact .inl ⟨by omega, hs, hhs, by simp⟩
  · next i hskip =>
    obtain ⟨hpos, hlast, hempty⟩ := skips_mem hskip
    simp only at h
    generalize hhi : (if parts.head? = some [] then i - 1 else i) = hi at h
    generalize hlo : (if parts.getLast? = some [] then parts.length - i - 1 - 1 else parts.length - i - 1) = lo at h
    split at h
    · cases h
    next hhead =>
    split at h
    · cases h
    next htail =>
    split at h
    · cases h
    next hfew =>
    have htake := @padded_take parts i hpos (by omega) fun he => by
      rw [if_pos he] at hhi
      exact Decidable.byContradiction fun hne => hhead ⟨he, by omega⟩
    have hdrop := @padded_drop parts i hlast fun he => by
      rw [if_pos he] at hlo
      exact Decidable.byContradiction fun hne => htail ⟨he, by omega⟩
    rw [hhi] at htake
    rw [hlo] at hdrop
    have hhilen : (parts.take hi).length = hi := by rw [List.length_take]; split at hhi <;> omega
    have hlolen : (parts.drop (parts.length - lo)).length = lo := by rw [List.length_drop]; split at hlo <;> omega
    obtain ⟨hs, ls, hhs, hls, rfl⟩ := hextetsValue_some h
    refine .inr ⟨parts.take hi, parts.drop (parts.length - lo), hs, ls, ?_, by omega, hhs, hls, by rw [hhilen, hlolen]⟩
    rw [htake, hdrop]
    exact split_at hempty
  · cases h

/-- A list that ends with something after `front ++ [[]]` and with two nonempty parts. -/
theorem append_nonempty {front padding init tail : List (List Char)} (h : (front ++ [[]]) ++ padding = init ++ tail)
    (htail : ∀ p ∈ tail, p ≠ []) : ∃ rest, padding = rest ++ tail ∧ init = front ++ [[]] ++ rest := by
  obtain ⟨rest, hinit, hpadding⟩ | ⟨rest, hfront, htl⟩ := List.append_eq_append_iff.1 h
  · exact ⟨rest, hpadding, hinit⟩
  · cases hr : rest.getLast? with
    | none =>
      rw [List.getLast?_eq_none_iff] at hr
      subst hr
      exact ⟨[], by simpa using htl.symm, by simpa using hfront.symm⟩
    | some p =>
      have hlast := congrArg List.getLast? hfront
      rw [List.getLast?_append, List.getLast?_append, hr] at hlast
      have hp : [] = p := by simpa using hlast
      have hmem : p ∈ rest := List.mem_of_getLast? hr
      exact absurd hp.symm (htail p (by rw [htl]; simp [hmem]))

/-- Dotted or not, the parts after `::` are those of the text. -/
theorem undotted {parts front lo' : List (List Char)} (h : dottedTail parts = some (front ++ [] :: padded lo'))
    (hplain : ∀ p ∈ lo', p ≠ []) :
    ∃ lo, parts = front ++ [] :: padded lo ∧ dottedTail lo = some lo' ∧ ∀ p ∈ lo, p ≠ [] := by
  obtain ⟨heq, hdot⟩ | ⟨init, last, v, rfl, hdot, hv, heq⟩ := dottedTail_cases h
  · subst heq
    refine ⟨lo', rfl, dottedTail_plain fun p hp => hdot p ?_, hplain⟩
    cases lo' with
    | nil => cases hp
    | cons q qs => simpa [padded, List.getLast?_append, List.getLast?_cons_cons] using hp
  · have hlast : last ≠ [] := fun he => by rw [he] at hdot; cases hdot
    have hsame : (front ++ [[]]) ++ padded lo' =
        init ++ [Nat.toDigits 16 (v / 65536 % 65536), Nat.toDigits 16 (v % 65536)] := by simpa using heq
    obtain ⟨rest, hrest, hinit⟩ := append_nonempty hsame (by simp [Nat.toDigits_ne_nil])
    cases lo' with
    | nil =>
      have := congrArg List.length hrest
      simp [padded] at this
    | cons q qs =>
      have hlo' : q :: qs = rest ++ [Nat.toDigits 16 (v / 65536 % 65536), Nat.toDigits 16 (v % 65536)] := by
        simpa [padded] using hrest
      refine ⟨rest ++ [last], by rw [hinit]; simp [padded], by rw [hlo']; exact dottedTail_dotted rest hdot hv, ?_⟩
      intro p hp
      simp only [List.mem_append, List.mem_singleton] at hp
      rcases hp with hp | rfl
      · exact hplain p (by rw [hlo']; simp [hp])
      · exact hlast

/-- **What IPv6 text is accepted, and as what.** -/
theorem parseV6Body_shape {t : List Char} {n : Nat} (h : parseV6Body t = some n) :
    (∃ parts' hs, (∀ p ∈ t.splitOn ':', Plain p) ∧ dottedTail (t.splitOn ':') = some parts' ∧ parts'.length = 8 ∧
        parts'.mapM parseHextet = some hs ∧ n = ofDigits 65536 hs) ∨
      ∃ hi lo lo' hs ls, t.splitOn ':' = padded hi ++ [] :: padded lo ∧ (∀ p ∈ hi, Plain p) ∧ (∀ p ∈ lo, Plain p) ∧
        dottedTail lo = some lo' ∧ hi.length + lo'.length < 8 ∧ hi.mapM parseHextet = some hs ∧
          lo'.mapM parseHextet = some ls ∧
            n = ofDigits 65536 (hs ++ List.replicate (8 - (hi.length + lo'.length)) 0 ++ ls) := by
  have hcolon : ∀ p ∈ t.splitOn ':', ':' ∉ p := fun p hp => not_mem_splitOn hp
  unfold parseV6Body at h
  split at h
  · cases h
  obtain ⟨parts', hdotted, hparts⟩ := Option.bind_eq_some_iff.1 h
  obtain ⟨hlen, hs, hhs, hn⟩ | ⟨hi, lo', hs, ls, rfl, hfew, hhs, hls, hn⟩ := parseParts_shape hparts
  · have hne : ∀ p ∈ t.splitOn ':', p ≠ [] := by
      intro p hp he
      obtain ⟨rfl, -⟩ | ⟨init, last, v, heq, hdot, hv, rfl⟩ := dottedTail_cases hdotted
      · exact mapM_nonempty hhs p hp he
      · rw [heq, List.mem_append, List.mem_singleton] at hp
        rcases hp with hp | rfl
        · exact mapM_nonempty hhs p (by simp [hp]) he
        · rw [he] at hdot
          cases hdot
    exact .inl ⟨parts', hs, fun p hp => ⟨hne p hp, hcolon p hp⟩, hdotted, hlen, hhs, hn⟩
  · obtain ⟨lo, heq, hlo, hlone⟩ := undotted hdotted (mapM_nonempty hls)
    rw [heq] at hcolon
    have hmem : ∀ {ps : List (List Char)} {p : List Char}, p ∈ ps → p ∈ padded ps := by
      intro ps p hp
      rw [padded, if_neg (List.ne_nil_of_mem hp)]
      exact hp
    refine .inr ⟨hi, lo, lo', hs, ls, heq, fun p hp => ⟨mapM_nonempty hhs p hp, ?_⟩, fun p hp => ⟨hlone p hp, ?_⟩,
      hlo, hfew, hhs, hls, hn⟩
    · exact hcolon p (by simp [hmem hp])
    · exact hcolon p (by simp [hmem hp])

/-! ## Characters -/

/-- Only hexadecimal digits, colons and dots. -/
def Legible (t : List Char) : Prop := ∀ c ∈ t, c = ':' ∨ c = '.' ∨ (hexDigit c).isSome = true

theorem mem_intercalate {x c : Char} {parts : List (List Char)} (h : c ∈ [x].intercalate parts) :
    c = x ∨ ∃ p ∈ parts, c ∈ p := by
  induction parts with
  | nil => cases h
  | cons p ps ih =>
    cases ps with
    | nil => exact .inr ⟨p, by simp, by simpa using h⟩
    | cons q qs =>
      simp only [List.intercalate_cons_cons, List.mem_append, List.mem_singleton] at h
      rcases h with (h | h) | h
      · exact .inr ⟨p, by simp, h⟩
      · exact .inl h
      · rcases ih h with h | ⟨r, hr, hc⟩
        · exact .inl h
        · exact .inr ⟨r, by simp [hr], hc⟩

/-- A text is legible if its pieces are. -/
theorem legible_of_splitOn {x : Char} (hx : x = ':' ∨ x = '.') {t : List Char} (h : ∀ p ∈ t.splitOn x, Legible p) :
    Legible t := by
  intro c hc
  rw [← @List.intercalate_splitOn _ t _ _ x] at hc
  rcases mem_intercalate hc with rfl | ⟨p, hp, hc⟩
  · rcases hx with hx | hx
    · exact .inl hx
    · exact .inr (.inl hx)
  · exact h p hp c hc

theorem parseOctet_legible {t : List Char} {d : Nat} (h : parseOctet t = some d) : Legible t := by
  unfold parseOctet at h
  split at h; · cases h
  split at h; · cases h
  next hdigits =>
  intro c hc
  have hdigit : c.isDigit = true := List.all_eq_true.1 (by simpa using hdigits) c hc
  exact .inr (.inr (by simp [hexDigit, hdigit]))

theorem parseV4_legible {t : List Char} {n : Nat} (h : parseV4 t = some n) : Legible t := by
  unfold parseV4 at h
  split at h
  · cases h
  · obtain ⟨ds, hds, -⟩ := Option.map_eq_some_iff.1 h
    refine legible_of_splitOn (x := '.') (.inr rfl) fun p hp => ?_
    obtain ⟨d, hd⟩ := mapM_read hds p hp
    exact parseOctet_legible hd

theorem mapM_legible {ps : List (List Char)} {ns : List Nat} (h : ps.mapM parseHextet = some ns) :
    ∀ p ∈ ps, Legible p := by
  intro p hp c hc
  obtain ⟨n, hn⟩ := mapM_read h p hp
  exact .inr (.inr (parseHextet_digits hn c hc))

theorem dottedTail_legible {parts parts' : List (List Char)} {ns : List Nat} (h : dottedTail parts = some parts')
    (hns : parts'.mapM parseHextet = some ns) : ∀ p ∈ parts, Legible p := by
  obtain ⟨rfl, -⟩ | ⟨init, last, v, rfl, -, hv, rfl⟩ := dottedTail_cases h
  · exact mapM_legible hns
  · intro p hp
    simp only [List.mem_append, List.mem_singleton] at hp
    rcases hp with hp | rfl
    · exact mapM_legible hns p (by simp [hp])
    · exact parseV4_legible hv

/-- An accepted text has nothing else in it. -/
theorem parseV6Body_legible {t : List Char} {n : Nat} (h : parseV6Body t = some n) : Legible t := by
  refine legible_of_splitOn (x := ':') (.inl rfl) fun p hp => ?_
  obtain ⟨parts', hs, -, hdotted, -, hhs, -⟩ | ⟨hi, lo, lo', hs, ls, heq, -, -, hlo, -, hhs, hls, -⟩ :=
    parseV6Body_shape h
  · exact dottedTail_legible hdotted hhs p hp
  · have hpad : ∀ {ps : List (List Char)}, p ∈ padded ps → p ∈ ps ∨ p = [] := by
      intro ps hps
      unfold padded at hps
      split at hps
      · exact .inr (List.mem_singleton.1 hps)
      · exact .inl hps
    rw [heq, List.mem_append, List.mem_cons] at hp
    have hempty : Legible [] := by simp [Legible]
    rcases hp with hp | rfl | hp
    · rcases hpad hp with hp | rfl
      · exact mapM_legible hhs p hp
      · exact hempty
    · exact hempty
    · rcases hpad hp with hp | rfl
      · exact dottedTail_legible hlo hls p hp
      · exact hempty

end MilpbookLM.Ip
