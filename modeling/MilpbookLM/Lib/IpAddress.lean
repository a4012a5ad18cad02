/-
Internet addresses as Python's `ipaddress` reads and writes them: octets, hextets, dotted
IPv4 text, IPv6 text with one `::`, with a dotted tail, with a scope id; and networks. An
address is a number, below 2^32 or below 2^128. What is written is what is read back
(`parseV4_v4Text`), and a network is an interval (`Network.contains_iff`).
-/
import Mathlib.Data.List.Basic
import Mathlib.Data.List.Induction
import Mathlib.Tactic.NormNum

namespace MilpbookLM.Ip

/-! ## Digits -/

/-- The value of a hexadecimal digit. -/
def hexDigit (c : Char) : Option Nat :=
  if c.isDigit then some (c.toNat - 48)
  else if 'a' ≤ c ∧ c ≤ 'f' then some (c.toNat - 87)
  else if 'A' ≤ c ∧ c ≤ 'F' then some (c.toNat - 55)
  else none

/-- `int(text, 16)` of hexadecimal digits, read on from `n`. -/
def hexValue (n : Nat) (t : List Char) : Option Nat := t.foldlM (fun n c => (hexDigit c).map (n * 16 + ·)) n

/-- The number of digits to a base, the first one the highest. -/
def ofDigits (base : Nat) (ds : List Nat) : Nat := ds.foldl (fun n d => n * base + d) 0

/-- Numbers with the same digits: lists of one length. -/
theorem foldl_digits_inj {base : Nat} : ∀ {ds es : List Nat} {n m : Nat}, ds.length = es.length →
    (∀ d ∈ ds, d < base) → (∀ e ∈ es, e < base) →
    ds.foldl (fun n d => n * base + d) n = es.foldl (fun n d => n * base + d) m → n = m ∧ ds = es
  | [], [], _, _, _, _, _, h => ⟨h, rfl⟩
  | d :: ds, e :: es, n, m, hlen, hds, hes, h => by
    have hd : d < base := hds d (by simp)
    have he : e < base := hes e (by simp)
    obtain ⟨hnm, rfl⟩ := foldl_digits_inj (n := n * base + d) (m := m * base + e) (by simpa using hlen)
      (fun x hx => hds x (by simp [hx])) (fun x hx => hes x (by simp [hx])) h
    have hdiv := congrArg (· / base) hnm
    have hmod := congrArg (· % base) hnm
    have hpos : 0 < base := by omega
    simp only [Nat.mul_comm _ base, Nat.mul_add_div hpos, Nat.mul_add_mod, Nat.div_eq_of_lt hd, Nat.div_eq_of_lt he,
      Nat.mod_eq_of_lt hd, Nat.mod_eq_of_lt he, Nat.add_zero] at hdiv hmod
    exact ⟨hdiv, by rw [hmod]⟩

theorem ofDigits_inj {base : Nat} {ds es : List Nat} (hlen : ds.length = es.length) (hds : ∀ d ∈ ds, d < base)
    (hes : ∀ e ∈ es, e < base) (h : ofDigits base ds = ofDigits base es) : ds = es :=
  (foldl_digits_inj hlen hds hes h).2

/-- The digits of a positive number start with no zero. -/
theorem head_toDigits {n : Nat} (h : n ≠ 0) : (Nat.toDigits 10 n).head? ≠ some '0' := by
  induction n using Nat.strongRecOn with
  | ind n ih =>
    rw [Nat.toDigits_eq_if (by omega)]
    split
    · have : n = 1 ∨ n = 2 ∨ n = 3 ∨ n = 4 ∨ n = 5 ∨ n = 6 ∨ n = 7 ∨ n = 8 ∨ n = 9 := by omega
      rcases this with rfl | rfl | rfl | rfl | rfl | rfl | rfl | rfl | rfl <;> decide
    · have hhead := ih (n / 10) (by omega) (by omega)
      cases hd : Nat.toDigits 10 (n / 10) with
      | nil => exact absurd hd Nat.toDigits_ne_nil
      | cons c cs => simpa [hd] using hhead

/-! ## IPv4 -/

/-- `_parse_octet`. -/
def parseOctet (t : List Char) : Option Nat :=
  if t = [] then none
  else if !t.all Char.isDigit then none
  else if t.length > 3 then none
  else if t ≠ ['0'] ∧ t.head? = some '0' then none
  else if Nat.ofDigitChars 10 t 0 > 255 then none
  else some (Nat.ofDigitChars 10 t 0)

/-- `IPv4Address(text)`, as a number. -/
def parseV4 (t : List Char) : Option Nat :=
  if (t.splitOn '.').length ≠ 4 then none
  else ((t.splitOn '.').mapM parseOctet).map (ofDigits 256)

/-- The octets of an address. -/
def octets (n : Nat) : List Nat := [n / 2 ^ 24 % 256, n / 2 ^ 16 % 256, n / 2 ^ 8 % 256, n % 256]

/-- `str(IPv4Address(n))`. -/
def v4Text (n : Nat) : List Char := ['.'].intercalate ((octets n).map (Nat.toDigits 10))

theorem parseOctet_lt {t : List Char} {d : Nat} (h : parseOctet t = some d) : d < 256 := by
  unfold parseOctet at h
  split at h; · cases h
  split at h; · cases h
  split at h; · cases h
  split at h; · cases h
  split at h
  · cases h
  · cases h; omega

theorem parseOctet_toDigits {n : Nat} (h : n < 256) : parseOctet (Nat.toDigits 10 n) = some n := by
  have hne : Nat.toDigits 10 n ≠ [] := Nat.toDigits_ne_nil
  have hdigits : (Nat.toDigits 10 n).all Char.isDigit = true := by
    rw [List.all_eq_true]
    exact fun c hc => Nat.isDigit_of_mem_toDigits (by omega) (by omega) hc
  have hlen : (Nat.toDigits 10 n).length ≤ 3 := (Nat.length_toDigits_le_iff (by omega) (by omega)).2 (by omega)
  have hzero : ¬(Nat.toDigits 10 n ≠ ['0'] ∧ (Nat.toDigits 10 n).head? = some '0') := by
    by_cases h0 : n = 0
    · simp [h0]
    · exact fun hc => head_toDigits h0 hc.2
  unfold parseOctet
  rw [if_neg hne, hdigits, if_neg (by simp), if_neg (by omega), if_neg hzero, Nat.ofDigitChars_ten_toDigits,
    if_neg (by omega)]

theorem octets_lt (n : Nat) : ∀ d ∈ octets n, d < 256 := by
  intro d hd
  simp only [octets, List.mem_cons, List.not_mem_nil, or_false] at hd
  omega

theorem ofDigits_octets {n : Nat} (h : n < 2 ^ 32) : ofDigits 256 (octets n) = n := by
  simp only [ofDigits, octets, List.foldl_cons, List.foldl_nil]
  omega

theorem mapM_parseOctet {ds : List Nat} (h : ∀ d ∈ ds, d < 256) :
    (ds.map (Nat.toDigits 10)).mapM parseOctet = some ds := by
  induction ds with
  | nil => rfl
  | cons d ds ih =>
    rw [List.map_cons, List.mapM_cons, parseOctet_toDigits (h d (by simp)), ih fun e he => h e (by simp [he])]
    rfl

theorem splitOn_v4Text (n : Nat) : (v4Text n).splitOn '.' = (octets n).map (Nat.toDigits 10) := by
  apply List.splitOn_intercalate
  · intro l hl hdot
    obtain ⟨d, -, rfl⟩ := List.mem_map.1 hl
    exact absurd (Nat.isDigit_of_mem_toDigits (by omega) (by omega) hdot) (by decide)
  · simp [octets]

/-- **What is written of an IPv4 address is read back as it.** -/
theorem parseV4_v4Text {n : Nat} (h : n < 2 ^ 32) : parseV4 (v4Text n) = some n := by
  unfold parseV4
  rw [splitOn_v4Text, if_neg (by simp [octets]), mapM_parseOctet (octets_lt n), Option.map_some, ofDigits_octets h]

/-- An octet in a list that is read is below 256, and there are as many as texts. -/
theorem mapM_lt {f : List Char → Option Nat} {base : Nat} (hf : ∀ t d, f t = some d → d < base) :
    ∀ {ts : List (List Char)} {ds : List Nat}, ts.mapM f = some ds → ds.length = ts.length ∧ ∀ d ∈ ds, d < base
  | [], ds, h => by cases h; simp
  | t :: ts, ds, h => by
    simp only [List.mapM_cons, bind, Option.bind_eq_some_iff, pure, Option.some.injEq] at h
    obtain ⟨d, hd, es, hes, rfl⟩ := h
    obtain ⟨hlen, hlt⟩ := mapM_lt hf hes
    refine ⟨by simp [hlen], fun e he => ?_⟩
    simp only [List.mem_cons] at he
    rcases he with rfl | he
    · exact hf t _ hd
    · exact hlt e he

/-! ## IPv6 -/

/-- `_parse_hextet`. -/
def parseHextet (t : List Char) : Option Nat :=
  if t = [] ∨ t.length > 4 then none else hexValue 0 t

/-- A dotted last part as the two hextets that it stands for. -/
def dottedTail (parts : List (List Char)) : Option (List (List Char)) :=
  match parts.getLast? with
  | some last =>
    if '.' ∈ last then
      (parseV4 last).map fun v => parts.dropLast ++ [Nat.toDigits 16 (v / 65536 % 65536), Nat.toDigits 16 (v % 65536)]
    else some parts
  | none => some parts

/-- The number of hextets, `skipped` zeros in place of `::`. -/
def hextetsValue (hi : List (List Char)) (skipped : Nat) (lo : List (List Char)) : Option Nat := do
  let hi ← hi.mapM parseHextet
  let lo ← lo.mapM parseHextet
  return ofDigits 65536 (hi ++ List.replicate skipped 0 ++ lo)

/-- The parts with nothing in them, but for the first and the last. -/
def skips (parts : List (List Char)) : List Nat :=
  (List.range parts.length).filter fun i => 1 ≤ i ∧ i < parts.length - 1 ∧ parts[i]? = some []

/-- `_ip_int_from_string` of `parts`, the dotted tail replaced. -/
def parseParts (parts : List (List Char)) : Option Nat :=
  if parts.length > 9 then none
  else
    match skips parts with
    | [] =>
      if parts.length ≠ 8 ∨ parts.head? = some [] ∨ parts.getLast? = some [] then none
      else hextetsValue parts 0 []
    | [i] =>
      let hi := if parts.head? = some [] then i - 1 else i
      let lo := if parts.getLast? = some [] then parts.length - i - 1 - 1 else parts.length - i - 1
      if parts.head? = some [] ∧ hi ≠ 0 then none
      else if parts.getLast? = some [] ∧ lo ≠ 0 then none
      else if 8 ≤ hi + lo then none
      else hextetsValue (parts.take hi) (8 - (hi + lo)) (parts.drop (parts.length - lo))
    | _ => none

/-- `_ip_int_from_string`. -/
def parseV6Body (t : List Char) : Option Nat :=
  if t = [] ∨ (t.splitOn ':').length < 3 then none else (dottedTail (t.splitOn ':')).bind parseParts

/-- `IPv6Address(text)`, as a number: the scope id is split off. -/
def parseV6 (t : List Char) : Option Nat :=
  if '/' ∈ t then none
  else
    match t.splitOn '%' with
    | [address] => parseV6Body address
    | [address, scope] => if scope = [] then none else parseV6Body address
    | _ => none

/-- An address of either family. -/
inductive Address
  | v4 (n : Nat)
  | v6 (n : Nat)
  deriving DecidableEq

/-- `ip_address(text)`. -/
def ipAddress (t : List Char) : Option Address :=
  match parseV4 t with
  | some n => some (.v4 n)
  | none => (parseV6 t).map .v6

/-! ## Networks -/

/-- A network of `width`-bit addresses. -/
structure Network (width : Nat) where
  address : Nat
  prefixlen : Nat

/-- `ip in network`. -/
def Network.contains {width : Nat} (net : Network width) (n : Nat) : Bool :=
  n / 2 ^ (width - net.prefixlen) = net.address / 2 ^ (width - net.prefixlen)

/-- How many addresses a network has. -/
def Network.size {width : Nat} (net : Network width) : Nat := 2 ^ (width - net.prefixlen)

/-- The lowest address of a network. -/
def Network.first {width : Nat} (net : Network width) : Nat := net.address / net.size * net.size

/-- **A network is the interval from its first address.** -/
theorem Network.contains_iff {width : Nat} (net : Network width) (n : Nat) :
    net.contains n = true ↔ net.first ≤ n ∧ n < net.first + net.size := by
  have hpos : 0 < 2 ^ (width - net.prefixlen) := Nat.pow_pos (by omega)
  simp only [Network.contains, Network.first, Network.size, decide_eq_true_eq]
  rw [Nat.div_eq_iff hpos]
  omega

end MilpbookLM.Ip
