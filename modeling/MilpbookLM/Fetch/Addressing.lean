/-
Which addresses the fetch path dials: `classify_address` with its tables, and
`select_pinned_address`, which refuses a host if any candidate is refused. An address that
embeds an IPv4 address is classified by the text of that address, so the function calls
itself; `classifyAddress_eq` says that it is what the source's equation defines.
-/
import MilpbookLM.Lib.Ipv6Text

namespace MilpbookLM.Fetch

open Ip

/-! ## Networks -/

/-- `a.b.c.d/prefixlen`. -/
def cidr4 (a b c d prefixlen : Nat) : Network 32 := ⟨ofDigits 256 [a, b, c, d], prefixlen⟩

/-- An IPv6 network, by its first hextets. -/
def cidr6 (hextets : List Nat) (prefixlen : Nat) : Network 128 :=
  ⟨ofDigits 65536 (hextets ++ List.replicate (8 - hextets.length) 0), prefixlen⟩

/-- `_IPV4_BLOCKED`. -/
def ipv4Blocked : List (Network 32) :=
  [cidr4 0 0 0 0 8, cidr4 10 0 0 0 8, cidr4 100 64 0 0 10, cidr4 127 0 0 0 8, cidr4 169 254 0 0 16, cidr4 172 16 0 0 12,
    cidr4 192 0 0 0 29, cidr4 192 0 2 0 24, cidr4 192 88 99 0 24, cidr4 192 168 0 0 16, cidr4 198 18 0 0 15,
    cidr4 198 51 100 0 24, cidr4 203 0 113 0 24, cidr4 224 0 0 0 4, cidr4 240 0 0 0 4, cidr4 255 255 255 255 32]

/-- `_IPV6_BLOCKED`. -/
def ipv6Blocked : List (Network 128) :=
  [cidr6 [] 128, cidr6 [0, 0, 0, 0, 0, 0, 0, 1] 128, cidr6 [0x64, 0xff9b] 96, cidr6 [0x100] 64, cidr6 [0x2001, 0xdb8] 32,
    cidr6 [0xfc00] 7, cidr6 [0xfe80] 10, cidr6 [0xff00] 8]

/-- The forms that embed an IPv4 address. -/
inductive Embedding
  | nat64 | sixToFour | teredo
  deriving DecidableEq

/-- `_V4_EMBEDDED_CHECKS`. -/
def v4EmbeddedChecks : List (Embedding × Network 128) :=
  [(.nat64, cidr6 [0x64, 0xff9b] 96), (.sixToFour, cidr6 [0x2002] 16), (.teredo, cidr6 [0x2001, 0xa] 32)]

/-- `IPv6Address._constants._private_networks`. -/
def privateNetworks6 : List (Network 128) :=
  [cidr6 [0, 0, 0, 0, 0, 0, 0, 1] 128, cidr6 [] 128, cidr6 [0, 0, 0, 0, 0, 0xffff] 96, cidr6 [0x64, 0xff9b, 1] 48,
    cidr6 [0x100] 64, cidr6 [0x2001] 23, cidr6 [0x2001, 0xdb8] 32, cidr6 [0x2002] 16, cidr6 [0x3fff] 20, cidr6 [0xfc00] 7,
    cidr6 [0xfe80] 10]

/-- `IPv6Address._constants._private_networks_exceptions`. -/
def privateExceptions6 : List (Network 128) :=
  [cidr6 [0x2001, 1, 0, 0, 0, 0, 0, 1] 128, cidr6 [0x2001, 1, 0, 0, 0, 0, 0, 2] 128, cidr6 [0x2001, 3] 32,
    cidr6 [0x2001, 4, 0x112] 48, cidr6 [0x2001, 0x20] 28, cidr6 [0x2001, 0x30] 28]

def inAny {width : Nat} (nets : List (Network width)) (n : Nat) : Bool := nets.any (·.contains n)

/-- `IPv6Address.is_global`, of an address that is not IPv4-mapped. -/
def isGlobal6 (n : Nat) : Bool := !(inAny privateNetworks6 n && !inAny privateExceptions6 n)

theorem inAny_iff {width : Nat} (nets : List (Network width)) (n : Nat) :
    inAny nets n = true ↔ ∃ net ∈ nets, net.first ≤ n ∧ n < net.first + net.size := by
  simp only [inAny, List.any_eq_true, Network.contains_iff]

theorem isGlobal6_iff (n : Nat) :
    isGlobal6 n = true ↔ (inAny privateNetworks6 n = true → inAny privateExceptions6 n = true) := by
  unfold isGlobal6
  cases inAny privateNetworks6 n <;> cases inAny privateExceptions6 n <;> decide

/-! ## Reasons -/

/-- `_v4_reason`. -/
def v4Reason (n : Nat) : String :=
  if (cidr4 127 0 0 0 8).contains n then "loopback"
  else if n = 0 then "unspecified"
  else if (cidr4 169 254 0 0 16).contains n then "link_local_metadata"
  else if (cidr4 224 0 0 0 4).contains n then "multicast"
  else if (cidr4 240 0 0 0 4).contains n then "reserved"
  else if (cidr4 255 255 255 255 32).contains n then "broadcast"
  else "private_range"

/-- `_v6_reason`. -/
def v6Reason (n : Nat) : String :=
  if n = 1 then "loopback"
  else if n = 0 then "unspecified"
  else if (cidr6 [0xfe80] 10).contains n then "link_local"
  else if (cidr6 [0xfc00] 7).contains n then "private_range"
  else if (cidr6 [0xff00] 8).contains n then "multicast"
  else "reserved"

/-! ## Classification -/

/-- `text.strip("[]")`. -/
def stripBrackets (t : List Char) : List Char :=
  let bracket := fun c => c = '[' || c = ']'
  ((t.dropWhile bracket).reverse.dropWhile bracket).reverse

/-- `_embedded_v4`, as a number. -/
def embeddedV4 (n : Nat) : Embedding → Nat
  | .nat64 => n % 2 ^ 32
  | .sixToFour => n / 2 ^ 80 % 2 ^ 32
  | .teredo => 2 ^ 32 - 1 - n % 2 ^ 32

/-- `IPv6Address.ipv4_mapped`, as a number. -/
def ipv4Mapped (n : Nat) : Option Nat := if n / 2 ^ 32 = 0xffff then some (n % 2 ^ 32) else none

/-- The branch of `classify_address` for IPv4. -/
def classifyV4 (n : Nat) : Option String := (ipv4Blocked.find? (·.contains n)).map fun _ => v4Reason n

/-- `_classify_v6`; `classify` is `classify_address`. -/
def classifyV6 (classify : List Char → Option String) (n : Nat) : Option String :=
  match ipv4Mapped n with
  | some mapped => classify (v4Text mapped)
  | none =>
    match v4EmbeddedChecks.find? (·.2.contains n) with
    | some (form, _) => classify (v4Text (embeddedV4 n form))
    | none =>
      match ipv6Blocked.find? (·.contains n) with
      | some _ => some (v6Reason n)
      | none => if isGlobal6 n then none else some "reserved"

/-- One call of `classify_address`, `classify` in place of the calls it makes. -/
def classifyStep (classify : List Char → Option String) (address : List Char) : Option String :=
  match ipAddress (stripBrackets address) with
  | none => some "unparseable_address"
  | some (.v4 n) => classifyV4 n
  | some (.v6 n) => classifyV6 classify n

/-- `classify_address`: the calls it makes are about IPv4 addresses, and make none. -/
def classifyAddress : List Char → Option String := classifyStep (classifyStep fun _ => none)

/-- Nothing is stripped of the text of an address. -/
theorem stripBrackets_legible {t : List Char} (h : Legible t) : stripBrackets t = t := by
  have hdrop : ∀ t : List Char, Legible t → t.dropWhile (fun c => c = '[' || c = ']') = t := by
    intro t ht
    cases t with
    | nil => rfl
    | cons c t =>
      have hopen : c ≠ '[' := fun he => absurd (ht c (by simp)) (by rw [he]; decide)
      have hclose : c ≠ ']' := fun he => absurd (ht c (by simp)) (by rw [he]; decide)
      simp [hopen, hclose]
  have hreverse : Legible t.reverse := fun c hc => h c (List.mem_reverse.1 hc)
  unfold stripBrackets
  simp only
  rw [hdrop t h, hdrop _ hreverse, List.reverse_reverse]

/-- The text of an IPv4 address is classified as the address. -/
theorem classifyStep_v4Text (classify : List Char → Option String) {n : Nat} (h : n < 2 ^ 32) :
    classifyStep classify (v4Text n) = classifyV4 n := by
  unfold classifyStep ipAddress
  rw [stripBrackets_legible (parseV4_legible (parseV4_v4Text h)), parseV4_v4Text h]

/-- The code accepts an IPv4 address that is outside its table. -/
theorem classifyV4_none (n : Nat) : classifyV4 n = none ↔ ¬inAny ipv4Blocked n = true := by
  simp [classifyV4, inAny, List.find?_eq_none]

/-- The same of its text. -/
theorem classifyAddress_v4Text {n : Nat} (h : n < 2 ^ 32) :
    classifyAddress (v4Text n) = none ↔ ¬inAny ipv4Blocked n = true := by
  rw [classifyAddress, classifyStep_v4Text _ h, classifyV4_none]

theorem embeddedV4_lt (n : Nat) (form : Embedding) : embeddedV4 n form < 2 ^ 32 := by
  cases form <;> simp only [embeddedV4] <;> omega

theorem ipv4Mapped_lt {n m : Nat} (h : ipv4Mapped n = some m) : m < 2 ^ 32 := by
  unfold ipv4Mapped at h
  split at h
  · cases h; omega
  · cases h

/-- What `classify` answers about IPv4 addresses is all that `_classify_v6` asks of it. -/
theorem classifyV6_congr {classify classify' : List Char → Option String}
    (h : ∀ n < 2 ^ 32, classify (v4Text n) = classify' (v4Text n)) (n : Nat) :
    classifyV6 classify n = classifyV6 classify' n := by
  unfold classifyV6
  split
  · rename_i mapped hm
    exact h mapped (ipv4Mapped_lt hm)
  · split
    · exact h _ (embeddedV4_lt _ _)
    · rfl

/-- **`classify_address` is what the source's equation defines**: a call in a call is one of its own. -/
theorem classifyAddress_eq (address : List Char) : classifyAddress address = classifyStep classifyAddress address := by
  have hv4 : ∀ n < 2 ^ 32, classifyStep (fun _ => none) (v4Text n) = classifyAddress (v4Text n) := by
    intro n hn
    rw [classifyStep_v4Text _ hn]
    exact (classifyStep_v4Text _ hn).symm
  conv => lhs; unfold classifyAddress
  unfold classifyStep
  cases ipAddress (stripBrackets address) with
  | none => rfl
  | some a =>
    cases a with
    | v4 n => rfl
    | v6 n => exact classifyV6_congr hv4 n

/-- The block of IPv4-mapped addresses. -/
def mappedBlock : Network 128 := cidr6 [0, 0, 0, 0, 0, 0xffff] 96

/-- The networks of `_V4_EMBEDDED_CHECKS`. -/
def nat64Block : Network 128 := cidr6 [0x64, 0xff9b] 96
def sixToFourBlock : Network 128 := cidr6 [0x2002] 16
def takenForTeredo : Network 128 := cidr6 [0x2001, 0xa] 32

theorem ipv4Mapped_eq (n : Nat) : ipv4Mapped n = if mappedBlock.contains n = true then some (n % 2 ^ 32) else none := by
  simp [ipv4Mapped, mappedBlock, Network.contains, cidr6, ofDigits]

/-- `_classify_v6`, one form after the other. -/
theorem classifyV6_eq (classify : List Char → Option String) (n : Nat) :
    classifyV6 classify n =
      if mappedBlock.contains n = true then classify (v4Text (n % 2 ^ 32))
      else if nat64Block.contains n = true then classify (v4Text (n % 2 ^ 32))
      else if sixToFourBlock.contains n = true then classify (v4Text (n / 2 ^ 80 % 2 ^ 32))
      else if takenForTeredo.contains n = true then classify (v4Text (2 ^ 32 - 1 - n % 2 ^ 32))
      else if inAny ipv6Blocked n = true then some (v6Reason n)
      else if isGlobal6 n = true then none else some "reserved" := by
  unfold classifyV6
  rw [ipv4Mapped_eq]
  by_cases hm : mappedBlock.contains n = true
  · rw [if_pos hm, if_pos hm]
  · rw [if_neg hm, if_neg hm]
    simp only [v4EmbeddedChecks, List.find?_cons, List.find?_nil, nat64Block, sixToFourBlock, takenForTeredo]
    by_cases hn : (cidr6 [0x64, 0xff9b] 96).contains n = true
    · simp [hn, embeddedV4]
    by_cases hs : (cidr6 [0x2002] 16).contains n = true
    · simp [hn, hs, embeddedV4]
    by_cases ht : (cidr6 [0x2001, 0xa] 32).contains n = true
    · simp [hn, hs, ht, embeddedV4]
    simp only [hn, hs, ht]
    cases hf : ipv6Blocked.find? (·.contains n) with
    | none =>
      have hb : ¬inAny ipv6Blocked n = true := by simpa [inAny, List.find?_eq_none] using hf
      simp [hb]
    | some net =>
      have hb : inAny ipv6Blocked n = true :=
        List.any_eq_true.2 ⟨net, List.mem_of_find?_eq_some hf, by simpa using List.find?_some hf⟩
      simp [hb]

/-! ## Selection -/

structure SSRFBlockedError where
  address : List Char
  reason : String
  host : List Char

abbrev AddressResolver := List Char → Nat → List (List Char)

/-- The first candidate that is refused. -/
def firstRefused (host : List Char) : List (List Char) → Option SSRFBlockedError
  | [] => none
  | candidate :: rest =>
    match classifyAddress candidate with
    | some reason => some ⟨candidate, reason, host⟩
    | none => firstRefused host rest

/-- `select_pinned_address`. -/
def selectPinnedAddress (host : List Char) (port : Nat) (resolver : AddressResolver) : Except SSRFBlockedError (List Char) :=
  match ipAddress host with
  | some _ =>
    match classifyAddress host with
    | some reason => .error ⟨host, reason, host⟩
    | none => .ok host
  | none =>
    match resolver host port with
    | [] => .error ⟨"none".toList, "no_address", host⟩
    | first :: rest =>
      match firstRefused host (first :: rest) with
      | some e => .error e
      | none => .ok first

end MilpbookLM.Fetch
