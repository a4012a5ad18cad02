/-
Public addresses, and what `select_pinned_address` dials of the others. Public is said here
from the special-purpose registries and the layouts of the forms that embed an IPv4 address,
not from the tables of the code. The code accepts some addresses that are not public
(`Missed`): most of 192.0.0.0/24, IPv4-compatible addresses of hosts that are not public,
2001:a::/32 (Teredo is 2001::/32), site-local addresses and two rows of the registry that
its table lacks. These are all (`accepted_iff`).
-/
import MilpbookLM.Fetch.Addressing

namespace MilpbookLM.Fetch

open Ip

/-! ## Public -/

/-- The rows of the IPv4 registry that are not globally reachable. -/
def specialPurpose4 : List (Network 32) :=
  [cidr4 0 0 0 0 8, cidr4 10 0 0 0 8, cidr4 100 64 0 0 10, cidr4 127 0 0 0 8, cidr4 169 254 0 0 16, cidr4 172 16 0 0 12,
    cidr4 192 0 0 0 24, cidr4 192 0 2 0 24, cidr4 192 168 0 0 16, cidr4 198 18 0 0 15, cidr4 198 51 100 0 24,
    cidr4 203 0 113 0 24, cidr4 240 0 0 0 4, cidr4 255 255 255 255 32]

/-- The rows inside them that are. -/
def reachable4 : List (Network 32) := [cidr4 192 0 0 9 32, cidr4 192 0 0 10 32]

/-- A public IPv4 address. -/
structure IsPublic4 (n : Nat) : Prop where
  reachable : inAny specialPurpose4 n = true → inAny reachable4 n = true
  unicast : ¬(cidr4 224 0 0 0 4).contains n = true

/-- The rows of the IPv6 registry that are not globally reachable. The block of IPv4-mapped
addresses is not among them: such an address is as public as the one in it. -/
def specialPurpose6 : List (Network 128) :=
  [cidr6 [0, 0, 0, 0, 0, 0, 0, 1] 128, cidr6 [] 128, cidr6 [0x64, 0xff9b, 1] 48, cidr6 [0x100] 64,
    cidr6 [0x100, 0, 0, 1] 64, cidr6 [0x2001] 23, cidr6 [0x2001, 2] 48, cidr6 [0x2001, 0xdb8] 32, cidr6 [0x3fff] 20,
    cidr6 [0x5f00] 16, cidr6 [0xfc00] 7, cidr6 [0xfe80] 10]

/-- The rows inside them that are, and Teredo's, of which the registry does not say. -/
def reachable6 : List (Network 128) :=
  [cidr6 [0x2001] 32, cidr6 [0x2001, 1, 0, 0, 0, 0, 0, 1] 128, cidr6 [0x2001, 1, 0, 0, 0, 0, 0, 2] 128,
    cidr6 [0x2001, 1, 0, 0, 0, 0, 0, 3] 128, cidr6 [0x2001, 3] 32, cidr6 [0x2001, 4, 0x112] 48, cidr6 [0x2001, 0x20] 28,
    cidr6 [0x2001, 0x30] 28]

/-- The block of IPv4-compatible addresses. -/
def compatibleBlock : Network 128 := cidr6 [] 96

/-- The block of Teredo, which is not the one that the code takes for it. -/
def teredoBlock : Network 128 := cidr6 [0x2001] 32

/-- A public IPv6 address. An embedded IPv4 address is the low 32 bits, but for 6to4, where
it follows the prefix, and for Teredo, where the low bits are inverted. -/
structure IsPublic6 (n : Nat) : Prop where
  reachable : inAny specialPurpose6 n = true → inAny reachable6 n = true
  unicast : ¬(cidr6 [0xff00] 8).contains n = true
  notSiteLocal : ¬(cidr6 [0xfec0] 10).contains n = true
  mapped : mappedBlock.contains n = true → IsPublic4 (n % 2 ^ 32)
  compatible : compatibleBlock.contains n = true → IsPublic4 (n % 2 ^ 32)
  nat64 : nat64Block.contains n = true → IsPublic4 (n % 2 ^ 32)
  sixToFour : sixToFourBlock.contains n = true → IsPublic4 (n / 2 ^ 80 % 2 ^ 32)
  teredo : teredoBlock.contains n = true → IsPublic4 (2 ^ 32 - 1 - n % 2 ^ 32)

/-- A public address. -/
def IsPublic : Address → Prop
  | .v4 n => IsPublic4 n
  | .v6 n => IsPublic6 n

/-! ## Missed -/

/-- An IPv4 address that is not public and that the table of the code lacks. -/
def Missed4 (n : Nat) : Prop :=
  (cidr4 192 0 0 0 24).contains n = true ∧ ¬(cidr4 192 0 0 0 29).contains n = true ∧ ¬inAny reachable4 n = true

/-- Networks that are not public, of which the code knows nothing. -/
def missedNetworks6 : List (Network 128) :=
  [cidr6 [0x100, 0, 0, 1] 64, cidr6 [0x2001, 0xa] 32, cidr6 [0x5f00] 16, cidr6 [0xfec0] 10]

/-- An IPv6 address of which the code knows whether it is public. -/
structure Seen6 (n : Nat) : Prop where
  networks : ¬inAny missedNetworks6 n = true
  mapped : mappedBlock.contains n = true → ¬Missed4 (n % 2 ^ 32)
  compatible : compatibleBlock.contains n = true → IsPublic4 (n % 2 ^ 32)
  nat64 : nat64Block.contains n = true → ¬Missed4 (n % 2 ^ 32)
  sixToFour : sixToFourBlock.contains n = true → ¬Missed4 (n / 2 ^ 80 % 2 ^ 32)

/-- An address of which the code does not know that it is not public. -/
def Missed : Address → Prop
  | .v4 n => Missed4 n
  | .v6 n => ¬Seen6 n

/-! ## IPv4 -/

/-- **An IPv4 address that the code accepts is public unless its table missed it.** -/
theorem accepted4 {n : Nat} (h : ¬inAny ipv4Blocked n = true) : IsPublic4 n ↔ ¬Missed4 n := by
  have hiff : IsPublic4 n ↔ (inAny specialPurpose4 n = true → inAny reachable4 n = true) ∧
      ¬(cidr4 224 0 0 0 4).contains n = true := ⟨fun hp => ⟨hp.1, hp.2⟩, fun hp => ⟨hp.1, hp.2⟩⟩
  rw [hiff, Missed4]
  simp only [inAny_iff, Network.contains_iff] at h ⊢
  simp [ipv4Blocked, specialPurpose4, reachable4, cidr4, Network.first, Network.size, ofDigits] at h ⊢
  omega

/-! ## IPv6 -/

/-- What is true of an IPv6 address that the code accepts. -/
structure Accepted6 (n : Nat) : Prop where
  mapped : mappedBlock.contains n = true → ¬inAny ipv4Blocked (n % 2 ^ 32) = true
  nat64 : nat64Block.contains n = true → ¬inAny ipv4Blocked (n % 2 ^ 32) = true
  sixToFour : sixToFourBlock.contains n = true → ¬inAny ipv4Blocked (n / 2 ^ 80 % 2 ^ 32) = true
  others : ¬mappedBlock.contains n = true → ¬nat64Block.contains n = true → ¬sixToFourBlock.contains n = true →
    ¬takenForTeredo.contains n = true → ¬inAny ipv6Blocked n = true ∧ isGlobal6 n = true

/-- No address has two forms. -/
theorem forms_disjoint (n : Nat) :
    (mappedBlock.contains n = true → ¬nat64Block.contains n = true ∧ ¬sixToFourBlock.contains n = true) ∧
      (nat64Block.contains n = true → ¬sixToFourBlock.contains n = true) := by
  simp only [Network.contains_iff]
  simp [mappedBlock, nat64Block, sixToFourBlock, cidr6, Network.first, Network.size, ofDigits]
  omega

theorem accepted6_of {n : Nat} (h : classifyV6 classifyAddress n = none) : Accepted6 n := by
  obtain ⟨hmapped, hnat⟩ := forms_disjoint n
  rw [classifyV6_eq] at h
  split at h
  · next hm =>
    have hv4 := (classifyAddress_v4Text (by omega)).1 h
    exact ⟨fun _ => hv4, fun hn => absurd hn (hmapped hm).1, fun hs => absurd hs (hmapped hm).2,
      fun hno => absurd hm hno⟩
  split at h
  · next hm hn =>
    have hv4 := (classifyAddress_v4Text (by omega)).1 h
    exact ⟨fun hin => absurd hin hm, fun _ => hv4, fun hs => absurd hs (hnat hn), fun _ hno => absurd hn hno⟩
  split at h
  · next hm hn hs =>
    have hv4 := (classifyAddress_v4Text (by omega)).1 h
    exact ⟨fun hin => absurd hin hm, fun hin => absurd hin hn, fun _ => hv4, fun _ _ hno => absurd hs hno⟩
  split at h
  · next hm hn hs ht =>
    exact ⟨fun hin => absurd hin hm, fun hin => absurd hin hn, fun hin => absurd hin hs, fun _ _ _ hno => absurd ht hno⟩
  split at h
  · cases h
  split at h
  · next hm hn hs _ hb hg =>
    exact ⟨fun hin => absurd hin hm, fun hin => absurd hin hn, fun hin => absurd hin hs, fun _ _ _ _ => ⟨hb, hg⟩⟩
  · cases h

/-- Outside the blocks that are not public whatever is embedded. -/
def Outside6 (n : Nat) : Prop :=
  (inAny specialPurpose6 n = true → inAny reachable6 n = true) ∧ ¬(cidr6 [0xff00] 8).contains n = true ∧
    ¬(cidr6 [0xfec0] 10).contains n = true

theorem not_outside6 {n : Nat} (h : inAny missedNetworks6 n = true) : ¬Outside6 n := by
  unfold Outside6
  simp only [inAny_iff, Network.contains_iff] at h ⊢
  simp [missedNetworks6, specialPurpose6, reachable6, cidr6, Network.first, Network.size, ofDigits] at h ⊢
  omega

/-- The blocks of the forms are public but for what is embedded. -/
theorem outside6_of_form {n : Nat}
    (h : mappedBlock.contains n = true ∨ nat64Block.contains n = true ∨ sixToFourBlock.contains n = true) :
    Outside6 n ∧ ¬teredoBlock.contains n = true := by
  unfold Outside6
  simp only [inAny_iff, Network.contains_iff] at h ⊢
  simp [mappedBlock, nat64Block, sixToFourBlock, teredoBlock, specialPurpose6, reachable6, cidr6, Network.first,
    Network.size, ofDigits] at h ⊢
  omega

/-- What is taken for Teredo is missed. -/
theorem missed_of_taken {n : Nat} (h : takenForTeredo.contains n = true) :
    inAny missedNetworks6 n = true ∧ ¬teredoBlock.contains n = true := by
  simp only [inAny_iff, Network.contains_iff] at h ⊢
  simp [takenForTeredo, missedNetworks6, teredoBlock, cidr6, Network.first, Network.size, ofDigits] at h ⊢
  omega

/-- The tables of the code, but for the networks that they lack. -/
theorem outside6_of_tables {n : Nat} (hb : ¬inAny ipv6Blocked n = true) (hg : isGlobal6 n = true) :
    (¬inAny missedNetworks6 n = true → Outside6 n) ∧ ¬teredoBlock.contains n = true := by
  rw [isGlobal6_iff] at hg
  unfold Outside6
  simp only [inAny_iff, Network.contains_iff] at hb hg ⊢
  simp [ipv6Blocked, privateNetworks6, privateExceptions6, missedNetworks6, teredoBlock, specialPurpose6, reachable6,
    cidr6, Network.first, Network.size, ofDigits] at hb hg ⊢
  omega

theorem outside6_iff {n : Nat} (h : Accepted6 n) :
    (Outside6 n ↔ ¬inAny missedNetworks6 n = true) ∧ ¬teredoBlock.contains n = true := by
  have hmissed : Outside6 n → ¬inAny missedNetworks6 n = true := fun ho hm => not_outside6 hm ho
  by_cases hform : mappedBlock.contains n = true ∨ nat64Block.contains n = true ∨ sixToFourBlock.contains n = true
  · obtain ⟨ho, ht⟩ := outside6_of_form hform
    exact ⟨⟨hmissed, fun _ => ho⟩, ht⟩
  · simp only [not_or] at hform
    by_cases htaken : takenForTeredo.contains n = true
    · obtain ⟨hm, ht⟩ := missed_of_taken htaken
      exact ⟨⟨hmissed, fun hno => absurd hm hno⟩, ht⟩
    · obtain ⟨hb, hg⟩ := h.others hform.1 hform.2.1 hform.2.2 htaken
      obtain ⟨ho, ht⟩ := outside6_of_tables hb hg
      exact ⟨⟨hmissed, ho⟩, ht⟩

/-- **An IPv6 address that the code accepts is public unless it was missed.** -/
theorem accepted6 {n : Nat} (h : Accepted6 n) : IsPublic6 n ↔ Seen6 n := by
  obtain ⟨houtside, hteredo⟩ := outside6_iff h
  constructor
  · intro hp
    exact {
      networks := houtside.1 ⟨hp.reachable, hp.unicast, hp.notSiteLocal⟩
      mapped := fun hin => (accepted4 (h.mapped hin)).1 (hp.mapped hin)
      compatible := hp.compatible
      nat64 := fun hin => (accepted4 (h.nat64 hin)).1 (hp.nat64 hin)
      sixToFour := fun hin => (accepted4 (h.sixToFour hin)).1 (hp.sixToFour hin) }
  · intro hs
    obtain ⟨hreachable, hunicast, hlocal⟩ := houtside.2 hs.networks
    exact {
      reachable := hreachable
      unicast := hunicast
      notSiteLocal := hlocal
      mapped := fun hin => (accepted4 (h.mapped hin)).2 (hs.mapped hin)
      compatible := hs.compatible
      nat64 := fun hin => (accepted4 (h.nat64 hin)).2 (hs.nat64 hin)
      sixToFour := fun hin => (accepted4 (h.sixToFour hin)).2 (hs.sixToFour hin)
      teredo := fun hin => absurd hin hteredo }

/-! ## Candidates -/

/-- The addresses that a host stands for: itself, or what the resolver answers. -/
def candidates (host : List Char) (port : Nat) (resolver : AddressResolver) : List (List Char) :=
  if (ipAddress host).isSome then [host] else resolver host port

/-- The text, brackets aside, is that of a public address. -/
def PublicText (text : List Char) : Prop := ∃ a, ipAddress (stripBrackets text) = some a ∧ IsPublic a

/-- The text, brackets aside, is that of an address that the code misses. -/
def MissedText (text : List Char) : Prop := ∃ a, ipAddress (stripBrackets text) = some a ∧ Missed a

theorem accepted_iff {text : List Char} (h : classifyAddress text = none) : PublicText text ↔ ¬MissedText text := by
  rw [classifyAddress_eq, classifyStep] at h
  unfold PublicText MissedText
  cases ha : ipAddress (stripBrackets text) with
  | none => rw [ha] at h; cases h
  | some a =>
    rw [ha] at h
    cases a with
    | v4 n => simpa [IsPublic, Missed] using accepted4 ((classifyV4_none n).1 h)
    | v6 n => simpa [IsPublic, Missed] using accepted6 (accepted6_of h)

theorem firstRefused_none (host : List Char) (cs : List (List Char)) :
    firstRefused host cs = none ↔ ∀ c ∈ cs, classifyAddress c = none := by
  induction cs with
  | nil => simp [firstRefused]
  | cons c cs ih => cases hc : classifyAddress c <;> simp [firstRefused, hc, ih]

/-- An address is selected if it is the first of some candidates, all accepted. -/
theorem selectPinnedAddress_ok {host : List Char} {port : Nat} {resolver : AddressResolver} {a : List Char} :
    selectPinnedAddress host port resolver = .ok a ↔
      (candidates host port resolver).head? = some a ∧
        ∀ c ∈ candidates host port resolver, classifyAddress c = none := by
  unfold selectPinnedAddress candidates
  cases hip : ipAddress host with
  | some _ => cases hc : classifyAddress host <;> simp [hc]
  | none =>
    cases resolver host port with
    | nil => simp
    | cons first rest =>
      have hnone := firstRefused_none host (first :: rest)
      cases hf : firstRefused host (first :: rest) with
      | none => simpa [hf] using fun _ => hnone.1 hf
      | some e =>
        have hsome : ¬∀ c ∈ first :: rest, classifyAddress c = none := fun hall => by rw [hnone.2 hall] at hf; cases hf
        simpa [hf] using fun _ => hsome

/-! ## What is dialled -/

/-- An address is selected only if it is a candidate and every candidate is public. -/
def DialsOnlyPublic (host : List Char) (port : Nat) (resolver : AddressResolver) : Prop :=
  ∀ a, selectPinnedAddress host port resolver = .ok a →
    a ∈ candidates host port resolver ∧ ∀ c ∈ candidates host port resolver, PublicText c

end MilpbookLM.Fetch
