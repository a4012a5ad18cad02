/-
Base64: bytes as code points of the standard alphabet, four for three bytes, and back. The
decoder is strict: it takes whole groups, and padding only at the end. What was encoded is
decoded (`decode_encode`).
-/
import Mathlib.Data.List.Basic

namespace MilpbookLM.Base64

def pad : Nat := 0x3D

/-- The letter of six bits. -/
def letter (n : Nat) : Nat :=
  if n < 26 then 0x41 + n
  else if n < 52 then 0x61 + (n - 26)
  else if n < 62 then 0x30 + (n - 52)
  else if n = 62 then 0x2B
  else 0x2F

def bits? (c : Nat) : Option Nat :=
  if 0x41 ≤ c ∧ c ≤ 0x5A then some (c - 0x41)
  else if 0x61 ≤ c ∧ c ≤ 0x7A then some (c - 0x61 + 26)
  else if 0x30 ≤ c ∧ c ≤ 0x39 then some (c - 0x30 + 52)
  else if c = 0x2B then some 62
  else if c = 0x2F then some 63
  else none

def encode : List UInt8 → List Nat
  | [] => []
  | [a] => [letter (a.toNat / 4), letter (a.toNat % 4 * 16), pad, pad]
  | [a, b] => [letter (a.toNat / 4), letter (a.toNat % 4 * 16 + b.toNat / 16), letter (b.toNat % 16 * 4), pad]
  | a :: b :: c :: bytes =>
    letter (a.toNat / 4) :: letter (a.toNat % 4 * 16 + b.toNat / 16) :: letter (b.toNat % 16 * 4 + c.toNat / 64) ::
      letter (c.toNat % 64) :: encode bytes

/-- The bytes of a text, if it is one of whole groups. -/
def decode : List Nat → Option (List UInt8)
  | [] => some []
  | x :: y :: z :: t :: text => do
    let p ← bits? x
    let q ← bits? y
    if z = pad then
      if t = pad ∧ text = [] then return [UInt8.ofNat (p * 4 + q / 16)] else none
    else
      let r ← bits? z
      if t = pad then
        if text = [] then return [UInt8.ofNat (p * 4 + q / 16), UInt8.ofNat (q % 16 * 16 + r / 4)] else none
      else
        let s ← bits? t
        let bytes ← decode text
        return UInt8.ofNat (p * 4 + q / 16) :: UInt8.ofNat (q % 16 * 16 + r / 4) :: UInt8.ofNat (r % 4 * 64 + s) :: bytes
  | _ => none

theorem bits_letter {n : Nat} (h : n < 64) : bits? (letter n) = some n := by
  have hall : ∀ n : Fin 64, bits? (letter n.val) = some n.val := by decide
  exact hall ⟨n, h⟩

theorem letter_ne_pad {n : Nat} (h : n < 64) : letter n ≠ pad := by
  have hall : ∀ n : Fin 64, letter n.val ≠ pad := by decide
  exact hall ⟨n, h⟩

/-- The first byte of a group. -/
theorem byte_first (a : UInt8) {rest : Nat} (h : rest < 16) : UInt8.ofNat (a.toNat / 4 * 4 + (a.toNat % 4 * 16 + rest) / 16) = a := by
  have hnat : a.toNat / 4 * 4 + (a.toNat % 4 * 16 + rest) / 16 = a.toNat := by omega
  rw [hnat, UInt8.ofNat_toNat]

theorem byte_second {b : UInt8} (high : Nat) {rest : Nat} (h : rest < 4) :
    UInt8.ofNat ((high * 16 + b.toNat / 16) % 16 * 16 + (b.toNat % 16 * 4 + rest) / 4) = b := by
  have hb := b.toNat_lt
  have hnat : (high * 16 + b.toNat / 16) % 16 * 16 + (b.toNat % 16 * 4 + rest) / 4 = b.toNat := by omega
  rw [hnat, UInt8.ofNat_toNat]

theorem byte_third {c : UInt8} (high : Nat) : UInt8.ofNat ((high * 4 + c.toNat / 64) % 4 * 64 + c.toNat % 64) = c := by
  have hc := c.toNat_lt
  have hnat : (high * 4 + c.toNat / 64) % 4 * 64 + c.toNat % 64 = c.toNat := by omega
  rw [hnat, UInt8.ofNat_toNat]

/-- **What was encoded is decoded.** -/
theorem decode_encode (bytes : List UInt8) : decode (encode bytes) = some bytes := by
  induction bytes using encode.induct with
  | case1 => rfl
  | case2 a =>
    have ha := a.toNat_lt
    have hfirst : UInt8.ofNat (a.toNat / 4 * 4 + (a.toNat % 4 * 16 + 0) / 16) = a := byte_first a (by omega)
    rw [encode, decode, bits_letter (by omega), bits_letter (by omega)]
    simp only [Option.bind_eq_bind, Option.bind_some, if_true, and_self, Option.pure_def]
    rw [Nat.add_zero] at hfirst
    rw [hfirst]
  | case3 a b =>
    have ha := a.toNat_lt
    have hb := b.toNat_lt
    have hsecond : UInt8.ofNat ((a.toNat % 4 * 16 + b.toNat / 16) % 16 * 16 + (b.toNat % 16 * 4 + 0) / 4) = b :=
      byte_second _ (by omega)
    rw [encode, decode, bits_letter (by omega), bits_letter (by omega), bits_letter (by omega)]
    simp only [Option.bind_eq_bind, Option.bind_some, if_true, Option.pure_def, if_neg (letter_ne_pad (n := b.toNat % 16 * 4) (by omega))]
    rw [Nat.add_zero] at hsecond
    rw [byte_first a (by omega), hsecond]
  | case4 a b c bytes ih =>
    have ha := a.toNat_lt
    have hb := b.toNat_lt
    have hc := c.toNat_lt
    rw [encode, decode, bits_letter (by omega), bits_letter (by omega), bits_letter (by omega), bits_letter (by omega), ih]
    simp only [Option.bind_eq_bind, Option.bind_some, Option.pure_def,
      if_neg (letter_ne_pad (n := b.toNat % 16 * 4 + c.toNat / 64) (by omega)),
      if_neg (letter_ne_pad (n := c.toNat % 64) (by omega))]
    rw [byte_first a (by omega), byte_second _ (by omega), byte_third]

end MilpbookLM.Base64
