/-
The decoders of text that comes in chunks. UTF-8 and UTF-16 are each read by a reader that takes a
code point off the front of the bytes, and whoever decodes in one piece reads the same text
(`validatedText_eq`).
-/
import MilpbookLM.Documents.TextCodec
import MilpbookLM.Lib.Incremental

namespace MilpbookLM

open Incremental

/-! ## UTF-8 -/

/-- How many bytes follow the first one of a code point, and its bits; none for a byte that starts none. -/
def leadByte (b : UInt8) : Option (Nat × Nat) :=
  if b < 0x80 then some (0, b.toNat)
  else if b < 0xC2 then none
  else if b < 0xE0 then some (1, b.toNat - 0xC0)
  else if b < 0xF0 then some (2, b.toNat - 0xE0)
  else if b < 0xF5 then some (3, b.toNat - 0xF0)
  else none

/-- The second byte makes the code point overlong, a surrogate, or more than U+10FFFF. -/
def isOutOfRange (b₀ b₁ : UInt8) : Bool :=
  b₀ = 0xE0 && b₁ < 0xA0 || b₀ = 0xED && 0xA0 ≤ b₁ || b₀ = 0xF0 && b₁ < 0x90 || b₀ = 0xF4 && 0x90 ≤ b₁

/-- The bytes that follow, behind the bits so far. -/
def continuations : Nat → Nat → List UInt8 → Front UInt8 Char
  | 0, bits, bytes => .value (Char.ofNat bits) bytes
  | _ + 1, _, [] => .more
  | n + 1, bits, b :: bytes =>
    if !isContinuation b then .bad else continuations n (bits * 64 + (b.toNat - 0x80)) bytes

/-- The first code point of UTF-8. What is there of one that is cut off is checked already. -/
def utf8Front : List UInt8 → Front UInt8 Char
  | [] => .more
  | b₀ :: bytes =>
    match leadByte b₀ with
    | none => .bad
    | some (n, bits) => if n ≠ 0 ∧ bytes.head?.any (isOutOfRange b₀) then .bad else continuations n bits bytes

section

variable {n bits : Nat} {bytes rest : List UInt8} {c : Char}

theorem continuations_shorter (h : continuations n bits bytes = .value c rest) : rest.length + n = bytes.length := by
  induction n generalizing bits bytes with
  | zero =>
    cases h
    rfl
  | succ n ih =>
    cases bytes with
    | nil => cases h
    | cons b bytes =>
      simp only [continuations] at h
      split at h
      · cases h
      · simp [← ih h, Nat.add_assoc]

theorem continuations_value (t : List UInt8) (h : continuations n bits bytes = .value c rest) :
    continuations n bits (bytes ++ t) = .value c (rest ++ t) := by
  induction n generalizing bits bytes with
  | zero =>
    cases h
    rfl
  | succ n ih =>
    cases bytes with
    | nil => cases h
    | cons b bytes =>
      simp only [continuations] at h
      split at h
      · cases h
      next hb => rw [List.cons_append, continuations, if_neg hb, ih h]

theorem continuations_bad (t : List UInt8) (h : continuations n bits bytes = .bad) :
    continuations n bits (bytes ++ t) = .bad := by
  induction n generalizing bits bytes with
  | zero => cases h
  | succ n ih =>
    cases bytes with
    | nil => cases h
    | cons b bytes =>
      simp only [continuations] at h
      split at h
      next hb => rw [List.cons_append, continuations, if_pos hb]
      next hb => rw [List.cons_append, continuations, if_neg hb, ih h]

end

def utf8Reader : Reader UInt8 Char where
  front := utf8Front
  front_nil := rfl
  shorter {s rest c} h := by
    cases s with
    | nil => cases h
    | cons b₀ bytes =>
      simp only [utf8Front] at h
      split at h
      · cases h
      · split at h
        · cases h
        · have := continuations_shorter h
          simp only [List.length_cons]
          omega
  value_append {s rest c} t h := by
    cases s with
    | nil => cases h
    | cons b₀ bytes =>
      simp only [utf8Front, List.cons_append] at h ⊢
      split at h
      · cases h
      next n bits hlead =>
      split at h
      · cases h
      next hin =>
      rw [if_neg, continuations_value t h]
      intro ⟨hn, hout⟩
      cases bytes with
      | nil =>
        obtain ⟨n, rfl⟩ := Nat.exists_eq_succ_of_ne_zero hn
        cases h
      | cons b₁ bytes => exact hin ⟨hn, hout⟩
  bad_append {s} t h := by
    cases s with
    | nil => cases h
    | cons b₀ bytes =>
      simp only [utf8Front, List.cons_append] at h ⊢
      split at h
      · rfl
      next n bits hlead =>
      split at h
      next hout =>
        refine if_pos ⟨hout.1, ?_⟩
        cases bytes with
        | nil => cases hout.2
        | cons b₁ bytes => exact hout.2
      · split
        · rfl
        · exact continuations_bad t h

@[simp] theorem utf8Reader_front (s : List UInt8) : utf8Reader.front s = utf8Front s := rfl

/-! ### In one piece -/

section

variable {b₀ b₁ b₂ b₃ : UInt8} {bytes : List UInt8}

theorem isContinuation_iff : isContinuation b₁ = true ↔ 0x80 ≤ b₁.toNat ∧ b₁.toNat < 0xC0 := by
  simp [isContinuation, UInt8.le_iff_toNat_le, UInt8.lt_iff_toNat_lt]

theorem isOutOfRange_iff : isOutOfRange b₀ b₁ = true ↔
    b₀.toNat = 0xE0 ∧ b₁.toNat < 0xA0 ∨ b₀.toNat = 0xED ∧ 0xA0 ≤ b₁.toNat ∨
      b₀.toNat = 0xF0 ∧ b₁.toNat < 0x90 ∨ b₀.toNat = 0xF4 ∧ 0x90 ≤ b₁.toNat := by
  simp [isOutOfRange, UInt8.le_iff_toNat_le, UInt8.lt_iff_toNat_lt, ← UInt8.toNat_inj, or_assoc]

theorem decodeUtf8_ascii (h : b₀.toNat < 0x80) :
    decodeUtf8 (b₀ :: bytes) = (decodeUtf8 bytes).map (Char.ofNat b₀.toNat :: ·) := by
  rw [decodeUtf8.eq_def]
  exact if_pos (UInt8.lt_iff_toNat_lt.2 h)

/-- No code point starts with the byte. -/
theorem decodeUtf8_none (h : 0x80 ≤ b₀.toNat ∧ b₀.toNat < 0xC0 ∨ 0xF8 ≤ b₀.toNat) :
    decodeUtf8 (b₀ :: bytes) = none := by
  rw [decodeUtf8.eq_def]
  simp only [UInt8.le_iff_toNat_le, UInt8.lt_iff_toNat_lt, UInt8.reduceToNat]
  rw [if_neg (by omega)]
  split
  · rfl
  split
  · rfl
  rw [if_neg (by omega)]
  split
  · rfl
  split
  · rfl
  rw [if_neg (by omega)]
  split
  · rfl
  split
  · rfl
  rw [if_neg (by omega)]

theorem decodeUtf8_two (h : 0xC0 ≤ b₀.toNat ∧ b₀.toNat < 0xE0) : decodeUtf8 (b₀ :: bytes) =
    match bytes with
    | b₁ :: bytes =>
      if !isContinuation b₁ then none
      else (scalar? 0x80 ((b₀.toNat - 0xC0) * 64 + (b₁.toNat - 0x80))).bind fun c => (decodeUtf8 bytes).map (c :: ·)
    | _ => none := by
  rw [decodeUtf8.eq_def]
  simp only [UInt8.le_iff_toNat_le, UInt8.lt_iff_toNat_lt, UInt8.reduceToNat]
  rw [if_neg (by omega)]
  cases bytes with
  | nil => rfl
  | cons b₁ bytes =>
    simp only [if_pos h]
    rfl

theorem decodeUtf8_three (h : 0xE0 ≤ b₀.toNat ∧ b₀.toNat < 0xF0) : decodeUtf8 (b₀ :: bytes) =
    match bytes with
    | b₁ :: b₂ :: bytes =>
      if !isContinuation b₁ then none
      else if !isContinuation b₂ then none
      else (scalar? 0x800 ((b₀.toNat - 0xE0) * 4096 + ((b₁.toNat - 0x80) * 64 + (b₂.toNat - 0x80)))).bind fun c =>
        (decodeUtf8 bytes).map (c :: ·)
    | _ => none := by
  rw [decodeUtf8.eq_def]
  simp only [UInt8.le_iff_toNat_le, UInt8.lt_iff_toNat_lt, UInt8.reduceToNat]
  rw [if_neg (by omega)]
  rcases bytes with _ | ⟨b₁, _ | ⟨b₂, bytes⟩⟩
  · rfl
  · dsimp only
    split
    · rfl
    · rw [if_neg (by omega)]
  · dsimp only
    rw [if_neg (by omega : ¬ (192 ≤ b₀.toNat ∧ b₀.toNat < 224)), if_pos (by omega : 224 ≤ b₀.toNat ∧ b₀.toNat < 240)]
    rfl

theorem decodeUtf8_four (h : 0xF0 ≤ b₀.toNat ∧ b₀.toNat < 0xF8) : decodeUtf8 (b₀ :: bytes) =
    match bytes with
    | b₁ :: b₂ :: b₃ :: bytes =>
      if !isContinuation b₁ then none
      else if !isContinuation b₂ then none
      else if !isContinuation b₃ then none
      else (scalar? 0x10000 ((b₀.toNat - 0xF0) * 262144 +
          (((b₁.toNat - 0x80) * 64 + (b₂.toNat - 0x80)) * 64 + (b₃.toNat - 0x80)))).bind fun c =>
        (decodeUtf8 bytes).map (c :: ·)
    | _ => none := by
  rw [decodeUtf8.eq_def]
  simp only [UInt8.le_iff_toNat_le, UInt8.lt_iff_toNat_lt, UInt8.reduceToNat]
  rw [if_neg (by omega)]
  have h₂ : ¬ (192 ≤ b₀.toNat ∧ b₀.toNat < 224) := by omega
  have h₃ : ¬ (224 ≤ b₀.toNat ∧ b₀.toNat < 240) := by omega
  have h₄ : 240 ≤ b₀.toNat ∧ b₀.toNat < 248 := by omega
  rcases bytes with _ | ⟨b₁, _ | ⟨b₂, _ | ⟨b₃, bytes⟩⟩⟩
  · rfl
  · simp [h₂]
  · simp [h₂, h₃]
  · simp only [if_neg h₂, if_neg h₃, if_pos h₄]
    rfl

theorem scalar?_eq {least codePoint : Nat} (h : least ≤ codePoint ∧ codePoint.isValidChar) :
    scalar? least codePoint = some (Char.ofNat codePoint) := if_pos h

theorem scalar?_none {least codePoint : Nat} (h : ¬ (least ≤ codePoint ∧ codePoint.isValidChar)) :
    scalar? least codePoint = none := if_neg h

theorem follows_two (hlo : 0xC2 ≤ b₀.toNat) (hhi : b₀.toNat < 0xE0) : utf8Reader.Follows decodeUtf8 (b₀ :: bytes) := by
  have hlead : leadByte b₀ = some (1, b₀.toNat - 0xC0) := by
    simp only [leadByte, UInt8.lt_iff_toNat_lt, UInt8.reduceToNat]
    rw [if_neg (by omega), if_neg (by omega), if_pos hhi]
  rw [Reader.Follows, utf8Reader_front, decodeUtf8_two (by omega), utf8Front, hlead]
  cases bytes with
  | nil => rfl
  | cons b₁ bytes =>
    have hrange : ¬ isOutOfRange b₀ b₁ = true := by
      rw [isOutOfRange_iff]
      omega
    cases h₁ : isContinuation b₁ with
    | false => simp [continuations, h₁, hrange]
    | true =>
      have hb₁ := isContinuation_iff.1 h₁
      have hscalar : scalar? 0x80 ((b₀.toNat - 0xC0) * 64 + (b₁.toNat - 0x80)) = some _ :=
        scalar?_eq ⟨by omega, .inl (by omega)⟩
      simp [continuations, h₁, hrange, hscalar]

theorem follows_three (hlo : 0xE0 ≤ b₀.toNat) (hhi : b₀.toNat < 0xF0) :
    utf8Reader.Follows decodeUtf8 (b₀ :: bytes) := by
  have hlead : leadByte b₀ = some (2, b₀.toNat - 0xE0) := by
    simp only [leadByte, UInt8.lt_iff_toNat_lt, UInt8.reduceToNat]
    rw [if_neg (by omega), if_neg (by omega), if_neg (by omega), if_pos hhi]
  rw [Reader.Follows, utf8Reader_front, decodeUtf8_three (by omega), utf8Front, hlead]
  rcases bytes with _ | ⟨b₁, _ | ⟨b₂, bytes⟩⟩
  · rfl
  · cases hout : isOutOfRange b₀ b₁ <;> cases h₁ : isContinuation b₁ <;> simp [continuations, h₁, hout]
  cases h₁ : isContinuation b₁ with
  | false => cases hout : isOutOfRange b₀ b₁ <;> simp [continuations, h₁, hout]
  | true =>
    cases h₂ : isContinuation b₂ with
    | false => cases hout : isOutOfRange b₀ b₁ <;> simp [continuations, h₁, h₂, hout]
    | true =>
      have hb₁ := isContinuation_iff.1 h₁
      have hb₂ := isContinuation_iff.1 h₂
      have hbits : ((b₀.toNat - 0xE0) * 64 + (b₁.toNat - 0x80)) * 64 + (b₂.toNat - 0x80) =
          (b₀.toNat - 0xE0) * 4096 + ((b₁.toNat - 0x80) * 64 + (b₂.toNat - 0x80)) := by omega
      cases hout : isOutOfRange b₀ b₁ with
      | true =>
        have hrange := isOutOfRange_iff.1 hout
        have hscalar : scalar? 0x800
            ((b₀.toNat - 0xE0) * 4096 + ((b₁.toNat - 0x80) * 64 + (b₂.toNat - 0x80))) = none :=
          scalar?_none fun ⟨hleast, hvalid⟩ => by
            unfold Nat.isValidChar at hvalid
            omega
        simp [h₁, h₂, hout, hscalar]
      | false =>
        have hrange := isOutOfRange_iff.not.1 (Bool.eq_false_iff.1 hout)
        have hscalar : scalar? 0x800
            ((b₀.toNat - 0xE0) * 4096 + ((b₁.toNat - 0x80) * 64 + (b₂.toNat - 0x80))) = some _ :=
          scalar?_eq ⟨by omega, by unfold Nat.isValidChar; omega⟩
        simp [continuations, h₁, h₂, hout, hscalar, hbits]

theorem follows_four (hlo : 0xF0 ≤ b₀.toNat) (hhi : b₀.toNat < 0xF5) : utf8Reader.Follows decodeUtf8 (b₀ :: bytes) := by
  have hlead : leadByte b₀ = some (3, b₀.toNat - 0xF0) := by
    simp only [leadByte, UInt8.lt_iff_toNat_lt, UInt8.reduceToNat]
    rw [if_neg (by omega), if_neg (by omega), if_neg (by omega), if_neg (by omega), if_pos hhi]
  rw [Reader.Follows, utf8Reader_front, decodeUtf8_four (by omega), utf8Front, hlead]
  rcases bytes with _ | ⟨b₁, _ | ⟨b₂, _ | ⟨b₃, bytes⟩⟩⟩
  · rfl
  · cases hout : isOutOfRange b₀ b₁ <;> cases h₁ : isContinuation b₁ <;> simp [continuations, h₁, hout]
  · cases hout : isOutOfRange b₀ b₁ <;> cases h₁ : isContinuation b₁ <;> cases h₂ : isContinuation b₂ <;>
      simp [continuations, h₁, h₂, hout]
  cases h₁ : isContinuation b₁ with
  | false => cases hout : isOutOfRange b₀ b₁ <;> simp [continuations, h₁, hout]
  | true =>
    cases h₂ : isContinuation b₂ with
    | false => cases hout : isOutOfRange b₀ b₁ <;> simp [continuations, h₁, h₂, hout]
    | true =>
      cases h₃ : isContinuation b₃ with
      | false => cases hout : isOutOfRange b₀ b₁ <;> simp [continuations, h₁, h₂, h₃, hout]
      | true =>
        have hb₁ := isContinuation_iff.1 h₁
        have hb₂ := isContinuation_iff.1 h₂
        have hb₃ := isContinuation_iff.1 h₃
        have hbits : (((b₀.toNat - 0xF0) * 64 + (b₁.toNat - 0x80)) * 64 + (b₂.toNat - 0x80)) * 64 + (b₃.toNat - 0x80) =
            (b₀.toNat - 0xF0) * 262144 +
              (((b₁.toNat - 0x80) * 64 + (b₂.toNat - 0x80)) * 64 + (b₃.toNat - 0x80)) := by omega
        cases hout : isOutOfRange b₀ b₁ with
        | true =>
          have hrange := isOutOfRange_iff.1 hout
          have hscalar : scalar? 0x10000 ((b₀.toNat - 0xF0) * 262144 +
              (((b₁.toNat - 0x80) * 64 + (b₂.toNat - 0x80)) * 64 + (b₃.toNat - 0x80))) = none :=
            scalar?_none fun ⟨hleast, hvalid⟩ => by
              unfold Nat.isValidChar at hvalid
              omega
          simp [h₁, h₂, h₃, hout, hscalar]
        | false =>
          have hrange := isOutOfRange_iff.not.1 (Bool.eq_false_iff.1 hout)
          have hscalar : scalar? 0x10000 ((b₀.toNat - 0xF0) * 262144 +
              (((b₁.toNat - 0x80) * 64 + (b₂.toNat - 0x80)) * 64 + (b₃.toNat - 0x80))) = some _ :=
            scalar?_eq ⟨by omega, by unfold Nat.isValidChar; omega⟩
          simp [continuations, h₁, h₂, h₃, hout, hscalar, hbits]

/-- 0x80 to 0xC1, and 0xF5 to 0xFF: no code point starts with these. -/
theorem follows_none (h : 0x80 ≤ b₀.toNat ∧ b₀.toNat < 0xC2 ∨ 0xF5 ≤ b₀.toNat) :
    utf8Reader.Follows decodeUtf8 (b₀ :: bytes) := by
  have hlead : leadByte b₀ = none := by
    simp only [leadByte, UInt8.lt_iff_toNat_lt, UInt8.reduceToNat]
    rw [if_neg (by omega)]
    split
    · rfl
    · rw [if_neg (by omega), if_neg (by omega), if_neg (by omega)]
  rw [Reader.Follows, utf8Reader_front, utf8Front, hlead]
  by_cases hnone : 0x80 ≤ b₀.toNat ∧ b₀.toNat < 0xC0 ∨ 0xF8 ≤ b₀.toNat
  · exact decodeUtf8_none hnone
  by_cases htwo : b₀.toNat < 0xC2
  · rw [decodeUtf8_two (by omega)]
    cases bytes with
    | nil => rfl
    | cons b₁ bytes =>
      cases h₁ : isContinuation b₁ with
      | false => simp [h₁]
      | true =>
        have hb₁ := isContinuation_iff.1 h₁
        have hscalar : scalar? 0x80 ((b₀.toNat - 0xC0) * 64 + (b₁.toNat - 0x80)) = none :=
          scalar?_none fun ⟨hleast, _⟩ => by omega
        simp [h₁, hscalar]
  · rw [decodeUtf8_four (by omega)]
    rcases bytes with _ | ⟨b₁, _ | ⟨b₂, _ | ⟨b₃, bytes⟩⟩⟩
    · rfl
    · rfl
    · rfl
    have hscalar : scalar? 0x10000 ((b₀.toNat - 0xF0) * 262144 +
        (((b₁.toNat - 0x80) * 64 + (b₂.toNat - 0x80)) * 64 + (b₃.toNat - 0x80))) = none :=
      scalar?_none fun ⟨_, hvalid⟩ => by
        unfold Nat.isValidChar at hvalid
        omega
    simp [hscalar]

end

theorem follows (s : List UInt8) : utf8Reader.Follows decodeUtf8 s := by
  cases s with
  | nil => rfl
  | cons b₀ bytes =>
    by_cases hascii : b₀.toNat < 0x80
    · simp [Reader.Follows, utf8Front, leadByte, UInt8.lt_iff_toNat_lt, hascii, continuations, decodeUtf8_ascii]
    by_cases htwo : 0xC2 ≤ b₀.toNat ∧ b₀.toNat < 0xE0
    · exact follows_two htwo.1 htwo.2
    by_cases hthree : 0xE0 ≤ b₀.toNat ∧ b₀.toNat < 0xF0
    · exact follows_three hthree.1 hthree.2
    by_cases hfour : 0xF0 ≤ b₀.toNat ∧ b₀.toNat < 0xF5
    · exact follows_four hfour.1 hfour.2
    · exact follows_none (by omega)

/-- **Decoding in one piece** takes one code point after the other. -/
theorem decodeUtf8_eq (s : List UInt8) : decodeUtf8 s = utf8Reader.whole s := Reader.eq_whole follows s

/-! ## UTF-16 -/

/-- The first code point of UTF-16 behind its byte order mark. -/
def utf16Front (bigEndian : Bool) : List UInt8 → Front UInt8 Char
  | a :: b :: bytes =>
    let high := codeUnit bigEndian a b
    if high < 0xD800 ∨ 0xE000 ≤ high then .value (Char.ofNat high) bytes
    else if 0xDC00 ≤ high then .bad
    else match bytes with
      | c :: d :: bytes =>
        let low := codeUnit bigEndian c d
        if 0xDC00 ≤ low ∧ low < 0xE000 then
          .value (Char.ofNat (0x10000 + (high - 0xD800) * 1024 + (low - 0xDC00))) bytes
        else .bad
      | _ => .more
  | _ => .more

section

variable {bigEndian : Bool} {s rest : List UInt8} {c : Char}

theorem utf16Front_shorter (h : utf16Front bigEndian s = .value c rest) : rest.length < s.length := by
  rcases s with _ | ⟨a, _ | ⟨b, bytes⟩⟩
  · cases h
  · cases h
  · simp only [utf16Front] at h
    split at h
    · cases h
      simp only [List.length_cons]
      omega
    · split at h
      · cases h
      · rcases bytes with _ | ⟨a', _ | ⟨b', bytes⟩⟩
        · cases h
        · cases h
        · simp only at h
          split at h
          · rw [← (Front.value.inj h).2]
            simp only [List.length_cons]
            omega
          · cases h

/-- What is not short of bytes is not changed by those behind. -/
theorem utf16Front_append (t : List UInt8) (h : utf16Front bigEndian s ≠ .more) :
    utf16Front bigEndian (s ++ t) =
      match utf16Front bigEndian s with
      | .value c rest => .value c (rest ++ t)
      | front => front := by
  rcases s with _ | ⟨a, _ | ⟨b, bytes⟩⟩
  · exact absurd rfl h
  · exact absurd rfl h
  · simp only [utf16Front, List.cons_append] at h ⊢
    by_cases hunit : codeUnit bigEndian a b < 0xD800 ∨ 0xE000 ≤ codeUnit bigEndian a b
    · simp only [if_pos hunit]
    · rw [if_neg hunit] at h
      simp only [if_neg hunit]
      by_cases hlow : 0xDC00 ≤ codeUnit bigEndian a b
      · simp only [if_pos hlow]
      · rw [if_neg hlow] at h
        simp only [if_neg hlow]
        rcases bytes with _ | ⟨a', _ | ⟨b', bytes⟩⟩
        · exact absurd rfl h
        · exact absurd rfl h
        · simp only [List.cons_append]
          split <;> rfl

end

def utf16Reader (bigEndian : Bool) : Reader UInt8 Char where
  front := utf16Front bigEndian
  front_nil := rfl
  shorter := utf16Front_shorter
  value_append t h := by rw [utf16Front_append t (by simp [h]), h]
  bad_append t h := by rw [utf16Front_append t (by simp [h]), h]

@[simp] theorem utf16Reader_front (bigEndian : Bool) (s : List UInt8) :
    (utf16Reader bigEndian).front s = utf16Front bigEndian s := rfl

theorem follows_utf16 (bigEndian : Bool) (s : List UInt8) :
    (utf16Reader bigEndian).Follows (decodeUtf16 bigEndian) s := by
  rcases s with _ | ⟨a, _ | ⟨b, _ | ⟨a', _ | ⟨b', bytes⟩⟩⟩⟩
  · rfl
  · rfl
  · simp only [Reader.Follows, utf16Reader_front, utf16Front, decodeUtf16]
    split
    · rfl
    · split <;> rfl
  · simp only [Reader.Follows, utf16Reader_front, utf16Front, decodeUtf16]
    split
    · rfl
    · split <;> rfl
  · simp only [Reader.Follows, utf16Reader_front, utf16Front, decodeUtf16]
    split
    · rfl
    · split
      · rfl
      · split <;> rfl

theorem decodeUtf16_eq (bigEndian : Bool) (s : List UInt8) :
    decodeUtf16 bigEndian s = (utf16Reader bigEndian).whole s :=
  Reader.eq_whole (follows_utf16 bigEndian) s

/-! ## Streams -/

/-- The text of a payload in one piece, its byte order mark included where that is UTF-8's. -/
def decodeWhole (data : List UInt8) : Option Text :=
  match bomEncoding data with
  | none => decodeUtf8 data
  | some bigEndian => decodeUtf16 bigEndian (data.drop 2)

/-- What a decoder makes of chunks and of their end. -/
def Incremental.Reader.finish (r : Reader UInt8 Char) (chunks : List (List UInt8)) : Option Text :=
  match r.stream [] chunks with
  | some (text, []) => some text
  | _ => none

/-- The text that `validate_text_stream` decodes; none where it rejects the chunks. -/
def validatedText (chunks : List (List UInt8)) : Option Text :=
  match bomEncoding (chunks.headD []) with
  | none => utf8Reader.finish chunks
  -- the UTF-16 decoder takes the byte order mark itself
  | some bigEndian => (utf16Reader bigEndian).finish ((chunks.headD []).drop 2 :: chunks.tail)

theorem Incremental.Reader.finish_eq (r : Reader UInt8 Char) (chunks : List (List UInt8)) :
    r.finish chunks = r.whole chunks.flatten := by
  rw [Reader.finish, Reader.stream_nil, Reader.whole]
  rcases r.read chunks.flatten with _ | ⟨text, _ | ⟨b, left⟩⟩ <;> rfl

theorem isPrefixOf_append {bom s : List UInt8} (t : List UInt8) (h : bom.length ≤ s.length) :
    bom.isPrefixOf (s ++ t) = bom.isPrefixOf s := by
  rw [Bool.eq_iff_iff, List.isPrefixOf_iff_prefix, List.isPrefixOf_iff_prefix]
  exact ⟨fun hp => List.prefix_of_prefix_length_le hp (List.prefix_append s t) h,
    fun hp => hp.trans (List.prefix_append s t)⟩

/-- The byte order mark is in the first three bytes. -/
theorem bomEncoding_append {s : List UInt8} (t : List UInt8) (h : 3 ≤ s.length) :
    bomEncoding (s ++ t) = bomEncoding s := by
  have h8 := @isPrefixOf_append utf8Bom s t h
  have hle := @isPrefixOf_append [0xFF, 0xFE] s t (show 2 ≤ s.length by omega)
  have hbe := @isPrefixOf_append [0xFE, 0xFF] s t (show 2 ≤ s.length by omega)
  simp only [bomEncoding, utf16Boms, List.find?_cons, List.find?_nil, h8, hle, hbe]

/-- **Chunks are validated as in one piece**, where the first of them has the byte order mark whole. -/
theorem validatedText_eq {chunks : List (List UInt8)} (h : 3 ≤ (chunks.headD []).length ∨ chunks.tail = []) :
    validatedText chunks = decodeWhole chunks.flatten := by
  cases chunks with
  | nil => rfl
  | cons first rest =>
    have hbom : bomEncoding (first :: rest).flatten = bomEncoding first := by
      rcases h with h | h
      · exact bomEncoding_append rest.flatten h
      · simp only [List.tail_cons] at h
        simp [h]
    simp only [validatedText, decodeWhole, hbom, List.headD_cons, List.tail_cons]
    cases hfirst : bomEncoding first with
    | none => simp only [Reader.finish_eq, decodeUtf8_eq]
    | some bigEndian =>
      have htwo : 2 ≤ first.length := by
        simp only [bomEncoding] at hfirst
        split at hfirst
        · cases hfirst
        · obtain ⟨bom, hbom, -⟩ := Option.map_eq_some_iff.1 hfirst
          have hprefix := List.find?_some hbom
          have hlength := (List.isPrefixOf_iff_prefix.1 hprefix).length_le
          have hmem := List.mem_of_find?_eq_some hbom
          simp only [utf16Boms, List.mem_cons, List.not_mem_nil, or_false] at hmem
          rcases hmem with rfl | rfl <;> exact hlength
      simp only [Reader.finish_eq, decodeUtf16_eq, List.flatten_cons, List.drop_append_of_le_length htwo]

end MilpbookLM
