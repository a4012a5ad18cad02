/-
The two encodings the text parsers read, decoded strictly: what is not UTF-8, or
UTF-16 behind a byte order mark, is refused (`none` for a UnicodeDecodeError).
-/
import MilpbookLM.Documents.Canonical

namespace MilpbookLM

/-- A byte 10xxxxxx. -/
def isContinuation (b : UInt8) : Bool := 0x80 ≤ b && b < 0xC0

/-- The code point, if it is one and is not below `least`. -/
def scalar? (least codePoint : Nat) : Option Char :=
  if least ≤ codePoint ∧ codePoint.isValidChar then some (Char.ofNat codePoint) else none

/-- `data.decode("utf-8")`: the shortest form of each code point and no surrogate. -/
def decodeUtf8 : List UInt8 → Option Text
  | [] => some []
  | b₀ :: bytes =>
    if b₀ < 0x80 then (decodeUtf8 bytes).map (Char.ofNat b₀.toNat :: ·)
    else match bytes with
      | [] => none
      | b₁ :: bytes =>
        if !isContinuation b₁ then none
        else
          let tail := b₁.toNat - 0x80
          if 0xC0 ≤ b₀ ∧ b₀ < 0xE0 then do
            let c ← scalar? 0x80 ((b₀.toNat - 0xC0) * 64 + tail)
            (decodeUtf8 bytes).map (c :: ·)
          else match bytes with
            | [] => none
            | b₂ :: bytes =>
              if !isContinuation b₂ then none
              else
                let tail := tail * 64 + (b₂.toNat - 0x80)
                if 0xE0 ≤ b₀ ∧ b₀ < 0xF0 then do
                  let c ← scalar? 0x800 ((b₀.toNat - 0xE0) * 4096 + tail)
                  (decodeUtf8 bytes).map (c :: ·)
                else match bytes with
                  | [] => none
                  | b₃ :: bytes =>
                    if !isContinuation b₃ then none
                    else
                      let tail := tail * 64 + (b₃.toNat - 0x80)
                      if 0xF0 ≤ b₀ ∧ b₀ < 0xF8 then do
                        let c ← scalar? 0x10000 ((b₀.toNat - 0xF0) * 262144 + tail)
                        (decodeUtf8 bytes).map (c :: ·)
                      else none

/-- Two bytes of UTF-16. -/
def codeUnit (bigEndian : Bool) (a b : UInt8) : Nat :=
  if bigEndian then a.toNat * 256 + b.toNat else b.toNat * 256 + a.toNat

/-- What follows the byte order mark of a UTF-16 text. -/
def decodeUtf16 (bigEndian : Bool) : List UInt8 → Option Text
  | [] => some []
  | [_] => none
  | a :: b :: bytes =>
    let high := codeUnit bigEndian a b
    if high < 0xD800 ∨ 0xE000 ≤ high then (decodeUtf16 bigEndian bytes).map (Char.ofNat high :: ·)
    else if 0xDC00 ≤ high then none
    else match bytes with
      | c :: d :: bytes =>
        let low := codeUnit bigEndian c d
        if 0xDC00 ≤ low ∧ low < 0xE000 then
          (decodeUtf16 bigEndian bytes).map (Char.ofNat (0x10000 + (high - 0xD800) * 1024 + (low - 0xDC00)) :: ·)
        else none
      | _ => none

def utf8Bom : List UInt8 := [0xEF, 0xBB, 0xBF]

/-- `_UTF16_BOMS`, and the byte order each of them says. -/
def utf16Boms : List (List UInt8 × Bool) := [([0xFF, 0xFE], false), ([0xFE, 0xFF], true)]

/-- `bom_encoding`: the byte order of a UTF-16 payload, none for UTF-8. -/
def bomEncoding (data : List UInt8) : Option Bool :=
  if utf8Bom.isPrefixOf data then none else (utf16Boms.find? fun bom => bom.1.isPrefixOf data).map (·.2)

/-- `decode_text`. -/
def Runtime.decodeText (rt : Runtime) (data : List UInt8) : Option Text := do
  let text ← match bomEncoding data with
    | none => do
      let text ← decodeUtf8 data
      pure (if utf8Bom.isPrefixOf data then text.drop 1 else text)
    | some bigEndian => decodeUtf16 bigEndian (data.drop 2)
  pure (rt.nfc ((replaceCrLf text).map fun c => if c = '\r' then '\n' else c))

end MilpbookLM
