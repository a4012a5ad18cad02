/-
The signed envelope of an execution spec, and the ledger of the nonces that were accepted:
`verify_envelope` up to the replay check, and the check, whose prune, lookup and record run
under one lock.
-/
import MilpbookLM.Documents.TextCodec
import MilpbookLM.Execution.Values

namespace MilpbookLM.Execution

inductive ExecutionRefusalCode
  | unsignedSpec | badSignature | nonceReplay | nonceStale | malformedFrame | unknownProtocolVersion | invalidSpec
  | outputPolicyViolation | publishAuthzDenied | protocolTransport | unknownImage
  deriving DecidableEq

/-- What a call raises: an `ExecutionRefusedError`, or another exception. -/
inductive Raised
  | refused (code : ExecutionRefusalCode) (detail : PyStr)
  | other (name : String)
  deriving DecidableEq

/-- A typed refusal. -/
def Raised.typed : Raised → Bool
  | refused .. => true
  | other _ => false

/-- `raise ExecutionRefusedError(code, detail)`. -/
def refuse {α : Type} (code : ExecutionRefusalCode) (detail : String) : Except Raised α := .error (.refused code (lit detail))

/-- What the broker takes from its libraries: `json.loads` raises only decode errors, `crypto_sign_open` only
BadSignatureError (`none` for both). -/
structure Platform (F : Type) where
  floats : Floats F
  loads : Text → Option (PyValue F)
  /-- `repr(value)`. -/
  repr : PyValue F → PyStr
  /-- `c.isspace()`. -/
  isspace : Nat → Bool
  /-- The value of a decimal digit. -/
  decimal : Nat → Option Nat
  cryptoSignOpen : Bytes → Bytes → Option Bytes

/-! ## The ledger -/

section Ledger

variable {F : Type} (fl : Floats F)

/-- `NonceReplayGuard`. -/
structure NonceReplayGuard (F : Type) where
  window : F
  seen : List (PyStr × F) := []

/-- The timestamp is outside the window. -/
def NonceReplayGuard.stale (guard : NonceReplayGuard F) (current issuedAt : F) : Bool :=
  fl.lt guard.window (fl.abs (fl.sub current issuedAt))

/-- `seen >= horizon`. -/
def retained (window current seen : F) : Bool := fl.le (fl.sub current window) seen

/-- `_prune`. -/
def NonceReplayGuard.prune (guard : NonceReplayGuard F) (now : F) : NonceReplayGuard F :=
  { guard with seen := guard.seen.filter fun entry => retained fl guard.window now entry.2 }

/-- What runs under the lock. -/
def NonceReplayGuard.record (guard : NonceReplayGuard F) (nonce : PyStr) (issuedAt current : F) :
    Except Raised Unit × NonceReplayGuard F :=
  let guard := guard.prune fl current
  if guard.seen.any (·.1 == nonce) then (refuse .nonceReplay "nonce already used", guard)
  else (.ok (), { guard with seen := guard.seen ++ [(nonce, issuedAt)] })

/-- `check_and_record`, no other call in between. -/
def NonceReplayGuard.checkAndRecord (guard : NonceReplayGuard F) (nonce : PyStr) (issuedAt now : F) :
    Except Raised Unit × NonceReplayGuard F :=
  if guard.stale fl now issuedAt then (refuse .nonceStale "nonce timestamp outside window", guard)
  else guard.record fl nonce issuedAt now

end Ledger

/-! ## The envelope -/

def protocolVersion : Int := 1
def signatureBytes : Nat := 64

/-- `_ENVELOPE_FIELDS`. -/
def envelopeFields : List String := ["version", "nonce", "issued_at", "spec", "signature"]

/-- `_NONCE.fullmatch(nonce)`. -/
def nonceForm (nonce : PyStr) : Bool :=
  16 ≤ nonce.length && nonce.length ≤ 128 && nonce.all fun c =>
    0x41 ≤ c && c ≤ 0x5A || 0x61 ≤ c && c ≤ 0x7A || 0x30 ≤ c && c ≤ 0x39 || c = 0x5F || c = 0x2D

def hexDigit (c : Nat) : Option Nat :=
  if 0x30 ≤ c ∧ c ≤ 0x39 then some (c - 0x30)
  else if 0x61 ≤ c ∧ c ≤ 0x66 then some (c - 0x57)
  else if 0x41 ≤ c ∧ c ≤ 0x46 then some (c - 0x37)
  else none

/-- `bytes.fromhex(text)`: whitespace between two bytes is skipped; `none` for a ValueError. -/
def fromhex : PyStr → Option Bytes
  | [] => some []
  | c :: text =>
    if c = 0x20 ∨ 0x09 ≤ c ∧ c ≤ 0x0D then fromhex text
    else match text with
      | [] => none
      | d :: text => do
        let high ← hexDigit c
        let low ← hexDigit d
        let bytes ← fromhex text
        return UInt8.ofNat (16 * high + low) :: bytes

section Envelope

variable {F : Type} (p : Platform F)

structure VerifiedEnvelope (F : Type) where
  spec : PyDict F
  nonce : PyStr

/-- The value is a number, no `bool`, and `math.isfinite(value)`; `none` for an OverflowError. -/
def isfinite : PyValue F → Option Bool
  | .int n => (p.floats.ofInt n).map p.floats.isfinite
  | .float x => some (p.floats.isfinite x)
  | _ => some false

/-- `_signing_surface`; `none` for a UnicodeEncodeError. -/
def signingSurface (nonce : PyStr) (issuedAt : F) (spec : PyDict F) : Option Bytes :=
  (dumps p.floats (.dict [(lit "version", .int protocolVersion), (lit "nonce", .str nonce),
    (lit "issued_at", .float issuedAt), (lit "spec", .dict spec)])).encode

/-- `set(payload) == _ENVELOPE_FIELDS`. -/
def envelopeKeys (payload : PyDict F) : Bool :=
  (payload.all fun item => envelopeFields.any fun key => item.1 = lit key) &&
    envelopeFields.all fun key => (field? payload key).isSome

/-- The fields of a frame of the protocol's version. -/
def parseFrame (raw : Bytes) : Except Raised (PyDict F) :=
  match decodeUtf8 raw with
  | none => refuse .malformedFrame "UnicodeDecodeError"
  | some text =>
    match p.loads text with
    | none => refuse .malformedFrame "JSONDecodeError"
    | some (.dict payload) =>
      if !envelopeKeys payload then refuse .malformedFrame "envelope fields do not match the protocol"
      else if !(field payload "version").eqInt p.floats protocolVersion then
        .error (.refused .unknownProtocolVersion (lit "unsupported version " ++ p.repr (field payload "version")))
      else .ok payload
    | some _ => refuse .malformedFrame "frame is not a JSON object"

/-- The nonce, and the timestamp as the frame has it. -/
def parseNonce (payload : PyDict F) : Except Raised (PyStr × PyValue F) :=
  match field payload "nonce" with
  | .str nonce =>
    if !nonceForm nonce then refuse .malformedFrame "nonce/issued_at missing or invalid"
    else match isfinite p (field payload "issued_at") with
      | none => .error (.other "OverflowError")
      | some false => refuse .malformedFrame "nonce/issued_at missing or invalid"
      | some true => .ok (nonce, field payload "issued_at")
  | _ => refuse .malformedFrame "nonce/issued_at missing or invalid"

/-- The bytes of the signature. -/
def parseSignature (payload : PyDict F) : Except Raised Bytes :=
  match field payload "signature" with
  | .str signature =>
    if signature = [] then refuse .unsignedSpec "envelope carries no signature"
    else match fromhex signature with
      | none => refuse .badSignature "signature is not hex"
      | some bytes =>
        if bytes.length ≠ signatureBytes then refuse .badSignature "signature length invalid" else .ok bytes
  | _ => refuse .unsignedSpec "envelope carries no signature"

/-- The spec, if the signature is one of it, and when it was issued. -/
def openSigned (payload : PyDict F) (nonce : PyStr) (issuedAt : PyValue F) (publicKey : Bytes) :
    Except Raised (VerifiedEnvelope F × F) :=
  match field payload "spec" with
  | .dict spec => do
    let signature ← parseSignature payload
    match issuedAt.float? p.floats with
    | none => throw (.other "OverflowError")
    | some issuedAt =>
      match signingSurface p nonce issuedAt spec with
      | none => throw (.other "UnicodeEncodeError")
      | some surface =>
        match p.cryptoSignOpen (signature ++ surface) publicKey with
        | none => refuse .badSignature "signature verification failed"
        | some verified =>
          if verified ≠ surface then refuse .badSignature "signature payload mismatch"
          else return (⟨spec, nonce⟩, issuedAt)
  | _ => refuse .malformedFrame "spec is not an object"

/-- `verify_envelope` up to the replay check. -/
def openEnvelope (raw publicKey : Bytes) : Except Raised (VerifiedEnvelope F × F) := do
  let payload ← parseFrame p raw
  let (nonce, issuedAt) ← parseNonce p payload
  openSigned p payload nonce issuedAt publicKey

/-- `verify_envelope`, and the ledger after it. -/
def verifyEnvelope (raw publicKey : Bytes) (replay : NonceReplayGuard F) (now : F) :
    Except Raised (VerifiedEnvelope F) × NonceReplayGuard F :=
  match openEnvelope p raw publicKey with
  | .error e => (.error e, replay)
  | .ok (envelope, issuedAt) =>
    let (checked, replay) := replay.checkAndRecord p.floats envelope.nonce issuedAt now
    (checked.map fun _ => envelope, replay)

end Envelope

end MilpbookLM.Execution
