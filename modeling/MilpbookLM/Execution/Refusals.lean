/-
What the broker's boundary raises. `spec_from_wire` raises typed refusals only; of a frame
and of an outcome payload the inputs that raise something else are named
(`refusals_typed`).
-/
import MilpbookLM.Execution.Broker

namespace MilpbookLM.Execution

variable {F : Type} {α β : Type}

/-- It returns, or it raises a typed refusal. -/
def Typed (x : Except Raised α) : Prop := ∀ e, x = .error e → e.typed = true

theorem typed_ok {a : α} : Typed (.ok a) := by
  intro e h
  cases h

theorem typed_refuse {code : ExecutionRefusalCode} {detail : String} : Typed (refuse code detail : Except Raised α) := by
  intro e h
  cases h
  rfl

theorem typed_refused {code : ExecutionRefusalCode} {detail : PyStr} :
    Typed (.error (.refused code detail) : Except Raised α) := by
  intro e h
  cases h
  rfl

theorem not_typed_other {name : String} : ¬ Typed (.error (.other name) : Except Raised α) := by
  intro h
  cases h _ rfl

theorem Typed.bind {x : Except Raised α} {f : α → Except Raised β} (hx : Typed x) (hf : ∀ a, x = .ok a → Typed (f a)) :
    Typed (x >>= f) := by
  cases x with
  | ok a => exact hf a rfl
  | error e =>
    intro e' h
    cases h
    exact hx e rfl

theorem typed_mapM {f : α → Except Raised β} (hf : ∀ a, Typed (f a)) (xs : List α) : Typed (xs.mapM f) := by
  induction xs with
  | nil => exact typed_ok
  | cons x xs ih =>
    rw [List.mapM_cons]
    exact (hf x).bind fun y _ => ih.bind fun ys _ => typed_ok

theorem typed_foldlM {f : β → α → Except Raised β} (hf : ∀ b a, Typed (f b a)) (xs : List α) (b : β) :
    Typed (xs.foldlM f b) := by
  induction xs generalizing b with
  | nil => exact typed_ok
  | cons x xs ih =>
    rw [List.foldlM_cons]
    exact (hf b x).bind fun b' _ => ih b'

section Refusals

variable (p : Platform F)

/-! ## Specs -/

theorem parseArgv_typed (payload : PyDict F) : Typed (parseArgv payload) := by
  unfold parseArgv
  split
  · split
    · exact typed_refuse
    · exact typed_ok
  · exact typed_refuse

theorem parseEnv_typed (payload : PyDict F) : Typed (parseEnv payload) := by
  unfold parseEnv
  split
  · split
    · exact typed_refuse
    · exact typed_ok
  · exact typed_refuse

theorem parseBlobId_typed (entry : PyValue F) : Typed (parseBlobId p entry) := by
  unfold parseBlobId
  split
  · split
    · exact typed_refuse
    · exact typed_ok
  · exact typed_refuse

theorem parseBlobIds_typed (payload : PyDict F) : Typed (parseBlobIds p payload) := by
  unfold parseBlobIds
  split
  · exact typed_mapM (parseBlobId_typed p) _
  · exact typed_refuse

theorem parseOutput_typed (entry : PyValue F) : Typed (parseOutput entry) := by
  unfold parseOutput
  split
  · split
    · split
      · exact typed_ok
      · exact typed_refuse
    · exact typed_refuse
  · exact typed_refuse

theorem parseOutputs_typed (payload : PyDict F) : Typed (parseOutputs payload) := by
  unfold parseOutputs
  split
  · exact typed_mapM parseOutput_typed _
  · exact typed_refuse

theorem setLimit_typed (limits : ExecutionLimits F) (item : PyStr × PyValue F) : Typed (setLimit p limits item) := by
  unfold setLimit
  split
  · exact typed_ok
  · exact typed_refused

theorem parseLimits_typed (payload : PyDict F) : Typed (parseLimits p payload) := by
  unfold parseLimits
  split
  · exact typed_foldlM (setLimit_typed p) _ _
  · exact typed_refuse

theorem specFromWire_typed (payload : PyDict F) (nonce : PyStr) : Typed (specFromWire p payload nonce) := by
  unfold specFromWire
  split
  · exact typed_refused
  · refine (parseArgv_typed payload).bind fun image _ => (parseEnv_typed payload).bind fun _ _ => ?_
    refine (parseBlobIds_typed p payload).bind fun _ _ => (parseOutputs_typed payload).bind fun _ _ => ?_
    exact (parseLimits_typed p payload).bind fun _ _ => typed_ok

/-! ## Outcomes -/

/-- An integer that no float is close to. -/
def TooLarge (n : Int) : Prop := floatOverflow ≤ n.natAbs

/-- An outcome payload of the right shape, but its status is none, or its wall clock time is too large. -/
def OutcomeDefective (payload : PyDict F) : Prop :=
  ∃ fields, outcomeFields payload = some fields ∧ (Base64.decode fields.stdoutB64).isSome ∧
    (Base64.decode fields.stderrB64).isSome ∧ (∀ entry ∈ fields.outputs, (parseProduced p entry).isOk) ∧
    (ExecutionStatus.ofValue fields.status = none ∨ ∃ n, fields.wallSeconds = .int (.int n) ∧ TooLarge n)

theorem parseProduced_typed (entry : PyValue F) : Typed (parseProduced p entry) := by
  unfold parseProduced
  split
  · split
    · exact typed_refuse
    · exact typed_ok
    · split
      · exact typed_refuse
      · exact typed_ok
  · exact typed_refuse

theorem mapM_isOk {f : α → Except Raised β} {xs : List α} : (xs.mapM f).isOk = true ↔ ∀ x ∈ xs, (f x).isOk = true := by
  induction xs with
  | nil => simp [Except.isOk, Except.toBool, pure, Except.pure]
  | cons x xs ih =>
    rw [List.mapM_cons, List.forall_mem_cons, ← ih]
    cases f x with
    | error e => simp [bind, Except.bind, Except.isOk, Except.toBool]
    | ok y =>
      cases xs.mapM f with
      | error e => simp [bind, Except.bind, Except.isOk, Except.toBool]
      | ok ys => simp [bind, Except.bind, Except.isOk, Except.toBool, pure, Except.pure]

/-- A conversion of a number fails for the integers that are too large. -/
theorem float_none (fl : Floats F) {x : PyNumber F} :
    x.value.float? fl = none ↔ ∃ n, x = .int (.int n) ∧ TooLarge n := by
  rcases x with (b | n) | x
  · have hsmall : fl.ofInt (if b then 1 else 0) ≠ none := by
      intro hnone
      have hlarge := (fl.ofInt_none _).1 hnone
      have hsmall : ((if b then 1 else 0 : Int)).natAbs < floatOverflow := small_lt_overflow (by cases b <;> decide)
      exact absurd hlarge (Nat.not_le.2 hsmall)
    simpa [PyNumber.value, PyInt.value, PyValue.float?] using hsmall
  · simp [PyNumber.value, PyInt.value, PyValue.float?, fl.ofInt_none, TooLarge]
  · simp [PyNumber.value, PyValue.float?]

theorem outcomeFromWire_typed (payload : PyDict F) : Typed (outcomeFromWire p payload) ↔ ¬ OutcomeDefective p payload := by
  unfold OutcomeDefective outcomeFromWire
  cases hfields : outcomeFields payload with
  | none => simpa using typed_refuse
  | some fields =>
    simp only [Option.some.injEq, exists_eq_left']
    cases hout : Base64.decode fields.stdoutB64 with
    | none => simpa using typed_refuse
    | some stdout =>
      cases herr : Base64.decode fields.stderrB64 with
      | none => simpa using typed_refuse
      | some stderr =>
        rw [← mapM_isOk]
        cases houtputs : fields.outputs.mapM (parseProduced p) with
        | error e =>
          have htyped := typed_mapM (parseProduced_typed p) fields.outputs e houtputs
          simp [Except.isOk, Except.toBool, Typed, bind, Except.bind, htyped]
        | ok outputs =>
          cases hstatus : ExecutionStatus.ofValue fields.status with
          | none => simpa [Except.isOk, Except.toBool, bind, Except.bind, throw, throwThe, MonadExceptOf.throw] using not_typed_other
          | some status =>
            rw [← float_none p.floats]
            cases hwall : fields.wallSeconds.value.float? p.floats with
            | none => simpa [Except.isOk, Except.toBool, bind, Except.bind, throw, throwThe, MonadExceptOf.throw] using not_typed_other
            | some wall => simpa [Except.isOk, Except.toBool, bind, Except.bind, pure, Except.pure] using typed_ok

/-! ## Envelopes -/

/-- The spec has a lone surrogate, and the signature is one. -/
def SpecDefective (payload : PyDict F) : Prop :=
  ∃ spec signature bytes, field payload "spec" = .dict spec ∧ surrogateItems spec = true ∧
    field payload "signature" = .str signature ∧ fromhex signature = some bytes ∧ bytes.length = signatureBytes

/-- The fields of an envelope, with a timestamp that is too large; or with a spec that has no signing surface. -/
def EnvelopeDefective (payload : PyDict F) : Prop :=
  envelopeKeys payload = true ∧ (field payload "version").eqInt p.floats protocolVersion = true ∧
    ∃ nonce, field payload "nonce" = .str nonce ∧ nonceForm nonce = true ∧
      ((∃ n, field payload "issued_at" = .int n ∧ TooLarge n) ∨
        (isfinite p (field payload "issued_at") = some true ∧ SpecDefective payload))

theorem isfinite_none {x : PyValue F} : isfinite p x = none ↔ ∃ n, x = .int n ∧ TooLarge n := by
  cases x <;> simp [isfinite, p.floats.ofInt_none, TooLarge]

/-- A timestamp that is a finite number has a float. -/
theorem float_of_isfinite {x : PyValue F} (h : isfinite p x = some true) : ∃ issuedAt, x.float? p.floats = some issuedAt := by
  cases x with
  | int n =>
    rw [isfinite, Option.map_eq_some_iff] at h
    obtain ⟨issuedAt, hn, -⟩ := h
    exact ⟨issuedAt, hn⟩
  | float x => exact ⟨x, rfl⟩
  | _ => simp [isfinite] at h

theorem nonceForm_surrogate {nonce : PyStr} (h : nonceForm nonce = true) : nonce.any isSurrogate = false := by
  simp only [nonceForm, Bool.and_eq_true, List.all_eq_true, Bool.or_eq_true, decide_eq_true_eq] at h
  rw [List.any_eq_false]
  intro c hc
  have hletter := h.2 c hc
  simp only [isSurrogate, Bool.and_eq_true, decide_eq_true_eq]
  omega

/-- The surface has an encoding unless the spec has a lone surrogate. -/
theorem signingSurface_none {nonce : PyStr} {issuedAt : F} {spec : PyDict F} (h : nonceForm nonce = true) :
    signingSurface p nonce issuedAt spec = none ↔ surrogateItems spec = true := by
  rw [signingSurface, encode_dumps]
  simp only [PyValue.surrogate, surrogateItems, lit_surrogate, nonceForm_surrogate h, Bool.false_or, Bool.or_false]

theorem parseSignature_typed (payload : PyDict F) : Typed (parseSignature payload) := by
  unfold parseSignature
  split
  · split
    · exact typed_refuse
    · split
      · exact typed_refuse
      · split
        · exact typed_refuse
        · exact typed_ok
  · exact typed_refuse

theorem parseSignature_ok {payload : PyDict F} {bytes : Bytes} : parseSignature payload = .ok bytes ↔
    ∃ signature, field payload "signature" = .str signature ∧ fromhex signature = some bytes ∧ bytes.length = signatureBytes := by
  unfold parseSignature
  split
  · next signature hsignature =>
    rw [hsignature]
    simp only [PyValue.str.injEq, exists_eq_left']
    split
    · next hempty =>
      subst hempty
      simp [refuse, fromhex, signatureBytes]
      rintro rfl
      simp
    · split
      · next hhex => simp [refuse, hhex]
      · next bytes' hhex =>
        rw [hhex, Option.some.injEq]
        split
        · next hlen =>
          simp only [refuse, reduceCtorEq, false_iff, not_and]
          rintro rfl
          exact hlen
        · next hlen =>
          simp only [Except.ok.injEq]
          constructor
          · rintro rfl
            exact ⟨rfl, not_not.1 hlen⟩
          · exact And.left
  · next hother =>
    simp only [refuse, reduceCtorEq, false_iff, not_exists, not_and]
    intro signature hsignature
    exact absurd hsignature (hother signature)

theorem openSigned_typed {payload : PyDict F} {nonce : PyStr} {issuedAt : PyValue F} {publicKey : Bytes}
    (hform : nonceForm nonce = true) (hfinite : isfinite p issuedAt = some true) :
    Typed (openSigned p payload nonce issuedAt publicKey) ↔ ¬ SpecDefective payload := by
  obtain ⟨issued, hissued⟩ := float_of_isfinite p hfinite
  unfold openSigned
  split
  · next spec hspec =>
    cases hsignature : parseSignature payload with
    | error e =>
      have htyped : Typed (.error e : Except Raised (VerifiedEnvelope F × F)) := by
        rintro _ ⟨⟩
        exact parseSignature_typed payload e hsignature
      refine iff_of_true htyped ?_
      rintro ⟨-, signature, bytes, -, -, hsig, hhex, hlen⟩
      rw [parseSignature_ok.2 ⟨signature, hsig, hhex, hlen⟩] at hsignature
      cases hsignature
    | ok bytes =>
      simp only [bind, Except.bind, hissued]
      obtain ⟨signature, hsig, hhex, hlen⟩ := parseSignature_ok.1 hsignature
      cases hsurface : signingSurface p nonce issued spec with
      | none =>
        refine iff_of_false not_typed_other (not_not.2 ?_)
        exact ⟨spec, signature, bytes, hspec, (signingSurface_none p hform).1 hsurface, hsig, hhex, hlen⟩
      | some surface =>
        refine iff_of_true ?_ ?_
        · dsimp only
          split
          · exact typed_refuse
          · split
            · exact typed_refuse
            · exact typed_ok
        · rintro ⟨spec', -, -, hspec', hsurrogate, -⟩
          obtain rfl : spec = spec' := by simpa [hspec] using hspec'
          rw [(signingSurface_none p hform).2 hsurrogate] at hsurface
          cases hsurface
  · next hother =>
    refine iff_of_true typed_refuse ?_
    rintro ⟨spec, -, -, hspec, -⟩
    exact hother spec hspec

/-- What follows the fields of an envelope. -/
theorem openFields_typed {payload : PyDict F} {publicKey : Bytes} (hkeys : envelopeKeys payload = true)
    (hversion : (field payload "version").eqInt p.floats protocolVersion = true) :
    Typed (do
      let (nonce, issuedAt) ← parseNonce p payload
      openSigned p payload nonce issuedAt publicKey) ↔ ¬ EnvelopeDefective p payload := by
  unfold EnvelopeDefective parseNonce
  simp only [hkeys, hversion, true_and]
  rw [← isfinite_none]
  split
  · next nonce hnonce =>
    simp only [hnonce, PyValue.str.injEq, exists_eq_left']
    cases hform : nonceForm nonce with
    | false => exact iff_of_true typed_refuse (by simp)
    | true =>
      cases hfinite : isfinite p (field payload "issued_at") with
      | none => exact iff_of_false not_typed_other (by simp)
      | some finite =>
        cases finite with
        | false => exact iff_of_true typed_refuse (by simp)
        | true =>
          have hsigned : Typed (openSigned p payload nonce (field payload "issued_at") publicKey) ↔ ¬ SpecDefective payload :=
            openSigned_typed p hform hfinite
          simpa [bind, Except.bind] using hsigned
  · next hother =>
    refine iff_of_true typed_refuse ?_
    rintro ⟨nonce, hnonce, -⟩
    exact hother nonce hnonce

theorem openEnvelope_typed {raw publicKey : Bytes} : Typed (openEnvelope p raw publicKey) ↔
    ¬ ∃ text payload, decodeUtf8 raw = some text ∧ p.loads text = some (.dict payload) ∧ EnvelopeDefective p payload := by
  unfold openEnvelope parseFrame
  cases htext : decodeUtf8 raw with
  | none => exact iff_of_true typed_refuse (by simp)
  | some text =>
    simp only [Option.some.injEq, exists_and_left, exists_eq_left']
    split
    · next hloads => exact iff_of_true typed_refuse (by simp [hloads])
    · next payload hloads =>
      simp only [hloads, Option.some.injEq, PyValue.dict.injEq, exists_eq_left']
      cases hkeys : envelopeKeys payload with
      | false => exact iff_of_true typed_refuse (by simp [EnvelopeDefective, hkeys])
      | true =>
        cases hversion : (field payload "version").eqInt p.floats protocolVersion with
        | false => exact iff_of_true typed_refused (by simp [EnvelopeDefective, hversion])
        | true => exact openFields_typed p hkeys hversion
    · next hother hloads =>
      refine iff_of_true typed_refuse ?_
      rintro ⟨payload, hpayload, -⟩
      rw [hloads, Option.some.injEq] at hpayload
      exact hother payload hpayload

theorem checkAndRecord_typed (fl : Floats F) (guard : NonceReplayGuard F) (nonce : PyStr) (issuedAt now : F) :
    Typed (guard.checkAndRecord fl nonce issuedAt now).1 := by
  unfold NonceReplayGuard.checkAndRecord NonceReplayGuard.record
  split
  · exact typed_refuse
  · dsimp only
    split
    · exact typed_refuse
    · exact typed_ok

theorem verifyEnvelope_typed {raw publicKey : Bytes} {replay : NonceReplayGuard F} {now : F} :
    Typed (verifyEnvelope p raw publicKey replay now).1 ↔ Typed (openEnvelope p raw publicKey) := by
  unfold verifyEnvelope
  cases openEnvelope p raw publicKey with
  | error e => simp [Typed]
  | ok opened =>
    obtain ⟨envelope, issuedAt⟩ := opened
    refine iff_of_true ?_ typed_ok
    have hchecked := checkAndRecord_typed p.floats replay envelope.nonce issuedAt now
    cases h : (replay.checkAndRecord p.floats envelope.nonce issuedAt now).1 with
    | ok _ => simpa [h, Except.map] using typed_ok
    | error e =>
      rw [h] at hchecked
      simp only [h, Except.map]
      rintro _ ⟨⟩
      exact hchecked e rfl

/-- **The boundary raises typed refusals only, but for** a frame whose envelope has a timestamp that is too large or a
spec with a lone surrogate, and an outcome payload whose status is none or whose wall clock time is too large. -/
theorem refusals_typed :
    (∀ raw publicKey replay now, Typed (verifyEnvelope p raw publicKey replay now).1 ↔
      ¬ ∃ text payload, decodeUtf8 raw = some text ∧ p.loads text = some (.dict payload) ∧ EnvelopeDefective p payload) ∧
    (∀ payload nonce, Typed (specFromWire p payload nonce)) ∧
    ∀ payload, Typed (outcomeFromWire p payload) ↔ ¬ OutcomeDefective p payload := by
  refine ⟨fun raw publicKey replay now => ?_, specFromWire_typed p, outcomeFromWire_typed p⟩
  rw [verifyEnvelope_typed, openEnvelope_typed]

end Refusals

/-! ## What escapes -/

theorem decodeUtf8_ascii {text : Text} (h : text.all (·.toNat < 128) = true) :
    decodeUtf8 (text.map fun c => UInt8.ofNat c.toNat) = some text := by
  induction text with
  | nil => rfl
  | cons c text ih =>
    rw [List.all_cons, Bool.and_eq_true, decide_eq_true_eq] at h
    have hlt : UInt8.ofNat c.toNat < 0x80 := by
      rw [UInt8.lt_iff_toNat_lt, UInt8.toNat_ofNat']
      have hmod : c.toNat % 2 ^ 8 = c.toNat := Nat.mod_eq_of_lt (by omega)
      rw [hmod]
      exact h.1
    have hbyte : (UInt8.ofNat c.toNat).toNat = c.toNat := by
      rw [UInt8.toNat_ofNat']
      exact Nat.mod_eq_of_lt (by omega)
    rw [List.map_cons]
    unfold decodeUtf8
    rw [if_pos hlt, ih h.2, Option.map_some, hbyte, Char.ofNat_toNat]

/-- An envelope whose spec has a lone surrogate, escaped. -/
def surrogateFrame : String :=
  "\x7b\"version\":1,\"nonce\":\"AAAAAAAAAAAAAAAA\",\"issued_at\":0,\"spec\":\x7b\"argv\":[\"\\ud800\"]\x7d,\"signature\":\"" ++
    String.ofList (List.replicate 128 '0') ++ "\"\x7d"

/-- The hex digits of 64 zero bytes. -/
def zeroSignature : PyStr := List.replicate 128 0x30

def surrogatePayload : PyDict Int :=
  [(lit "version", .int 1), (lit "nonce", .str (List.replicate 16 0x41)), (lit "issued_at", .int 0),
    (lit "spec", .dict [(lit "argv", .list [.str [0xD800]])]), (lit "signature", .str zeroSignature)]

/-- Whole numbers; of the frames that are JSON the one above. -/
def framePlatform : Platform Int where
  floats := wholeFloats
  loads text := if text = surrogateFrame.toList then some (.dict surrogatePayload) else none
  repr _ := []
  isspace _ := false
  decimal _ := none
  cryptoSignOpen _ _ := none

/-- An outcome of this status and wall clock time. -/
def outcomePayload (status : String) (wallSeconds : Int) : PyDict Int :=
  [(lit "status", .str (lit status)), (lit "exit_code", .int 0), (lit "stdout_b64", .str []), (lit "stderr_b64", .str []),
    (lit "wall_seconds", .int wallSeconds), (lit "oom_kill_count", .int 0), (lit "kill_method", .str []),
    (lit "image_digest", .str [])]

/-- The frame with the lone surrogate raises a UnicodeEncodeError, an outcome of an unknown status a ValueError, and one
of a huge wall clock time an OverflowError. -/
theorem refusals_untyped :
    ¬ Typed (verifyEnvelope framePlatform (surrogateFrame.toList.map fun c => UInt8.ofNat c.toNat) [] ⟨300, []⟩ 0).1 ∧
      ¬ Typed (outcomeFromWire framePlatform (outcomePayload "paused" 1)) ∧
      ¬ Typed (outcomeFromWire framePlatform (outcomePayload "succeeded" (10 ^ 400))) := by
  refine ⟨?_, ?_, ?_⟩
  · have htext : decodeUtf8 (surrogateFrame.toList.map fun c => UInt8.ofNat c.toNat) = some surrogateFrame.toList :=
      decodeUtf8_ascii (by decide +kernel)
    have hloads : framePlatform.loads surrogateFrame.toList = some (.dict surrogatePayload) := by
      simp only [framePlatform, if_true]
    rw [verifyEnvelope_typed, openEnvelope_typed, not_not]
    refine ⟨_, _, htext, hloads, by decide +kernel, by decide +kernel, List.replicate 16 0x41, by rfl, by decide +kernel, .inr ⟨?_, ?_⟩⟩
    · decide +kernel
    · exact ⟨[(lit "argv", .list [.str [0xD800]])], zeroSignature, List.replicate 64 0, by rfl, by decide +kernel, by rfl,
        by decide +kernel, by decide +kernel⟩
  · have hraised : outcomeFromWire framePlatform (outcomePayload "paused" 1) = .error (.other "ValueError") := by rfl
    rw [hraised]
    exact not_typed_other
  · have hlarge : TooLarge (10 ^ 400) := by
      unfold TooLarge
      decide +kernel
    rw [outcomeFromWire_typed, not_not]
    exact ⟨_, rfl, by rfl, by rfl, by simp, .inr ⟨10 ^ 400, rfl, hlarge⟩⟩

end MilpbookLM.Execution
