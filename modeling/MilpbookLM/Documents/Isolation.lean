/-
What the parent makes of a parser child's result. A child that failed, left no file or
too large a one is a failure. Otherwise the file goes through pydantic and the decoder of
the canonical contract, and what either raises is caught nowhere: a result comes back exactly
for an envelope that, where it succeeded, has no document or one that conforms to the schema
(`completed_iff`).
-/
import MilpbookLM.Contracts.CodecLossless
import MilpbookLM.Contracts.Schema

namespace MilpbookLM.Isolation

open Execution Contracts

variable {F : Type}

/-- The states of a failed parse. -/
inductive FailureState
  | unsupported | corrupt | encrypted | tooLarge | timeout | policyBlocked | noContent | internal
  deriving DecidableEq

def FailureState.value : FailureState → String
  | unsupported => "unsupported"
  | corrupt => "corrupt"
  | encrypted => "encrypted"
  | tooLarge => "too_large"
  | timeout => "timeout"
  | policyBlocked => "policy_blocked"
  | noContent => "no_content"
  | internal => "internal"

def FailureState.all : List FailureState :=
  [unsupported, corrupt, encrypted, tooLarge, timeout, policyBlocked, noContent, internal]

inductive ParseResult (F : Type)
  | success (document : Contracts.CanonicalDocument F)
  | failure (state : FailureState) (detail : PyStr)

/-- What goes through the parent uncaught: pydantic's ValidationError, or what the decoder raises. -/
inductive Raised
  | validationError
  | codec (e : CodecError)
  deriving DecidableEq

/-! ## The envelope -/

/-- `_ChildEnvelope`; no state but `succeeded` is none. -/
structure ChildEnvelope (F : Type) where
  state : Option FailureState
  document : Option (PyDict F) := none
  detail : Option PyStr := none

/-- One of the literals of `state`. -/
def stateOf : PyValue F → Option (Option FailureState)
  | .str s =>
    if s = lit "succeeded" then some none
    else (FailureState.all.find? fun state => lit state.value == s).map some
  | _ => none

/-- `dict[str, JsonValue] | None`. -/
def documentOf : PyValue F → Option (Option (PyDict F))
  | .none => some none
  | .dict d => some (some d)
  | _ => none

/-- `str | None`. -/
def detailOf : PyValue F → Option (Option PyStr)
  | .none => some none
  | .str s => some (some s)
  | _ => none

def envelopeFields : List String := ["state", "document", "detail"]

/-- The validation of a JSON value, with extra fields forbidden; none for a ValidationError. -/
def ChildEnvelope.validate : PyValue F → Option (ChildEnvelope F)
  | .dict d =>
    if unknown d envelopeFields ≠ [] then none
    else do
      let state ← stateOf (field d "state")
      let document ← documentOf (field d "document")
      let detail ← detailOf (field d "detail")
      pure { state, document, detail }
  | _ => none

/-- What the interpreter and pydantic bring along. -/
structure Library (F : Type) where
  platform : Platform F
  /-- The JSON value of the bytes; none where pydantic refuses them. -/
  parseJson : Bytes → Option (PyValue F)
  /-- `data.decode("utf-8", errors="replace")`. -/
  decodeReplace : Bytes → PyStr

variable (lib : Library F)

/-- `_ChildEnvelope.model_validate_json`. -/
def Library.validateJson (data : Bytes) : Option (ChildEnvelope F) := (lib.parseJson data).bind ChildEnvelope.validate

/-- `text or default`. -/
def orElse (text default : PyStr) : PyStr := if text = [] then default else text

/-- `_decode_envelope`. -/
def decodeEnvelope (envelope : ChildEnvelope F) : Except Raised (ParseResult F) :=
  match envelope.state with
  | some state => .ok (.failure state (orElse (envelope.detail.getD []) (lit state.value)))
  | none =>
    match envelope.document with
    | none => .ok (.failure .internal (lit "parser child omitted the document"))
    | some value =>
      match documentFromJson lib.platform value with
      | .ok document => .ok (.success document)
      | .error e => .error (.codec e)

/-! ## The result -/

def sigxfsz : Int := 25

/-- The child failed, or left no file. -/
def childFailed (returncode : Int) (output : Option Bytes) : Bool := returncode ≠ 0 || output.isNone

/-- `_completed_result`; `output` is none where there is no file. -/
def completedResult (outputBytes : Nat) (returncode : Int) (stderr : Bytes) (output : Option Bytes) :
    Except Raised (ParseResult F) :=
  if childFailed returncode output then
    let detail := orElse (lib.decodeReplace (stderr.take 512)) (lit "parser child failed")
    if returncode = -sigxfsz ∨ returncode = 128 + sigxfsz then .ok (.failure .tooLarge detail)
    else .ok (.failure .internal detail)
  else
    let data := output.getD []
    if outputBytes < data.length then .ok (.failure .tooLarge (lit "parser output exceeded limit"))
    else
      match lib.validateJson data with
      | none => .error .validationError
      | some envelope => decodeEnvelope lib envelope

/-- The file is read: the child ended well, and its output is not too large. -/
def ReadsFile (outputBytes : Nat) (returncode : Int) (output : Option Bytes) (data : Bytes) : Prop :=
  returncode = 0 ∧ output = some data ∧ data.length ≤ outputBytes

/-- What a result has to be: a success for an envelope in state succeeded whose document decodes, and a failure
for everything else. -/
def Settles (outputBytes : Nat) (returncode : Int) (output : Option Bytes) : ParseResult F → Prop
  | .success document => ∃ data envelope value, ReadsFile outputBytes returncode output data ∧
      lib.validateJson data = some envelope ∧ envelope.state = none ∧ envelope.document = some value ∧
      documentFromJson lib.platform value = .ok document
  | .failure _ _ => ¬ ∃ data envelope value document, ReadsFile outputBytes returncode output data ∧
      lib.validateJson data = some envelope ∧ envelope.state = none ∧ envelope.document = some value ∧
      documentFromJson lib.platform value = .ok document

/-- The condition: a file that is read is an envelope, and a document in one that succeeded is of the schema. -/
def Acceptable (outputBytes : Nat) (returncode : Int) (output : Option Bytes) : Prop :=
  ∀ data, ReadsFile outputBytes returncode output data → ∃ envelope, lib.validateJson data = some envelope ∧
    (envelope.state = none → ∀ value, envelope.document = some value → Conforming lib.platform value)

variable {lib} {outputBytes : Nat} {returncode : Int} {stderr : Bytes} {output : Option Bytes} {r : ParseResult F}

/-- A file that is not read comes to a failure. -/
theorem completed_unread (h : ¬ ∃ data, ReadsFile outputBytes returncode output data) :
    ∃ state detail, completedResult lib outputBytes returncode stderr output = .ok (.failure state detail) := by
  simp only [completedResult]
  split
  · split
    · exact ⟨_, _, rfl⟩
    · exact ⟨_, _, rfl⟩
  · next hchild =>
    simp only [childFailed, Bool.or_eq_true, decide_eq_true_eq, not_or, not_not, Option.isNone_iff_eq_none] at hchild
    obtain ⟨data, hdata⟩ := Option.ne_none_iff_exists'.1 hchild.2
    split
    · exact ⟨_, _, rfl⟩
    · next hsize =>
      rw [hdata, Option.getD_some] at hsize
      exact absurd ⟨data, hchild.1, hdata, Nat.le_of_not_lt hsize⟩ h

/-- A file that is read is validated and decoded. -/
theorem completed_read {data : Bytes} (h : ReadsFile outputBytes returncode output data) :
    completedResult lib outputBytes returncode stderr output =
      match lib.validateJson data with
      | none => .error .validationError
      | some envelope => decodeEnvelope lib envelope := by
  obtain ⟨rfl, rfl, hsize⟩ := h
  simp [completedResult, childFailed, Nat.not_lt.2 hsize]

theorem ReadsFile.unique {data data' : Bytes} (h : ReadsFile outputBytes returncode output data)
    (h' : ReadsFile outputBytes returncode output data') : data = data' := Option.some.inj (h.2.1.symm.trans h'.2.1)

/-- **A result comes back, and is the right one, exactly for acceptable output.** -/
theorem completed_iff : (∃ r, completedResult lib outputBytes returncode stderr output = .ok r ∧
      Settles lib outputBytes returncode output r) ↔ Acceptable lib outputBytes returncode output := by
  by_cases hread : ∃ data, ReadsFile outputBytes returncode output data
  · obtain ⟨data, hdata⟩ := hread
    have hacc : Acceptable lib outputBytes returncode output ↔ ∃ envelope, lib.validateJson data = some envelope ∧
        (envelope.state = none → ∀ value, envelope.document = some value → Conforming lib.platform value) :=
      ⟨fun h => h data hdata, fun h data' hdata' => hdata.unique hdata' ▸ h⟩
    rw [hacc, completed_read hdata]
    cases hvalid : lib.validateJson data with
    | none => simp
    | some envelope =>
      simp only [Option.some.injEq, exists_eq_left']
      -- nothing but this envelope can have been read
      have honly : ∀ data' envelope' (value : PyDict F) (document : Contracts.CanonicalDocument F),
          ReadsFile outputBytes returncode output data' → lib.validateJson data' = some envelope' → envelope' = envelope := by
        intro data' envelope' _ _ hdata' hvalid'
        obtain rfl := hdata.unique hdata'
        exact Option.some.inj (hvalid'.symm.trans hvalid)
      cases hstate : envelope.state with
      | some state =>
        refine iff_of_true ⟨_, by rw [decodeEnvelope, hstate], ?_⟩ nofun
        rintro ⟨data', envelope', value, document, hdata', hvalid', hnone, -⟩
        obtain rfl := honly _ _ value document hdata' hvalid'
        rw [hstate] at hnone
        cases hnone
      | none =>
        cases hdocument : envelope.document with
        | none =>
          refine iff_of_true ⟨_, by rw [decodeEnvelope, hstate, hdocument], ?_⟩ nofun
          rintro ⟨data', envelope', value, document, hdata', hvalid', -, hsome, -⟩
          obtain rfl := honly _ _ value document hdata' hvalid'
          rw [hdocument] at hsome
          cases hsome
        | some value =>
          simp only [Option.some.injEq, forall_eq', true_imp_iff, conforms_iff, decodeEnvelope, hstate, hdocument]
          constructor
          · rintro ⟨r, hr, -⟩
            cases hdecode : documentFromJson lib.platform value with
            | error e =>
              rw [hdecode] at hr
              cases hr
            | ok document => exact ⟨document, rfl⟩
          · rintro ⟨document, hdecode⟩
            exact ⟨.success document, by rw [hdecode], data, envelope, value, hdata, hvalid, hstate, hdocument, hdecode⟩
  · obtain ⟨state, detail, hresult⟩ := @completed_unread _ lib _ _ stderr _ hread
    refine iff_of_true ⟨_, hresult, ?_⟩ fun data hdata => absurd ⟨data, hdata⟩ hread
    rintro ⟨data, envelope, value, document, hdata, -⟩
    exact hread ⟨data, hdata⟩

/-! ## What is caught nowhere -/

/-- A document whose id is no UUID. -/
def namelessText : String :=
  "\x7b\"state\":\"succeeded\",\"document\":\x7b\"schema_version\":\"1\",\"parser\":\x7b\"identity\":\"\",\"version\":\"\",\"profile\":\"\",\"tool_versions\":[]\x7d,\"document_id\":\"x\"\x7d\x7d"

def namelessDocument : PyDict Int :=
  [(lit "schema_version", .str (lit "1")),
    (lit "parser", .dict [(lit "identity", .str []), (lit "version", .str []), (lit "profile", .str []),
      (lit "tool_versions", .list [])]),
    (lit "document_id", .str (lit "x"))]

/-- The bytes of a text in ASCII. -/
def asciiBytes (s : String) : Bytes := s.toList.map fun c => UInt8.ofNat c.toNat

def namelessEnvelope : PyValue Int :=
  .dict [(lit "state", .str (lit "succeeded")), (lit "document", .dict namelessDocument)]

/-- A library that reads the one JSON text. -/
def wireLibrary : Library Int where
  platform := wirePlatform
  parseJson data := if data = asciiBytes namelessText then some namelessEnvelope else none
  decodeReplace data := data.map UInt8.toNat

/-- A file that is no JSON raises a ValidationError, and one whose document has a bad id a ValueError, which is no
error of the contract. -/
theorem uncaught :
    completedResult wireLibrary 1024 0 [] (some [0x7B]) = .error .validationError ∧
      documentFromJson wirePlatform namelessDocument = .error .valueError ∧
      completedResult wireLibrary 1024 0 [] (some (asciiBytes namelessText)) = .error (.codec .valueError) := by
  have hdiffer : [0x7B] ≠ asciiBytes namelessText := by decide +kernel
  have hsize : (asciiBytes namelessText).length ≤ 1024 := by decide +kernel
  have hinvalid : wireLibrary.validateJson [0x7B] = none := by
    simp only [Library.validateJson, wireLibrary, if_neg hdiffer, Option.bind_none]
  have hvalid : wireLibrary.validateJson (asciiBytes namelessText) =
      some { state := none, document := namelessDocument } := by
    simp only [Library.validateJson, wireLibrary, if_true, Option.bind_some]
    rfl
  refine ⟨?_, rfl, ?_⟩
  · rw [completed_read ⟨rfl, rfl, by decide⟩, hinvalid]
  · rw [completed_read ⟨rfl, rfl, hsize⟩, hvalid]
    rfl

end MilpbookLM.Isolation
