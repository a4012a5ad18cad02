/-
What the broker and its client put on the wire: an execution spec and an outcome as JSON
objects, and back. The decoders are strict: they refuse what is not of the format's shape.
-/
import MilpbookLM.Execution.SpecProtocol
import MilpbookLM.Lib.Base64

namespace MilpbookLM.Execution

variable {F : Type}

/-! ## Specs and outcomes -/

/-- `_LIMIT_FIELDS`, the fields of `ExecutionLimits`. -/
inductive LimitField
  | wallTimeoutSeconds | memoryMaxBytes | pidsMax | cpuQuotaMicros | cpuPeriodMicros | tmpfsMaxBytes | maxStdoutBytes
  | maxStderrBytes | maxStagedInputBytes | maxOutputFileBytes | maxTotalOutputBytes
  deriving DecidableEq

def LimitField.all : List LimitField :=
  [.wallTimeoutSeconds, .memoryMaxBytes, .pidsMax, .cpuQuotaMicros, .cpuPeriodMicros, .tmpfsMaxBytes, .maxStdoutBytes,
    .maxStderrBytes, .maxStagedInputBytes, .maxOutputFileBytes, .maxTotalOutputBytes]

def LimitField.name : LimitField → String
  | .wallTimeoutSeconds => "wall_timeout_seconds"
  | .memoryMaxBytes => "memory_max_bytes"
  | .pidsMax => "pids_max"
  | .cpuQuotaMicros => "cpu_quota_micros"
  | .cpuPeriodMicros => "cpu_period_micros"
  | .tmpfsMaxBytes => "tmpfs_max_bytes"
  | .maxStdoutBytes => "max_stdout_bytes"
  | .maxStderrBytes => "max_stderr_bytes"
  | .maxStagedInputBytes => "max_staged_input_bytes"
  | .maxOutputFileBytes => "max_output_file_bytes"
  | .maxTotalOutputBytes => "max_total_output_bytes"

/-- The limit of each field. -/
abbrev ExecutionLimits (F : Type) := LimitField → PyNumber F

/-- `ExecutionLimits()`. -/
def defaultLimits (fl : Floats F) : ExecutionLimits F
  | .wallTimeoutSeconds => .float (fl.ofSmall 30 (by decide))
  | .memoryMaxBytes => .int (.int (512 * 1024 * 1024))
  | .pidsMax => .int (.int 128)
  | .cpuQuotaMicros => .int (.int 200000)
  | .cpuPeriodMicros => .int (.int 100000)
  | .tmpfsMaxBytes => .int (.int (64 * 1024 * 1024))
  | .maxStdoutBytes => .int (.int (64 * 1024))
  | .maxStderrBytes => .int (.int (64 * 1024))
  | .maxStagedInputBytes => .int (.int (256 * 1024 * 1024))
  | .maxOutputFileBytes => .int (.int (64 * 1024 * 1024))
  | .maxTotalOutputBytes => .int (.int (256 * 1024 * 1024))

structure DeclaredOutput where
  relativePath : PyStr
  maxBytes : PyInt
  deriving DecidableEq

structure ExecutionSpec (F : Type) where
  imageDigest : PyStr
  argv : List PyStr
  envAllowlist : List (PyStr × PyStr) := []
  inputBlobIds : List Uuid := []
  declaredOutputs : List DeclaredOutput := []
  limits : ExecutionLimits F
  nonce : PyStr := []

inductive ExecutionStatus
  | succeeded | failed | timeoutKilled | oomKilled | policyViolation
  deriving DecidableEq

def ExecutionStatus.value : ExecutionStatus → String
  | .succeeded => "succeeded"
  | .failed => "failed"
  | .timeoutKilled => "timeout_killed"
  | .oomKilled => "oom_killed"
  | .policyViolation => "policy_violation"

/-- `ExecutionStatus(value)`; `none` for a ValueError. -/
def ExecutionStatus.ofValue (value : PyStr) : Option ExecutionStatus :=
  [succeeded, failed, timeoutKilled, oomKilled, policyViolation].find? fun status => lit status.value == value

structure ProducedOutput where
  declaredPath : PyStr
  contentSha256 : PyStr
  sizeBytes : PyInt
  sniffedMedia : PyStr
  quarantinePath : PyStr
  blobId : Option Uuid := none
  deriving DecidableEq

structure ExecutionOutcome (F : Type) where
  status : ExecutionStatus
  exitCode : Option PyInt
  stdoutExcerpt : Bytes
  stderrExcerpt : Bytes
  outputs : List ProducedOutput
  wallSeconds : F
  oomKillCount : PyInt
  killMethod : PyStr
  imageDigest : PyStr
  truncatedStreams : Bool := false
  undeclaredOutputCount : PyInt := .int 0

/-! ## Blob ids -/

/-- `text.replace(sub, "")`; `skip` code points of an occurrence are left. -/
def removeFrom (sub : PyStr) : Nat → PyStr → PyStr
  | _, [] => []
  | skip + 1, _ :: text => removeFrom sub skip text
  | 0, c :: text => if sub.isPrefixOf (c :: text) then removeFrom sub (sub.length - 1) text else c :: removeFrom sub 0 text

def remove (sub : PyStr) (text : PyStr) : PyStr := removeFrom sub 0 text

/-- `text.strip(cs)`. -/
def strip (p : Nat → Bool) (text : PyStr) : PyStr := ((text.dropWhile p).reverse.dropWhile p).reverse

/-- The digits from an underscore or a digit on: underscores only between two digits. -/
def hexDigitsFrom (value : Nat) : PyStr → Option Nat
  | [] => some value
  | [c] => (hexDigit c).map (16 * value + ·)
  | c :: d :: text =>
    if c = 0x5F then (hexDigit d).bind fun digit => hexDigitsFrom (16 * value + digit) text
    else (hexDigit c).bind fun digit => hexDigitsFrom (16 * value + digit) (d :: text)

def hexInt : PyStr → Option Nat
  | [] => none
  | c :: text => (hexDigit c).bind fun digit => hexDigitsFrom digit text

/-- A plus sign. -/
def dropPlus : PyStr → PyStr
  | c :: text => if c = 0x2B then text else c :: text
  | [] => []

/-- `0x`, and an underscore after it. -/
def dropHexPrefix : PyStr → PyStr
  | c :: x :: u :: text =>
    if c = 0x30 ∧ (x = 0x78 ∨ x = 0x58) then if u = 0x5F then text else u :: text else c :: x :: u :: text
  | [c, x] => if c = 0x30 ∧ (x = 0x78 ∨ x = 0x58) then [] else [c, x]
  | text => text

section Platform

variable (p : Platform F)

/-- What `int` makes of a code point: spaces and decimal digits of other scripts are read as those of ASCII. -/
def Platform.asciiOf (c : Nat) : Nat :=
  if c < 127 then c else if p.isspace c then 0x20 else match p.decimal c with
    | some d => 0x30 + d
    | none => 0x3F

def asciiSpace (c : Nat) : Bool := c = 0x20 || 0x09 ≤ c && c ≤ 0x0D

/-- `int(text, 16)` of a text without a minus sign; `none` for a ValueError. -/
def intBase16 (text : PyStr) : Option Nat :=
  hexInt (dropHexPrefix (dropPlus (strip asciiSpace (text.map p.asciiOf))))

/-- `uuid.UUID(text)`; `none` for a ValueError. -/
def uuidOf (text : PyStr) : Option Uuid :=
  let hex := remove (lit "uuid:") (remove (lit "urn:") text)
  let hex := remove (lit "-") (strip (fun c => c = 0x7B || c = 0x7D) hex)
  if hex.length ≠ 32 then none
  else (intBase16 p hex).map (BitVec.ofNat 128)

/-! ## Specs on the wire -/

/-- `dict(items)`: a key that comes again keeps its place. -/
def dictOf {α : Type} (items : List (PyStr × α)) : List (PyStr × α) :=
  items.foldl (fun d item =>
    if d.any (·.1 == item.1) then d.map fun old => if old.1 = item.1 then item else old else d ++ [item]) []

/-- `spec_to_wire`. -/
def specToWire (spec : ExecutionSpec F) : PyDict F :=
  [(lit "image_digest", .str spec.imageDigest),
    (lit "argv", .list (spec.argv.map .str)),
    (lit "env", .dict (dictOf (spec.envAllowlist.map fun item => (item.1, .str item.2)))),
    (lit "input_blob_ids", .list (spec.inputBlobIds.map fun blobId => .str (lit blobId.str))),
    (lit "declared_outputs", .list (spec.declaredOutputs.map fun entry =>
      .dict [(lit "path", .str entry.relativePath), (lit "max_bytes", entry.maxBytes.value)])),
    (lit "limits", .dict (LimitField.all.map fun field => (lit field.name, (spec.limits field).value)))]

def specFields : List String := ["image_digest", "argv", "env", "input_blob_ids", "declared_outputs", "limits"]

/-- The keys outside the format. -/
def unknownKeys (payload : PyDict F) : List PyStr :=
  (payload.map (·.1)).filter fun key => !(specFields.any fun known => key == lit known)

def parseArgv (payload : PyDict F) : Except Raised (PyStr × List PyStr) :=
  match field payload "image_digest", field payload "argv" with
  | .str imageDigest, .list (part :: parts) =>
    match (part :: parts).mapM PyValue.str? with
    | none => refuse .invalidSpec "argv entries must be strings"
    | some argv => .ok (imageDigest, argv)
  | _, _ => refuse .invalidSpec "image_digest/argv missing"

/-- `sorted(items)`. -/
def sortEnv (items : List (PyStr × PyStr)) : List (PyStr × PyStr) :=
  items.insertionSort fun a b => a.1 < b.1 ∨ a.1 = b.1 ∧ a.2 ≤ b.2

def parseEnv (payload : PyDict F) : Except Raised (List (PyStr × PyStr)) :=
  match (field? payload "env").getD (.dict []) with
  | .dict items =>
    match items.mapM fun item => item.2.str?.map (item.1, ·) with
    | none => refuse .invalidSpec "env must be a string map"
    | some env => .ok (sortEnv env)
  | _ => refuse .invalidSpec "env must be a string map"

def parseBlobId : PyValue F → Except Raised Uuid
  | .str entry => match uuidOf p entry with
    | none => refuse .invalidSpec "blob id is not a uuid"
    | some blobId => .ok blobId
  | _ => refuse .invalidSpec "blob id must be a string"

def parseBlobIds (payload : PyDict F) : Except Raised (List Uuid) :=
  match (field? payload "input_blob_ids").getD (.list []) with
  | .list entries => entries.mapM (parseBlobId p)
  | _ => refuse .invalidSpec "input_blob_ids must be a list"

def parseOutput : PyValue F → Except Raised DeclaredOutput
  | .dict entry => match field entry "path" with
    | .str path => match (field entry "max_bytes").int? with
      | some maxBytes => .ok ⟨path, maxBytes⟩
      | none => refuse .invalidSpec "declared output max_bytes must be an int"
    | _ => refuse .invalidSpec "declared output entry malformed"
  | _ => refuse .invalidSpec "declared output entry malformed"

def parseOutputs (payload : PyDict F) : Except Raised (List DeclaredOutput) :=
  match (field? payload "declared_outputs").getD (.list []) with
  | .list entries => entries.mapM parseOutput
  | _ => refuse .invalidSpec "declared_outputs must be a list"

/-- One item of the limits. -/
def setLimit (limits : ExecutionLimits F) (item : PyStr × PyValue F) : Except Raised (ExecutionLimits F) :=
  match LimitField.all.find? fun field => lit field.name == item.1, item.2.number? with
  | some field, some value => .ok (Function.update limits field value)
  | _, _ => .error (.refused .invalidSpec (lit "limit field " ++ p.repr (.str item.1) ++ lit " is not known/numeric"))

def parseLimits (payload : PyDict F) : Except Raised (ExecutionLimits F) :=
  match (field? payload "limits").getD (.dict []) with
  | .dict items => items.foldlM (setLimit p) (defaultLimits p.floats)
  | _ => refuse .invalidSpec "limits must be an object"

/-- `spec_from_wire`. -/
def specFromWire (payload : PyDict F) (nonce : PyStr) : Except Raised (ExecutionSpec F) := do
  if unknownKeys payload ≠ [] then
    throw (.refused .invalidSpec (lit "unknown spec fields: " ++
      p.repr (.list (((unknownKeys payload).insertionSort (· ≤ ·)).map .str))))
  let (imageDigest, argv) ← parseArgv payload
  let env ← parseEnv payload
  let blobIds ← parseBlobIds p payload
  let declared ← parseOutputs payload
  let limits ← parseLimits p payload
  return ⟨imageDigest, argv, env, blobIds, declared, limits, nonce⟩

/-! ## Outcomes on the wire -/

/-- A value that may be None. -/
def optional {α : Type} (value : α → PyValue F) : Option α → PyValue F
  | none => .none
  | some x => value x

/-- None, or what `parse` takes. -/
def optional? {α : Type} (parse : PyValue F → Option α) : PyValue F → Option (Option α)
  | .none => some none
  | x => (parse x).map some

def producedToWire (output : ProducedOutput) : PyValue F :=
  .dict [(lit "declared_path", .str output.declaredPath),
    (lit "content_sha256", .str output.contentSha256),
    (lit "size_bytes", output.sizeBytes.value),
    (lit "sniffed_media", .str output.sniffedMedia),
    (lit "quarantine_path", .str output.quarantinePath),
    (lit "blob_id", optional (fun blobId : Uuid => .str (lit blobId.str)) output.blobId)]

/-- `outcome_to_wire`. -/
def outcomeToWire (outcome : ExecutionOutcome F) : PyDict F :=
  [(lit "status", .str (lit outcome.status.value)),
    (lit "exit_code", optional PyInt.value outcome.exitCode),
    (lit "stdout_b64", .str (Base64.encode outcome.stdoutExcerpt)),
    (lit "stderr_b64", .str (Base64.encode outcome.stderrExcerpt)),
    (lit "outputs", .list (outcome.outputs.map producedToWire)),
    (lit "wall_seconds", .float outcome.wallSeconds),
    (lit "oom_kill_count", outcome.oomKillCount.value),
    (lit "kill_method", .str outcome.killMethod),
    (lit "image_digest", .str outcome.imageDigest),
    (lit "truncated_streams", .bool outcome.truncatedStreams),
    (lit "undeclared_output_count", outcome.undeclaredOutputCount.value)]

/-- The fields of an outcome payload, each of its type. -/
structure OutcomeFields (F : Type) where
  status : PyStr
  exitCode : Option PyInt
  stdoutB64 : PyStr
  stderrB64 : PyStr
  outputs : List (PyValue F)
  wallSeconds : PyNumber F
  oomKillCount : PyInt
  killMethod : PyStr
  imageDigest : PyStr
  truncatedStreams : Bool
  undeclaredOutputCount : PyInt

def outcomeFields (payload : PyDict F) : Option (OutcomeFields F) := do
  let status ← (field payload "status").str?
  let exitCode ← optional? PyValue.int? (field payload "exit_code")
  let stdoutB64 ← (field payload "stdout_b64").str?
  let stderrB64 ← (field payload "stderr_b64").str?
  let outputs ← ((field? payload "outputs").getD (.list [])).list?
  let wallSeconds ← (field payload "wall_seconds").number?
  let oomKillCount ← (field payload "oom_kill_count").int?
  let killMethod ← (field payload "kill_method").str?
  let imageDigest ← (field payload "image_digest").str?
  let truncatedStreams ← ((field? payload "truncated_streams").getD (.bool false)).bool?
  let undeclaredOutputCount ← ((field? payload "undeclared_output_count").getD (.int 0)).int?
  return ⟨status, exitCode, stdoutB64, stderrB64, outputs, wallSeconds, oomKillCount, killMethod, imageDigest,
    truncatedStreams, undeclaredOutputCount⟩

/-- The fields of an output entry; its blob id is a text, if it is any. -/
def producedFields (entry : PyDict F) : Option (ProducedOutput × Option PyStr) := do
  let declaredPath ← (field entry "declared_path").str?
  let contentSha256 ← (field entry "content_sha256").str?
  let sizeBytes ← (field entry "size_bytes").int?
  let sniffedMedia ← (field entry "sniffed_media").str?
  let quarantinePath ← (field entry "quarantine_path").str?
  let blobId ← optional? PyValue.str? (field entry "blob_id")
  return (⟨declaredPath, contentSha256, sizeBytes, sniffedMedia, quarantinePath, none⟩, blobId)

def parseProduced : PyValue F → Except Raised ProducedOutput
  | .dict entry => match producedFields entry with
    | none => refuse .protocolTransport "outcome output entry is malformed"
    | some (output, none) => .ok output
    | some (output, some blobId) => match uuidOf p blobId with
      | none => refuse .protocolTransport "outcome output entry is not decodable"
      | some blobId => .ok { output with blobId := some blobId }
  | _ => refuse .protocolTransport "outcome output entry is not an object"

/-- `outcome_from_wire`. -/
def outcomeFromWire (payload : PyDict F) : Except Raised (ExecutionOutcome F) :=
  match outcomeFields payload with
  | none => refuse .protocolTransport "outcome payload is malformed"
  | some fields =>
    match Base64.decode fields.stdoutB64, Base64.decode fields.stderrB64 with
    | some stdoutExcerpt, some stderrExcerpt => do
      let outputs ← fields.outputs.mapM (parseProduced p)
      match ExecutionStatus.ofValue fields.status with
      | none => throw (.other "ValueError")
      | some status =>
        match fields.wallSeconds.value.float? p.floats with
        | none => throw (.other "OverflowError")
        | some wallSeconds =>
          return { fields with status, stdoutExcerpt, stderrExcerpt, outputs, wallSeconds }
    | _, _ => refuse .protocolTransport "outcome payload is not decodable"

end Platform

end MilpbookLM.Execution
