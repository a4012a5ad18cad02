/-
The outputs of a sandboxed run: the tree it left is checked against what was declared, and
each declared file is hashed and copied into a quarantine directory of the run's own. The
file system is a list of entries by their paths; what lies behind a symlink is a parameter,
and so are the digest, the sniffer and `repr`.
-/
import MilpbookLM.Documents.Sniffing
import MilpbookLM.Execution.Broker
import MilpbookLM.Lib.Blocks
import MilpbookLM.Lib.PosixPath

namespace MilpbookLM.Execution

open Blocks PosixPath

/-! ## File names -/

/-- `os.fsencode(s)`, of UTF-8 with surrogateescape; none for a UnicodeEncodeError. -/
def fsencode (s : PyStr) : Option Bytes :=
  (s.mapM fun c =>
    if 0xDC80 ≤ c ∧ c < 0xDD00 then some [UInt8.ofNat (c - 0xDC00)]
    else if isSurrogate c then none
    else some (utf8Char c)).map List.flatten

/-- `os.fsdecode(name)` of so many bytes at most. -/
def fsdecodeUpTo : Nat → Bytes → PyStr
  | 0, _ => []
  | n + 1, name =>
    match utf8Front name with
    | .value c rest => c.toNat :: fsdecodeUpTo n rest
    -- a byte that no code point starts with, or whose code point is cut off
    | _ => match name with
      | [] => []
      | b :: rest => (0xDC00 + b.toNat) :: fsdecodeUpTo n rest

/-- `os.fsdecode(name)`. -/
def fsdecode (name : Bytes) : PyStr := fsdecodeUpTo name.length name

/-! ## The outputs directory -/

inductive EntryKind
  | file (content : Bytes)
  | directory
  | symlink
  deriving DecidableEq

/-- What `os.open` gives: a regular file, or something else. -/
inductive Opened
  | regular (content : Bytes)
  | other
  deriving DecidableEq

/-- A tree: its entries by the names on their paths. -/
structure OutputTree where
  entries : List (List Bytes × EntryKind)
  /-- What opening gives behind a symlink, along the names that are left, or the OSError it raises. -/
  elsewhere : List Bytes → List Bytes → Except String Opened
  keyed : (entries.map (·.1)).Nodup
  named : ∀ entry ∈ entries, entry.1 ≠ []
  closed : ∀ entry ∈ entries, ∀ parent, parent ≠ [] → parent <+: entry.1 → parent ≠ entry.1 →
    (parent, EntryKind.directory) ∈ entries

def OutputTree.kind? (tree : OutputTree) (names : List Bytes) : Option EntryKind :=
  (tree.entries.find? (·.1 = names)).map (·.2)

/-- The longest name of a file, in bytes. -/
def nameMax : Nat := 255

/-- `os.open(outputs_dir / path, O_RDONLY | O_NOFOLLOW)`, behind the names that were walked, or its OSError. -/
def OutputTree.openFrom (tree : OutputTree) : List Bytes → List Bytes → Except String Opened
  | _, [] => .ok .other
  | walked, name :: names =>
    match tree.kind? (walked ++ [name]) with
    | none => .error (if nameMax < name.length then "OSError" else "FileNotFoundError")
    | some .directory => if names = [] then .ok .other else openFrom tree (walked ++ [name]) names
    | some .symlink => if names = [] then .error "OSError" else tree.elsewhere (walked ++ [name]) names
    | some (.file content) => if names = [] then .ok (.regular content) else .error "NotADirectoryError"

/-! ## The collector -/

structure QuarantineFile where
  name : PyStr
  inode : Nat
  content : Bytes
  deriving DecidableEq

structure QuarantineDir where
  name : PyStr
  inode : Nat
  files : List QuarantineFile
  deriving DecidableEq

/-- `_QuarantineRecord`, with the directory and the name of its path. -/
structure QuarantineRecord where
  dir : PyStr
  name : PyStr
  inode : Nat
  declaredPath : PyStr
  contentSha256 : PyStr
  sizeBytes : Nat
  deriving DecidableEq

/-- The directories below the quarantine root, and the tables of the collector. -/
structure Collector where
  dirs : List QuarantineDir := []
  records : List QuarantineRecord := []
  directories : List (PyStr × Nat) := []
  nextInode : Nat := 0

/-- The limits that are read. -/
structure OutputLimits where
  maxOutputFileBytes : Int
  maxTotalOutputBytes : Int

/-- What the collector takes from its libraries. -/
structure OutputPlatform where
  /-- `str(quarantine_root)`. -/
  root : PyStr
  sniffer : TextSniffer
  /-- `hashlib.sha256(content).hexdigest()`. -/
  sha256 : Bytes → PyStr
  /-- `repr(s)`. -/
  repr : PyStr → PyStr

def PyInt.toInt : PyInt → Int
  | .bool b => if b then 1 else 0
  | .int n => n

/-- `validate_declared_path`. -/
def validateDeclaredPath (platform : OutputPlatform) (relative : PyStr) : Except Raised Path :=
  let path := parse relative
  if path.isAbsolute ∨ path.parts = [] ∨ 0x5C ∈ relative then
    .error (.refused .invalidSpec (lit "declared output path is not safe-relative: " ++ platform.repr relative))
  else if ∃ part ∈ path.parts, part = lit ".." ∨ part = [] then
    .error (.refused .invalidSpec (lit "declared output path has unsafe components: " ++ platform.repr relative))
  else .ok path

/-- The path of an entry of the tree, as a pure path. -/
def entryPath (names : List Bytes) : Path := ⟨[], names.map fsdecode⟩

/-- A path as text. -/
def asPosix (p : Path) : PyStr := p.root ++ (p.names.intersperse [slash]).flatten

/-- The check of one entry that `rglob` yields. -/
def checkEntry (declaredPaths : List Path) (entry : List Bytes × EntryKind) : Except Raised Unit :=
  let relative := entryPath entry.1
  let allowed := declaredPaths ++ declaredPaths.flatMap Path.properParents
  if relative ∉ allowed then
    .error (.refused .outputPolicyViolation (lit "undeclared output is forbidden: " ++ asPosix relative))
  else if relative ∉ declaredPaths ∧ entry.2 ≠ .directory then
    refuse .outputPolicyViolation "declared output parent is not a directory"
  else .ok ()

/-- `_validate_output_tree`. -/
def validateOutputTree (platform : OutputPlatform) (tree : OutputTree) (declared : List DeclaredOutput) :
    Except Raised Unit := do
  let declaredPaths ← declared.mapM fun entry => validateDeclaredPath platform entry.relativePath
  if ¬ declaredPaths.Nodup then refuse .invalidSpec "declared output paths must be unique"
  tree.entries.forM (checkEntry declaredPaths)

/-- What `_validate_and_hash` gathers of a file. -/
structure Hashed where
  hashed : Bytes := []
  size : Nat := 0
  sample : Bytes := []

def Hashed.add (h : Hashed) (chunk : Bytes) : Hashed where
  hashed := h.hashed ++ chunk
  size := h.size + chunk.length
  sample := if h.sample.length < sniffSampleBytes then h.sample ++ chunk.take (sniffSampleBytes - h.sample.length)
    else h.sample

/-- _CHUNK. -/
def outputChunk : Nat := 1024 * 1024

/-- `os.open(source, O_RDONLY | O_NOFOLLOW)`, or the OSError; a path with a NUL, or that has no encoding, is a
ValueError. -/
def openSource (tree : OutputTree) (path : Path) : Except Raised (Except String Opened) :=
  match path.names.mapM fsencode with
  | none => .error (.other "UnicodeEncodeError")
  | some names => if ∃ name ∈ names, 0 ∈ name then .error (.other "ValueError") else .ok (tree.openFrom [] names)

/-- `_validate_and_hash`: the digest, the size and the media type, and the content itself. -/
def validateAndHash (platform : OutputPlatform) (tree : OutputTree) (path : Path) :
    Except Raised (PyStr × Nat × PyStr × Bytes) :=
  match openSource tree path with
  | .error e => .error e
  | .ok (.error e) => .error (.refused .outputPolicyViolation (lit "declared output is missing or unsafe: " ++ lit e))
  | .ok (.ok .other) => refuse .outputPolicyViolation "declared output is not a regular file"
  | .ok (.ok (.regular content)) =>
    let h := (blocks outputChunk content).foldl Hashed.add {}
    match platform.sniffer.sniffMediaType h.sample with
    | none => refuse .outputPolicyViolation "output content type is not identifiable from its bytes"
    | some media => .ok (platform.sha256 h.hashed, h.size, lit media.value, content)

/-- `f"{index:03d}-{name}"`. -/
def targetName (index : Nat) (name : PyStr) : PyStr :=
  .ofText ((toString index).toList.leftpad 3 '0') ++ lit "-" ++ name

namespace Collector

variable (s : Collector)

/-- `_copy_quarantine` into a directory; `target.open("xb")` raises where the name is taken or too long. -/
def copyQuarantine (dir name : PyStr) (content : Bytes) : Except Raised Collector :=
  match fsencode name with
  | none => .error (.other "UnicodeEncodeError")
  | some bytes =>
    if nameMax < bytes.length then .error (.other "OSError")
    else if s.dirs.any fun d => d.name = dir && d.files.any (·.name = name) then .error (.other "FileExistsError")
    else .ok {
      s with
      dirs := s.dirs.map fun d =>
        if d.name = dir then { d with files := d.files ++ [⟨name, s.nextInode, (blocks outputChunk content).flatten⟩] }
        else d
      nextInode := s.nextInode + 1 }

/-- `self._records[target] = record`. -/
def putRecord (record : QuarantineRecord) : Collector :=
  { s with records := s.records.filter (fun r => ¬ (r.dir = record.dir ∧ r.name = record.name)) ++ [record] }

/-- The loop of `collect` over the outputs that are left. -/
def collectFrom (platform : OutputPlatform) (tree : OutputTree) (limits : OutputLimits) (dir : PyStr)
    (collected : List ProducedOutput) (total : Nat) :
    List DeclaredOutput → Collector → Except Raised (List ProducedOutput) × Collector
  | [], s => (.ok collected, s)
  | entry :: declared, s =>
    match validateDeclaredPath platform entry.relativePath with
    | .error e => (.error e, s)
    | .ok path =>
      match validateAndHash platform tree path with
      | .error e => (.error e, s)
      | .ok (digest, size, media, content) =>
        if min entry.maxBytes.toInt limits.maxOutputFileBytes < size then
          (.error (.refused .outputPolicyViolation
            (lit "output " ++ entry.relativePath ++ lit " exceeds its declared size cap")), s)
        else if limits.maxTotalOutputBytes < (total + size : Nat) then
          (refuse .outputPolicyViolation "declared outputs exceed the total output quota", s)
        else
          let name := targetName collected.length path.name
          match s.copyQuarantine dir name content with
          | .error e => (.error e, s)
          | .ok s' =>
            let output : ProducedOutput := {
              declaredPath := entry.relativePath
              contentSha256 := digest
              sizeBytes := .int size
              sniffedMedia := media
              quarantinePath := platform.root ++ lit "/" ++ dir ++ lit "/" ++ name }
            let record : QuarantineRecord := {
              dir
              name
              inode := s.nextInode
              declaredPath := entry.relativePath
              contentSha256 := digest
              sizeBytes := size }
            collectFrom platform tree limits dir (collected ++ [output]) (total + size) declared
              (s'.putRecord record)

/-- `_remove_empty_directory`. -/
def removeEmptyDirectory (dir : PyStr) : Except Raised Unit × Collector :=
  match s.directories.find? (·.1 = dir) with
  | none => (refuse .outputPolicyViolation "quarantine directory identity is not broker-owned", s)
  | some expected =>
    match s.dirs.find? (·.name = dir) with
    | none => (.error (.other "FileNotFoundError"), s)
    | some d =>
      if d.inode ≠ expected.2 then (refuse .outputPolicyViolation "quarantine directory identity changed", s)
      else if d.files ≠ [] then (.error (.other "OSError"), s)
      else (.ok (), {
        s with
        dirs := s.dirs.filter (·.name ≠ dir)
        directories := s.directories.filter (·.1 ≠ dir) })

/-- The loop of `_discard_directory`. -/
def unlinkRecorded (dir : PyStr) : Collector :=
  { s with
    dirs := s.dirs.map fun d =>
      if d.name = dir then
        { d with files := d.files.filter fun file => !s.records.any fun r => r.dir = dir && r.name = file.name }
      else d
    records := s.records.filter (·.dir ≠ dir) }

/-- `_discard_directory`. -/
def discardDirectory (dir : PyStr) : Except Raised Unit × Collector := (s.unlinkRecorded dir).removeEmptyDirectory dir

/-- A character of an execution id. -/
def isIdChar (c : Nat) : Bool :=
  0x41 ≤ c && c ≤ 0x5A || 0x61 ≤ c && c ≤ 0x7A || 0x30 ≤ c && c ≤ 0x39 || c = 0x5F || c = 0x2D

/-- `_EXECUTION_ID.fullmatch(execution_id)`. -/
def isExecutionId (id : PyStr) : Bool := 1 ≤ id.length && id.length ≤ 64 && id.all isIdChar

/-- The name of a run's directory. -/
def quarantineDir (executionId : PyStr) : PyStr := lit "exec-" ++ executionId

/-- `quarantine_dir.mkdir`, and its entry in the table. -/
def makeDirectory (dir : PyStr) : Collector :=
  { s with
    dirs := s.dirs ++ [⟨dir, s.nextInode, []⟩]
    directories := s.directories.filter (·.1 ≠ dir) ++ [(dir, s.nextInode)]
    nextInode := s.nextInode + 1 }

/-- `collect`; the undeclared count is always zero. -/
def collect (platform : OutputPlatform) (tree : OutputTree) (declared : List DeclaredOutput) (limits : OutputLimits)
    (executionId : PyStr) : Except Raised (List ProducedOutput) × Collector :=
  if !isExecutionId executionId then
    (refuse .outputPolicyViolation "execution quarantine identity is invalid", s)
  else match validateOutputTree platform tree declared with
    | .error e => (.error e, s)
    | .ok () =>
      if declared = [] then (.ok [], s)
      else
        let dir := quarantineDir executionId
        if s.dirs.any (·.name = dir) then (.error (.other "FileExistsError"), s)
        else match collectFrom platform tree limits dir [] 0 declared (s.makeDirectory dir) with
          | (.error (.refused code detail), s') =>
            match s'.discardDirectory dir with
            | (.ok (), s'') => (.error (.refused code detail), s'')
            | (.error e, s'') => (.error e, s'')
          | other => other

/-! ## discard -/

/-- `_open_record`, and closing it again. -/
def opensRecord (r : QuarantineRecord) : Bool :=
  s.dirs.any fun d => d.name = r.dir && d.files.any fun file => file.name = r.name && file.inode = r.inode

/-- `_record_for`: the record under the path, if it is of the output and its file is there. -/
def recordFor (platform : OutputPlatform) (output : ProducedOutput) : Option QuarantineRecord :=
  s.records.find? fun r =>
    parse (platform.root ++ lit "/" ++ r.dir ++ lit "/" ++ r.name) = parse output.quarantinePath &&
      r.declaredPath = output.declaredPath && r.contentSha256 = output.contentSha256 &&
      output.sizeBytes.toInt = r.sizeBytes && s.opensRecord r

/-- `record.path.unlink()` and the pop of the record. -/
def unlinkRecord (r : QuarantineRecord) : Collector :=
  { s with
    dirs := s.dirs.map fun d =>
      if d.name = r.dir then { d with files := d.files.filter (·.name ≠ r.name) } else d
    records := s.records.filter fun q => ¬ (q.dir = r.dir ∧ q.name = r.name) }

/-- The unlinks of `discard`; the file of a record that came twice is gone. -/
def unlinkAll : List QuarantineRecord → Collector → Except Raised Unit × Collector
  | [], s => (.ok (), s)
  | r :: rs, s =>
    if s.opensRecord r then unlinkAll rs (s.unlinkRecord r) else (.error (.other "FileNotFoundError"), s)

def removeAll : List PyStr → Collector → Except Raised Unit × Collector
  | [], s => (.ok (), s)
  | dir :: dirs, s =>
    match s.removeEmptyDirectory dir with
    | (.ok (), s') => removeAll dirs s'
    | (.error e, s') => (.error e, s')

/-- `discard`; the parents are a set, walked in an order of its own. -/
def discard (platform : OutputPlatform) (outputs : List ProducedOutput) (order : List PyStr → List PyStr) :
    Except Raised Unit × Collector :=
  match outputs.mapM (s.recordFor platform) with
  | none => (refuse .outputPolicyViolation "quarantine identity is not broker-owned", s)
  | some records =>
    match unlinkAll records s with
    | (.ok (), s') => removeAll (order (records.map (·.dir)).dedup) s'
    | (.error e, s') => (.error e, s')

end Collector

end MilpbookLM.Execution
