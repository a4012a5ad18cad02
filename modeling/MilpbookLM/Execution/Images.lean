/-
The store of runtime images: a staged tree is copied below a directory that the digest of its
manifest names (`install`), and an image is checked against its manifest before it is mounted
(`verify`). A tree of files is a list of entries by the names on their paths. What `json.loads`
reads, the digest and what lies behind a symlink are parameters.
-/
import MilpbookLM.Execution.Outputs

namespace MilpbookLM.Execution

open PosixPath

/-! ## Trees -/

/-- A name in a directory. -/
def isName (name : PyStr) : Bool :=
  decide (name ≠ []) && decide (name ≠ [dot]) && decide (name ≠ [dot, dot]) && decide (slash ∉ name) &&
    decide (0 ∉ name)

inductive TreeNode
  /-- A regular file with its permission bits. -/
  | file (content : Bytes) (mode : Nat)
  | directory
  | symlink
  | fifo
  | socket
  | device
  deriving DecidableEq

/-- The paths above a path. -/
def ancestors (path : List PyStr) : List (List PyStr) := path.inits.filter fun p => p ≠ [] ∧ p ≠ path

/-- A tree: its entries by the names on their paths. -/
structure FileTree where
  entries : List (List PyStr × TreeNode)
  /-- What opening gives behind a symlink, along the names that are left; none for an OSError. -/
  behind : List PyStr → List PyStr → Option TreeNode := fun _ _ => none
  keyed : (entries.map (·.1)).Nodup
  named : ∀ entry ∈ entries, entry.1 ≠ [] ∧ entry.1.all isName = true
  closed : ∀ entry ∈ entries, ∀ p ∈ ancestors entry.1, (p, TreeNode.directory) ∈ entries

namespace FileTree

variable (tree : FileTree)

/-- An empty directory. -/
def empty : FileTree where
  entries := []
  keyed := List.nodup_nil
  named _ h := by cases h
  closed _ h := by cases h

def node? (path : List PyStr) : Option TreeNode := (tree.entries.find? (·.1 = path)).map (·.2)

/-- `os.open(root / path, O_RDONLY | O_NOFOLLOW)`, behind the names that were walked; none for an OSError. -/
def openFrom : List PyStr → List PyStr → Option TreeNode
  | _, [] => some .directory
  | walked, name :: names =>
    match tree.node? (walked ++ [name]) with
    | none => none
    | some .directory => if names = [] then some .directory else openFrom (walked ++ [name]) names
    | some .symlink => if names = [] then none else tree.behind (walked ++ [name]) names
    | some node => if names = [] ∧ node ≠ .socket then some node else none

/-- A new entry under a directory that is there. -/
def CanCreate (path : List PyStr) : Prop :=
  (path ≠ [] ∧ path.all isName = true) ∧ path ∉ tree.entries.map (·.1) ∧
    ∀ p ∈ ancestors path, (p, TreeNode.directory) ∈ tree.entries

instance (path : List PyStr) : Decidable (tree.CanCreate path) := by
  unfold CanCreate
  infer_instance

end FileTree

/-! ## Errors -/

/-- What a call ends with in place of a result. -/
inductive ImageTrouble
  /-- `ImageVerificationError`. -/
  | verification (detail : PyStr)
  | raised (e : Raised)
  /-- It waits for the writer of a FIFO. -/
  | blocked
  deriving DecidableEq

/-- `ImageVerificationError` or `ExecutionRefusedError`. -/
def ImageTrouble.typed : ImageTrouble → Bool
  | verification _ => true
  | raised e => e.typed
  | blocked => false

/-- `raise ImageVerificationError(detail)`. -/
def imageInvalid {α : Type} (detail : String) : Except ImageTrouble α := .error (.verification (lit detail))

namespace FileTree

variable (tree : FileTree)

/-- `path.mkdir()`, or opening it with `"xb"` and writing it. -/
def create (path : List PyStr) (node : TreeNode) : Except ImageTrouble FileTree :=
  if h : tree.CanCreate path then
    .ok {
      entries := tree.entries ++ [(path, node)]
      behind := tree.behind
      keyed := by
        rw [List.map_append, List.map_singleton, List.nodup_append]
        refine ⟨tree.keyed, by simp, fun a ha b hb => ?_⟩
        rw [List.mem_singleton] at hb
        rintro rfl
        exact h.2.1 (by rwa [hb] at ha)
      named := by
        simp only [List.mem_append, List.mem_singleton]
        rintro entry (hentry | rfl)
        · exact tree.named entry hentry
        · exact h.1
      closed := by
        simp only [List.mem_append, List.mem_singleton]
        rintro entry (hentry | rfl) p hp
        · exact .inl (tree.closed entry hentry p hp)
        · exact .inl (h.2.2 p hp) }
  else .error (.raised (.other "OSError"))

/-- `path.mkdir(parents=True, exist_ok=True)` of the names that are left, behind those that were walked. -/
def mkdirs (tree : FileTree) : List PyStr → List PyStr → Except ImageTrouble FileTree
  | _, [] => .ok tree
  | walked, name :: names =>
    if tree.node? (walked ++ [name]) = some .directory then mkdirs tree (walked ++ [name]) names
    else match tree.create (walked ++ [name]) .directory with
      | .error e => .error e
      | .ok tree => mkdirs tree (walked ++ [name]) names

end FileTree

/-! ## Manifests -/

/-- `_ImageFileRecord`. -/
structure ImageFileRecord (F : Type) where
  path : PyStr
  sha256 : PyStr
  size : Int
  mode : PyNumber F

/-- `_ImageManifest`; the schema is 1. -/
structure ImageManifest (F : Type) where
  name : PyStr
  sbomSha256 : PyStr
  directories : List PyStr
  rootfs : List (ImageFileRecord F)

/-- What `json.loads` does with bytes. -/
inductive Loaded (F : Type)
  | value (value : PyValue F)
  /-- `JSONDecodeError`. -/
  | decodeError
  /-- Another exception: the bytes are no text, or nested too deeply, or a number has too many digits. -/
  | other (name : String)

/-- What the image store takes from its libraries. -/
structure ImageLibrary (F : Type) where
  floats : Floats F
  loads : Bytes → Loaded F
  /-- `hashlib.sha256(content).hexdigest()`. -/
  sha256 : Bytes → PyStr

section Manifests

variable {F : Type}

def ImageFileRecord.value (record : ImageFileRecord F) : PyValue F :=
  .dict [(lit "path", .str record.path), (lit "sha256", .str record.sha256), (lit "size", .int record.size),
    (lit "mode", record.mode.value)]

def ImageManifest.value (manifest : ImageManifest F) : PyValue F :=
  .dict [(lit "schema", .int 1), (lit "name", .str manifest.name), (lit "sbom_sha256", .str manifest.sbomSha256),
    (lit "directories", .list (manifest.directories.map .str)),
    (lit "rootfs", .list (manifest.rootfs.map ImageFileRecord.value))]

variable (lib : ImageLibrary F)

/-- `_canonical`. -/
def canonicalBytes (payload : PyValue F) : Except ImageTrouble Bytes :=
  match (dumps lib.floats payload).encode with
  | some bytes => .ok bytes
  | none => .error (.raised (.other "UnicodeEncodeError"))

/-- `re.fullmatch(r"[0-9a-f]{64}", text)`. -/
def isHexDigest (text : PyStr) : Bool :=
  decide (text.length = 64) && text.all fun c => 0x30 ≤ c && c ≤ 0x39 || 0x61 ≤ c && c ≤ 0x66

/-- `_safe_relative`. -/
def safeRelative (value : PyStr) : Bool :=
  let path := parse value
  decide (path.parts ≠ []) && !decide path.isAbsolute && decide (lit ".." ∉ path.parts)

/-- `set(payload) == set(names)`. -/
def hasKeys (payload : PyDict F) (names : List String) : Bool :=
  payload.all (fun item => names.any fun name => item.1 == lit name) &&
    names.all fun name => payload.any (·.1 == lit name)

/-- A mode that is no bool and `in (0o444, 0o555)`. -/
def imageMode : PyValue F → Option (PyNumber F)
  | .int n => if n = 0o444 ∨ n = 0o555 then some (.int (.int n)) else none
  | .float x => if lib.floats.eqInt x 0o444 || lib.floats.eqInt x 0o555 then some (.float x) else none
  | _ => none

/-- `_parse_file_record`. -/
def parseFileRecord (payload : PyValue F) : Except ImageTrouble (ImageFileRecord F) :=
  match payload with
  | .dict items =>
    if !hasKeys items ["path", "sha256", "size", "mode"] then imageInvalid "rootfs record shape is invalid"
    else match field items "path" with
      | .str path =>
        if !safeRelative path then imageInvalid "rootfs record path is invalid"
        else match field items "sha256" with
          | .str sha256 =>
            if !isHexDigest sha256 then imageInvalid "rootfs record digest is invalid"
            else match field items "size" with
              | .int size =>
                if size < 0 then imageInvalid "rootfs record size is invalid"
                else match imageMode lib (field items "mode") with
                  | some mode => .ok ⟨path, sha256, size, mode⟩
                  | none => imageInvalid "rootfs record mode is invalid"
              | _ => imageInvalid "rootfs record size is invalid"
          | _ => imageInvalid "rootfs record digest is invalid"
      | _ => imageInvalid "rootfs record path is invalid"
  | _ => imageInvalid "rootfs record shape is invalid"

/-- `_parse_manifest` of an object with its keys. -/
def parseFields (payload : PyDict F) : Except ImageTrouble (ImageManifest F) :=
  match (field payload "schema").eqInt lib.floats 1, field payload "name" with
  | true, .str (c :: name) =>
    match field payload "sbom_sha256" with
    | .str sbomSha256 =>
      if !isHexDigest sbomSha256 then imageInvalid "manifest sbom digest is invalid"
      else match (field payload "directories").list?.bind fun xs => xs.mapM PyValue.str? with
        | some directories =>
          if !directories.all safeRelative then imageInvalid "manifest directories are invalid"
          else match decide directories.Nodup, field payload "rootfs" with
            | true, .list rootfs =>
              match rootfs.mapM (parseFileRecord lib) with
              | .error e => .error e
              | .ok records =>
                if ¬(records.map (·.path)).Nodup then imageInvalid "manifest contains duplicate file paths"
                else .ok ⟨c :: name, sbomSha256, directories, records⟩
            | _, _ => imageInvalid "manifest inventory is invalid"
        | none => imageInvalid "manifest directories are invalid"
    | _ => imageInvalid "manifest sbom digest is invalid"
  | _, _ => imageInvalid "manifest identity is invalid"

/-- `_parse_manifest`. -/
def parseManifest (raw : Bytes) : Except ImageTrouble (ImageManifest F) :=
  match lib.loads raw with
  | .decodeError => imageInvalid "manifest is not valid JSON"
  | .other name => .error (.raised (.other name))
  | .value (.dict payload) =>
    if !hasKeys payload ["schema", "name", "sbom_sha256", "directories", "rootfs"] then
      imageInvalid "manifest shape is invalid"
    else parseFields lib payload
  | .value _ => imageInvalid "manifest shape is invalid"

/-! ## install -/

/-- The path of an entry as text. -/
def posix (path : List PyStr) : PyStr := asPosix ⟨[], path⟩

/-- `_reject_unsafe`. -/
def rejectUnsafe (entry : List PyStr × TreeNode) : Except ImageTrouble Unit :=
  match entry.2 with
  | .file .. | .directory => .ok ()
  | .symlink => .error (.verification (lit "symlink in image tree is rejected: " ++ (entry.1.getLast?.getD [])))
  | _ => .error (.verification (lit "special file in image tree is rejected: " ++ (entry.1.getLast?.getD [])))

/-- The path of a file, its content and its mode. -/
def fileOf : List PyStr × TreeNode → Option (PyStr × Bytes × Nat)
  | (path, .file content mode) => some (posix path, content, mode)
  | _ => none

/-- The path of a directory. -/
def directoryOf : List PyStr × TreeNode → Option PyStr
  | (path, .directory) => some (posix path)
  | _ => none

/-- `_walk_tree`. -/
def walkTree (tree : FileTree) : Except ImageTrouble (List (PyStr × Bytes × Nat) × List PyStr) :=
  let sorted := tree.entries.insertionSort fun a b => a.1 ≤ b.1
  match sorted.forM rejectUnsafe with
  | .error e => .error e
  | .ok () => .ok (sorted.filterMap fileOf, sorted.filterMap directoryOf)

/-- The mode of a copy. -/
def copyMode (mode : Nat) : Nat := if mode &&& 0o111 ≠ 0 then 0o555 else 0o444

/-- What is recorded of a file. -/
def recordOf (file : PyStr × Bytes × Nat) : ImageFileRecord F :=
  ⟨file.1, lib.sha256 file.2.1, file.2.1.length, .int (.int (copyMode file.2.2))⟩

/-- The loop of `install` over the files that are left. -/
def copyFiles : List (PyStr × Bytes × Nat) → FileTree → Except ImageTrouble FileTree
  | [], copied => .ok copied
  | (relative, content, mode) :: files, copied =>
    let target := (parse relative).names
    match copied.mkdirs [] target.dropLast with
    | .error e => .error e
    | .ok copied =>
      match copied.create target (.file content (copyMode mode)) with
      | .error e => .error e
      | .ok copied => copyFiles files copied

/-- What is in the staging directory, and its manifest. -/
structure Staged (F : Type) where
  manifest : ImageManifest F
  manifestBytes : Bytes
  sbomBytes : Bytes
  rootfs : FileTree

/-- `install`, before the staging directory is renamed. -/
def stageImage (tree : FileTree) (name : PyStr) (sbom : PyDict F) : Except ImageTrouble (Staged F) := do
  let (files, directories) ← walkTree tree
  let rootfs ← copyFiles files .empty
  let sbomBytes ← canonicalBytes lib (.dict sbom)
  let manifest : ImageManifest F := {
    name
    sbomSha256 := lib.sha256 sbomBytes
    directories
    rootfs := (files.map (recordOf lib)).insertionSort fun a b => a.path ≤ b.path }
  let manifestBytes ← canonicalBytes lib manifest.value
  return ⟨manifest, manifestBytes, sbomBytes, rootfs⟩

/-- What is under the name of a file. -/
inductive StoredFile
  | content (raw : Bytes)
  /-- Reading it raises an OSError. -/
  | unreadable
  | fifo

/-- A directory of the store. -/
structure ImageDir where
  manifest : StoredFile
  sbom : StoredFile
  /-- None where `rootfs` is no directory. -/
  rootfs : Option FileTree

/-- The directories of the store by their names. -/
structure ImageStore where
  dirs : List (PyStr × ImageDir) := []

def ImageStore.dir? (s : ImageStore) (name : PyStr) : Option ImageDir := (s.dirs.find? (·.1 = name)).map (·.2)

/-- `install` of a tree that is a directory: the digest, and the store. -/
def install (s : ImageStore) (tree : FileTree) (name : PyStr) (sbom : PyDict F) :
    Except ImageTrouble (PyStr × ImageStore) :=
  match stageImage lib tree name sbom with
  | .error e => .error e
  | .ok staged =>
    let hex := lib.sha256 staged.manifestBytes
    .ok (lit "sha256:" ++ hex,
      if (s.dir? hex).isSome then s
      else ⟨s.dirs ++ [(hex, ⟨.content staged.manifestBytes, .content staged.sbomBytes, some staged.rootfs⟩)]⟩)

/-! ## verify -/

/-- `_digest_hex`. -/
def digestHex (digest : PyStr) : Except ImageTrouble PyStr :=
  if digest.take 7 = lit "sha256:" ∧ isHexDigest (digest.drop 7) = true then .ok (digest.drop 7)
  else .error (.raised (.refused .unknownImage (lit "image digest is not sha256-hex")))

/-- `os.open` of a path takes the names. -/
def opens (names : List PyStr) : Bool := names.all fun name => (fsencode name).isSome && decide (0 ∉ name)

/-- A file is as it was recorded. -/
def matchesRecord (record : ImageFileRecord F) (content : Bytes) (mode : Nat) : Bool :=
  decide (lib.sha256 content = record.sha256) && decide ((content.length : Int) = record.size) &&
    record.mode.value.eqInt lib.floats mode

/-- The check of one record, with `_hash_file_no_follow`. -/
def checkRecord (rootfs : FileTree) (record : ImageFileRecord F) : Except ImageTrouble Unit :=
  let path := parse record.path
  if !opens path.names then .error (.raised (.other "ValueError"))
  else match rootfs.openFrom [] path.names with
    | none => .error (.verification (lit "rootfs file unopenable: " ++ path.name))
    | some .fifo => .error .blocked
    | some (.file content mode) =>
      if matchesRecord lib record content mode then .ok ()
      else .error (.verification (lit "rootfs file " ++ record.path ++ lit " does not match its manifest"))
    | some _ => .error (.verification (lit "rootfs entry is not a regular file: " ++ path.name))

/-- Two sets of texts are the same. -/
def sameTexts (xs ys : List PyStr) : Bool := xs.all (ys.contains ·) && ys.all (xs.contains ·)

/-- The loops of `verify`. -/
def checkTree (manifest : ImageManifest F) (rootfs : FileTree) : Except ImageTrouble Unit := do
  manifest.rootfs.forM (checkRecord lib rootfs)
  rootfs.entries.forM rejectUnsafe
  if sameTexts (rootfs.entries.filterMap fun entry => (fileOf entry).map (·.1)) (manifest.rootfs.map (·.path)) &&
      sameTexts (rootfs.entries.filterMap directoryOf) manifest.directories then
    .ok ()
  else imageInvalid "rootfs inventory does not match its manifest"

/-- `RuntimeImage`. -/
structure RuntimeImage (F : Type) where
  digest : PyStr
  rootfs : FileTree
  manifest : ImageManifest F

/-- `verify` of the directory that the digest names. -/
def verifyDir (digest : PyStr) (dir : Option ImageDir) : Except ImageTrouble (RuntimeImage F) :=
  match dir.map ImageDir.manifest with
  | some .fifo => .error .blocked
  | some (.content raw) =>
    match parseManifest lib raw with
    | .error e => .error e
    | .ok manifest =>
      match canonicalBytes lib manifest.value with
      | .error e => .error e
      | .ok bytes =>
        if lit "sha256:" ++ lib.sha256 bytes ≠ digest then imageInvalid "manifest digest mismatch"
        else match dir.bind ImageDir.rootfs with
          | none => imageInvalid "rootfs directory missing"
          | some rootfs =>
            match checkTree lib manifest rootfs with
            | .error e => .error e
            | .ok () => .ok ⟨digest, rootfs, manifest⟩
  | _ => .error (.verification (lit "image " ++ digest ++ lit " manifest unreadable"))

/-- `verify`. -/
def verify (s : ImageStore) (digest : PyStr) : Except ImageTrouble (RuntimeImage F) :=
  match digestHex digest with
  | .error e => .error e
  | .ok hex => verifyDir lib digest (s.dir? hex)

end Manifests

end MilpbookLM.Execution
