/-
The manifest of a staged image. It lists each file and each directory of the tree
(`mem_manifestOf`), and reading the canonical text of such a manifest gives the manifest
(`parseManifest_canonical`), where `json.loads` reads what `json.dumps` wrote.
-/
import MilpbookLM.Execution.ImageTrees
import MilpbookLM.Lib.Outcomes

namespace MilpbookLM.Execution

open PosixPath

variable {F : Type}

/-! ## Reading a written manifest -/

/-- A record as it is made of a file. -/
structure ImageFileRecord.Valid (record : ImageFileRecord F) : Prop where
  path : safeRelative record.path = true
  sha256 : isHexDigest record.sha256 = true
  size : 0 ≤ record.size
  mode : record.mode = .int (.int 0o444) ∨ record.mode = .int (.int 0o555)

/-- A manifest as it is made of a tree. -/
structure ImageManifest.Valid (manifest : ImageManifest F) : Prop where
  name : manifest.name ≠ []
  sbomSha256 : isHexDigest manifest.sbomSha256 = true
  directories : manifest.directories.all safeRelative = true
  directoriesOnce : manifest.directories.Nodup
  rootfs : ∀ record ∈ manifest.rootfs, record.Valid
  pathsOnce : (manifest.rootfs.map (·.path)).Nodup

theorem number_sorted (x : PyNumber F) : x.value.sorted = x.value := by
  rcases x with n | x
  · cases n <;> rfl
  · rfl

theorem record_sorted (record : ImageFileRecord F) : record.value.sorted =
    .dict [(lit "mode", record.mode.value), (lit "path", .str record.path), (lit "sha256", .str record.sha256),
      (lit "size", .int record.size)] := by
  have hsorted : record.value.sorted = .dict (sortItems [(lit "path", .str record.path),
      (lit "sha256", .str record.sha256), (lit "size", .int record.size), (lit "mode",
      record.mode.value.sorted)]) := rfl
  rw [hsorted, number_sorted]
  rfl

theorem sortedList_map {α : Type} (f : α → PyValue F) (xs : List α) :
    sortedList (xs.map f) = xs.map fun x => (f x).sorted := by
  induction xs with
  | nil => rfl
  | cons x xs ih => rw [List.map_cons, sortedList, ih, List.map_cons]

theorem manifest_sorted (manifest : ImageManifest F) : manifest.value.sorted =
    .dict [(lit "directories", .list (manifest.directories.map .str)), (lit "name", .str manifest.name),
      (lit "rootfs", .list (manifest.rootfs.map fun record => record.value.sorted)),
      (lit "sbom_sha256", .str manifest.sbomSha256), (lit "schema", .int 1)] := by
  have hsorted : manifest.value.sorted = .dict (sortItems [(lit "schema", .int 1), (lit "name", .str manifest.name),
      (lit "sbom_sha256", .str manifest.sbomSha256),
      (lit "directories", .list (sortedList (manifest.directories.map .str))),
      (lit "rootfs", .list (sortedList (manifest.rootfs.map ImageFileRecord.value)))]) := rfl
  rw [hsorted, sortedList_map, sortedList_map]
  rfl

section Reading

variable (lib : ImageLibrary F)

theorem parseFileRecord_valid {record : ImageFileRecord F} (h : record.Valid) :
    parseFileRecord lib record.value.sorted = .ok record := by
  obtain ⟨path, sha256, size, mode⟩ := record
  obtain ⟨hpath, hsha, hsize, hmode⟩ := h
  simp only at hpath hsha hsize hmode
  have hread : imageMode lib mode.value = some mode := by
    rcases hmode with rfl | rfl <;> rfl
  rw [record_sorted]
  have hkeys : hasKeys [(lit "mode", mode.value), (lit "path", PyValue.str path), (lit "sha256", .str sha256),
      (lit "size", .int size)] ["path", "sha256", "size", "mode"] = true := rfl
  have hfields : field [(lit "mode", mode.value), (lit "path", PyValue.str path), (lit "sha256", .str sha256),
      (lit "size", .int size)] "path" = .str path ∧
      field [(lit "mode", mode.value), (lit "path", PyValue.str path), (lit "sha256", .str sha256),
        (lit "size", .int size)] "sha256" = .str sha256 ∧
      field [(lit "mode", mode.value), (lit "path", PyValue.str path), (lit "sha256", .str sha256),
        (lit "size", .int size)] "size" = .int size ∧
      field [(lit "mode", mode.value), (lit "path", PyValue.str path), (lit "sha256", .str sha256),
        (lit "size", .int size)] "mode" = mode.value := ⟨rfl, rfl, rfl, rfl⟩
  have hneg : ¬size < 0 := by omega
  unfold parseFileRecord
  simp only [hkeys, hfields, hpath, hsha, hneg, hread, Bool.not_true, Bool.false_eq_true, if_false]

theorem parseRecords_valid : ∀ {records : List (ImageFileRecord F)}, (∀ record ∈ records, record.Valid) →
    (records.map fun record => record.value.sorted).mapM (parseFileRecord lib) = .ok records
  | [], _ => rfl
  | record :: records, h => by
    rw [List.map_cons, List.mapM_cons, parseFileRecord_valid lib (h record (by simp)),
      parseRecords_valid fun r hr => h r (by simp [hr])]
    rfl

theorem mapM_texts (ds : List PyStr) : (ds.map (PyValue.str (F := F))).mapM PyValue.str? = some ds := by
  induction ds with
  | nil => rfl
  | cons d ds ih =>
    rw [List.map_cons, List.mapM_cons, ih]
    rfl

/-- **A written manifest is read as it was.** -/
theorem parseManifest_valid {manifest : ImageManifest F} (h : manifest.Valid) {raw : Bytes}
    (hloads : lib.loads raw = .value manifest.value.sorted) : parseManifest lib raw = .ok manifest := by
  obtain ⟨name, sbomSha256, directories, rootfs⟩ := manifest
  obtain ⟨hname, hsbom, hdirs, honce, hrecords, hpaths⟩ := h
  simp only at hname hsbom hdirs honce hrecords hpaths
  obtain ⟨c, name, rfl⟩ := List.exists_cons_of_ne_nil hname
  rw [manifest_sorted] at hloads
  simp only at hloads
  unfold parseManifest
  rw [hloads]
  have hrest := parseRecords_valid lib hrecords
  revert hrest
  generalize (rootfs.map fun record => record.value.sorted) = values
  intro hrest
  have hkeys : hasKeys [(lit "directories", PyValue.list (directories.map .str)), (lit "name", .str (c :: name)),
      (lit "rootfs", .list values), (lit "sbom_sha256", .str sbomSha256), (lit "schema", (.int 1 : PyValue F))]
      ["schema", "name", "sbom_sha256", "directories", "rootfs"] = true := rfl
  simp only [hkeys, Bool.not_true, Bool.false_eq_true, if_false]
  generalize hpayload : [(lit "directories", PyValue.list (directories.map .str)), (lit "name", .str (c :: name)),
    (lit "rootfs", .list values), (lit "sbom_sha256", .str sbomSha256), (lit "schema", (.int 1 : PyValue F))] = payload
  have hfields : (field payload "schema").eqInt lib.floats 1 = true ∧ field payload "name" = .str (c :: name) ∧
      field payload "sbom_sha256" = .str sbomSha256 ∧
      (field payload "directories").list?.bind (fun xs => xs.mapM PyValue.str?) = some directories ∧
      field payload "rootfs" = .list values := by
    rw [← hpayload]
    exact ⟨rfl, rfl, rfl, mapM_texts directories, rfl⟩
  unfold parseFields
  simp only [hfields, hsbom, hdirs, honce, hrest, hpaths, Bool.not_true, Bool.false_eq_true, if_false, decide_true,
    not_true_eq_false]

end Reading

/-! ## The manifest of a tree -/

/-- Nothing but files and directories. -/
def FileTree.Plain (tree : FileTree) : Prop := ∀ entry ∈ tree.entries, rejectUnsafe entry = .ok ()

def sourceFile : List PyStr × TreeNode → Option SourceFile
  | (path, .file content mode) => some (path, content, mode)
  | _ => none

/-- The entries in the order of their paths. -/
def FileTree.sorted (tree : FileTree) : List (List PyStr × TreeNode) :=
  tree.entries.insertionSort fun a b => a.1 ≤ b.1

/-- The files in the order of their paths. -/
def FileTree.files (tree : FileTree) : List SourceFile := tree.sorted.filterMap sourceFile

theorem FileTree.sorted_perm (tree : FileTree) : tree.sorted.Perm tree.entries := List.perm_insertionSort _ _

theorem sourceFile_some {entry : List PyStr × TreeNode} {f : SourceFile} :
    sourceFile entry = some f ↔ entry = (f.1, .file f.2.1 f.2.2) := by
  obtain ⟨path, node⟩ := entry
  obtain ⟨p, c, m⟩ := f
  cases node <;> simp [sourceFile]

theorem directoryOf_some {entry : List PyStr × TreeNode} {d : PyStr} :
    directoryOf entry = some d ↔ ∃ path, entry = (path, .directory) ∧ posix path = d := by
  obtain ⟨path, node⟩ := entry
  cases node <;> simp [directoryOf]

theorem FileTree.mem_files {tree : FileTree} {f : SourceFile} :
    f ∈ tree.files ↔ (f.1, TreeNode.file f.2.1 f.2.2) ∈ tree.entries := by
  simp only [files, List.mem_filterMap, sourceFile_some, exists_eq_right, tree.sorted_perm.mem_iff]

/-- The keys of what is picked of a list, where picking keeps them. -/
theorem filterMap_keys {α β κ : Type} {pick : α → Option β} {key : α → κ} {key' : β → κ}
    (h : ∀ a b, pick a = some b → key' b = key a) (l : List α) : ((l.filterMap pick).map key').Sublist (l.map key) := by
  induction l with
  | nil => simp
  | cons a l ih =>
    rw [List.map_cons]
    cases hp : pick a with
    | none =>
      rw [List.filterMap_cons_none hp]
      exact ih.cons _
    | some b =>
      rw [List.filterMap_cons_some hp, List.map_cons, h a b hp]
      exact ih.cons_cons _

theorem FileTree.files_once (tree : FileTree) : (tree.files.map (·.1)).Nodup :=
  ((tree.sorted_perm.map (·.1)).nodup_iff.2 tree.keyed).sublist (filterMap_keys (fun entry f h => by
    rw [sourceFile_some] at h
    rw [h]) _)

theorem fileOf_eq (entry : List PyStr × TreeNode) :
    fileOf entry = (sourceFile entry).map fun f => (posix f.1, f.2) := by
  obtain ⟨path, node⟩ := entry
  cases node <;> rfl

section Manifest

variable (lib : ImageLibrary F)

def manifestOf (tree : FileTree) (name sbomSha256 : PyStr) : ImageManifest F where
  name := name
  sbomSha256 := sbomSha256
  directories := tree.sorted.filterMap directoryOf
  rootfs := ((tree.files.map fun f => (posix f.1, f.2)).map (recordOf lib)).insertionSort fun a b => a.path ≤ b.path

variable {lib} {tree : FileTree} {name sbomSha256 : PyStr}

/-- **What is listed.** -/
theorem mem_manifestOf :
    (∀ d, d ∈ (manifestOf lib tree name sbomSha256).directories ↔
      ∃ p, (p, TreeNode.directory) ∈ tree.entries ∧ posix p = d) ∧
    ∀ record, record ∈ (manifestOf lib tree name sbomSha256).rootfs ↔
      ∃ f ∈ tree.files, recordOf lib (posix f.1, f.2) = record := by
  refine ⟨fun d => ?_, fun record => ?_⟩
  · simp only [manifestOf, List.mem_filterMap, directoryOf_some, tree.sorted_perm.mem_iff]
    constructor
    · rintro ⟨_, hentry, p, rfl, hd⟩
      exact ⟨p, hentry, hd⟩
    · rintro ⟨p, hentry, hd⟩
      exact ⟨_, hentry, p, rfl, hd⟩
  · simp only [manifestOf, (List.perm_insertionSort _ _).mem_iff, List.mem_map, exists_exists_and_eq_and]

theorem copyMode_cases (mode : Nat) : copyMode mode = 0o444 ∨ copyMode mode = 0o555 := by
  unfold copyMode
  split
  · exact .inr rfl
  · exact .inl rfl

theorem manifestOf_valid (hhex : ∀ content, isHexDigest (lib.sha256 content) = true) (hname : name ≠ [])
    (hsbom : isHexDigest sbomSha256 = true) : (manifestOf lib tree name sbomSha256).Valid := by
  refine ⟨hname, hsbom, List.all_eq_true.2 fun d hd => ?_, ?_, fun record hrecord => ?_, ?_⟩
  · obtain ⟨p, hp, rfl⟩ := (mem_manifestOf.1 d).1 hd
    exact safeRelative_posix (tree.named _ hp).1 (tree.named _ hp).2
  · have hkeys : ((tree.sorted.filterMap directoryOf).map id).Nodup := by
      have hsub : (tree.sorted.filterMap directoryOf).Sublist (tree.sorted.map fun entry => posix entry.1) := by
        have hkept : ∀ entry d, directoryOf entry = some d → id d = posix entry.1 := fun entry d h => by
          obtain ⟨p, rfl, rfl⟩ := directoryOf_some.1 h
          rfl
        simpa using filterMap_keys hkept tree.sorted
      rw [List.map_id]
      refine List.Nodup.sublist hsub ((tree.sorted_perm.map _).nodup_iff.2 ?_)
      refine (List.nodup_map_iff_inj_on (tree.keyed.of_map _)).2 fun a ha b hb he => ?_
      exact List.inj_on_of_nodup_map tree.keyed ha hb (posix_inj (tree.named a ha) (tree.named b hb) he)
    simpa [manifestOf] using hkeys
  · obtain ⟨f, hf, rfl⟩ := (mem_manifestOf.2 record).1 hrecord
    have hnamed := tree.named _ (FileTree.mem_files.1 hf)
    refine ⟨safeRelative_posix hnamed.1 hnamed.2, hhex _, by simp [recordOf], ?_⟩
    rcases copyMode_cases f.2.2 with h | h <;> simp [recordOf, h]
  · have hperm : ((manifestOf lib tree name sbomSha256).rootfs.map (·.path)).Perm
        (((tree.files.map fun f => (posix f.1, f.2)).map (recordOf lib)).map (·.path)) :=
      (List.perm_insertionSort _ _).map _
    rw [hperm.nodup_iff, List.map_map, List.map_map]
    refine (List.nodup_map_iff_inj_on (tree.files_once.of_map _)).2 fun f hf g hg he => ?_
    exact List.inj_on_of_nodup_map tree.files_once hf hg
      (posix_inj (tree.named _ (FileTree.mem_files.1 hf)) (tree.named _ (FileTree.mem_files.1 hg)) he)

theorem walkTree_plain (h : tree.Plain) :
    walkTree tree = .ok (tree.files.map fun f => (posix f.1, f.2), tree.sorted.filterMap directoryOf) := by
  have hall : tree.sorted.forM rejectUnsafe = .ok () := Except.forM_ok_iff.2 fun entry hentry =>
    h entry (tree.sorted_perm.mem_iff.1 hentry)
  have hfiles : tree.sorted.filterMap fileOf = tree.files.map fun f => (posix f.1, f.2) := by
    rw [FileTree.files, List.map_filterMap]
    exact List.filterMap_congr fun entry _ => fileOf_eq entry
  have hsorted : (tree.entries.insertionSort fun a b => a.1 ≤ b.1) = tree.sorted := rfl
  unfold walkTree
  simp only [hsorted, hall, hfiles]

/-- **A staged image**: the copy of the tree, and its manifest; only what has no encoding is not staged. -/
theorem stageImage_plain (h : tree.Plain) (name : PyStr) (sbom : PyDict F) :
    ∃ rootfs, Copied tree.files rootfs ∧ stageImage lib tree name sbom = (do
      let sbomBytes ← canonicalBytes lib (.dict sbom)
      let manifestBytes ← canonicalBytes lib (manifestOf lib tree name (lib.sha256 sbomBytes)).value
      return ⟨manifestOf lib tree name (lib.sha256 sbomBytes), manifestBytes, sbomBytes, rootfs⟩) := by
  obtain ⟨rootfs, hcopy, hcopied⟩ := @copyFiles_copied tree tree.files [] .empty copied_empty
    (fun f hf => FileTree.mem_files.1 hf) tree.files_once
  refine ⟨rootfs, hcopied, ?_⟩
  unfold stageImage
  rw [walkTree_plain h]
  simp only [bind, Except.bind, hcopy]
  rfl

end Manifest

end MilpbookLM.Execution
