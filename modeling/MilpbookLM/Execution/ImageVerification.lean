/-
Which installed images verify: those where every directory of the tree has a file below it
(`installVerifies_iff`). Only the directories above files are copied, and all of them are
listed.
-/
import MilpbookLM.Execution.ImageManifests

namespace MilpbookLM.Execution

open PosixPath

variable {F : Type} {lib : ImageLibrary F}

theorem canonicalBytes_ok {value : PyValue F} {bytes : Bytes} (h : canonicalBytes lib value = .ok bytes) :
    value.surrogate = false := by
  unfold canonicalBytes at h
  split at h
  · next hsome =>
    cases hs : value.surrogate with
    | false => rfl
    | true =>
      rw [(encode_dumps lib.floats value).2 hs] at hsome
      cases hsome
  · cases h

theorem canonicalBytes_error {value : PyValue F} {e : ImageTrouble} (h : canonicalBytes lib value = .error e) :
    value.surrogate = true ∧ e.typed = false := by
  unfold canonicalBytes at h
  split at h
  · cases h
  · next hnone =>
    cases h
    exact ⟨(encode_dumps lib.floats value).1 hnone, rfl⟩

/-! ## Inventories -/

theorem sameTexts_iff {xs ys : List PyStr} : sameTexts xs ys = true ↔ ∀ x, x ∈ xs ↔ x ∈ ys := by
  simp only [sameTexts, Bool.and_eq_true, List.all_eq_true, List.contains_iff_mem]
  exact ⟨fun h x => ⟨h.1 x, h.2 x⟩, fun h => ⟨fun x => (h x).1, fun x => (h x).2⟩⟩

/-- The texts of the files of a tree. -/
theorem mem_fileTexts {tree : FileTree} {x : PyStr} :
    x ∈ tree.entries.filterMap (fun entry => (fileOf entry).map (·.1)) ↔
      ∃ path content mode, (path, TreeNode.file content mode) ∈ tree.entries ∧ posix path = x := by
  simp only [List.mem_filterMap, Option.map_eq_some_iff]
  constructor
  · rintro ⟨⟨path, node⟩, hentry, f, hf, rfl⟩
    cases node <;> cases hf
    exact ⟨path, _, _, hentry, rfl⟩
  · rintro ⟨path, content, mode, hentry, rfl⟩
    exact ⟨_, hentry, _, rfl, rfl⟩

theorem mem_directoryTexts {tree : FileTree} {x : PyStr} :
    x ∈ tree.entries.filterMap directoryOf ↔ ∃ path, (path, TreeNode.directory) ∈ tree.entries ∧ posix path = x := by
  simp only [List.mem_filterMap, directoryOf_some]
  constructor
  · rintro ⟨_, hentry, path, rfl, hx⟩
    exact ⟨path, hentry, hx⟩
  · rintro ⟨path, hentry, hx⟩
    exact ⟨_, hentry, path, rfl, hx⟩

/-- **What `verify` checks of a tree.** -/
theorem checkTree_ok {manifest : ImageManifest F} {rootfs : FileTree} : checkTree lib manifest rootfs = .ok () ↔
    (∀ record ∈ manifest.rootfs, checkRecord lib rootfs record = .ok ()) ∧ rootfs.Plain ∧
      (∀ x, (∃ path content mode, (path, TreeNode.file content mode) ∈ rootfs.entries ∧ posix path = x) ↔
        x ∈ manifest.rootfs.map (·.path)) ∧
      ∀ x, (∃ path, (path, TreeNode.directory) ∈ rootfs.entries ∧ posix path = x) ↔ x ∈ manifest.directories := by
  unfold checkTree
  cases hrecords : manifest.rootfs.forM (checkRecord lib rootfs) with
  | error e =>
    have hno : ¬∀ record ∈ manifest.rootfs, checkRecord lib rootfs record = .ok () := fun h => by
      rw [Except.forM_ok_iff.2 h] at hrecords
      cases hrecords
    simp [bind, Except.bind, hno]
  | ok u =>
    cases hentries : rootfs.entries.forM rejectUnsafe with
    | error e =>
      have hno : ¬rootfs.Plain := fun h => by
        rw [Except.forM_ok_iff.2 h] at hentries
        cases hentries
      simp [bind, Except.bind, hno]
    | ok u =>
      simp only [bind, Except.bind, ← mem_fileTexts, ← mem_directoryTexts, ← sameTexts_iff]
      rw [and_iff_right (Except.forM_ok_iff.1 hrecords), and_iff_right (show rootfs.Plain from Except.forM_ok_iff.1 hentries)]
      split
      · next hsame => simpa using hsame
      · next hsame =>
        simp only [Bool.and_eq_true] at hsame
        simp [imageInvalid, hsame]

/-- A file is as its record says. -/
def Matches (lib : ImageLibrary F) (rootfs : FileTree) (record : ImageFileRecord F) : Prop :=
  opens (parse record.path).names = true ∧ ∃ content mode,
    rootfs.openFrom [] (parse record.path).names = some (.file content mode) ∧
      matchesRecord lib record content mode = true

theorem checkRecord_ok {rootfs : FileTree} {record : ImageFileRecord F} :
    checkRecord lib rootfs record = .ok () ↔ Matches lib rootfs record := by
  unfold checkRecord Matches
  simp only
  cases hopens : opens (parse record.path).names with
  | false => simp
  | true =>
    simp only [Bool.not_true, Bool.false_eq_true, if_false, true_and]
    cases hfile : rootfs.openFrom [] (parse record.path).names with
    | none => simp
    | some node =>
      cases node with
      | file content mode =>
        simp only [Option.some.injEq, TreeNode.file.injEq]
        split
        · next hm => exact iff_of_true rfl ⟨content, mode, ⟨rfl, rfl⟩, hm⟩
        · next hm =>
          refine iff_of_false (by simp) ?_
          rintro ⟨_, _, ⟨rfl, rfl⟩, h⟩
          exact hm h
      | _ => simp

/-! ## Texts with an encoding -/

theorem mem_posix {path : List PyStr} {c : Nat} : c ∈ posix path → c = slash ∨ ∃ name ∈ path, c ∈ name := by
  rw [posix_eq]
  induction path with
  | nil => simp
  | cons name path ih =>
    cases path with
    | nil =>
      intro h
      exact .inr ⟨name, by simp, by simpa using h⟩
    | cons second path =>
      rw [List.intercalate_cons_cons]
      intro h
      simp only [List.mem_append, List.mem_singleton] at h
      rcases h with (h | h) | h
      · exact .inr ⟨name, by simp, h⟩
      · exact .inl h
      · rcases ih h with h | ⟨n, hn, hc⟩
        · exact .inl h
        · exact .inr ⟨n, by simp [hn], hc⟩

theorem posix_mem {path : List PyStr} {name : PyStr} {c : Nat} (hname : name ∈ path) (hc : c ∈ name) :
    c ∈ posix path := by
  rw [posix_eq]
  induction path with
  | nil => cases hname
  | cons first path ih =>
    cases path with
    | nil =>
      rw [List.mem_singleton] at hname
      simpa [hname] using hc
    | cons second path =>
      rw [List.intercalate_cons_cons]
      rcases List.mem_cons.1 hname with rfl | hname
      · simp [hc]
      · exact List.mem_append_right _ (ih hname)

theorem fsencode_isSome {s : PyStr} (h : s.any isSurrogate = false) : (fsencode s).isSome = true := by
  unfold fsencode
  rw [Option.isSome_map]
  induction s with
  | nil => rfl
  | cons c s ih =>
    rw [List.any_cons, Bool.or_eq_false_iff] at h
    have hlow : ¬(0xDC80 ≤ c ∧ c < 0xDD00) := fun hc => by
      have := h.1
      simp only [isSurrogate, Bool.and_eq_false_iff, decide_eq_false_iff_not] at this
      omega
    obtain ⟨bytes, hbytes⟩ := Option.isSome_iff_exists.1 (ih h.2)
    rw [List.mapM_cons, if_neg hlow, h.1, hbytes]
    rfl

theorem surrogateList_any (xs : List (PyValue F)) : surrogateList xs = xs.any PyValue.surrogate := by
  induction xs with
  | nil => rfl
  | cons x xs ih => rw [surrogateList, ih, List.any_cons]

theorem hexDigest_surrogate {text : PyStr} (h : isHexDigest text = true) : text.any isSurrogate = false := by
  simp only [isHexDigest, Bool.and_eq_true, List.all_eq_true, Bool.or_eq_true, decide_eq_true_eq] at h
  refine List.any_eq_false.2 fun c hc => ?_
  have := h.2 c hc
  simp only [isSurrogate, Bool.and_eq_true, decide_eq_true_eq]
  omega

/-- A manifest has a lone surrogate where one of its texts has. -/
theorem manifest_surrogate (manifest : ImageManifest F) : manifest.value.surrogate =
    (manifest.name.any isSurrogate || manifest.sbomSha256.any isSurrogate ||
      manifest.directories.any (fun d => d.any isSurrogate) ||
      manifest.rootfs.any fun record => record.path.any isSurrogate || record.sha256.any isSurrogate) := by
  have hnumber : ∀ x : PyNumber F, x.value.surrogate = false := by
    rintro (n | x)
    · cases n <;> rfl
    · rfl
  have hrecord : ∀ record : ImageFileRecord F, record.value.surrogate =
      (record.path.any isSurrogate || record.sha256.any isSurrogate) := fun record => by
    simp [ImageFileRecord.value, PyValue.surrogate, surrogateItems, lit_surrogate, hnumber]
  simp only [ImageManifest.value, PyValue.surrogate, surrogateItems, lit_surrogate, surrogateList_any, List.any_map,
    Function.comp_def, hrecord, Bool.false_or, Bool.or_false, Bool.or_assoc]

/-! ## Installed images -/

/-- What the store relies on: of the manifests that come up, no two have one digest, and each is read as it was
written. -/
structure ImageLibrary.Lawful (lib : ImageLibrary F) (M : ImageManifest F → Prop) : Prop where
  sha256_hex : ∀ content, isHexDigest (lib.sha256 content) = true
  collision_free : ∀ m m' bytes bytes', M m → M m' → canonicalBytes lib m.value = .ok bytes →
    canonicalBytes lib m'.value = .ok bytes' → lib.sha256 bytes = lib.sha256 bytes' → bytes = bytes'
  loads_dumps : ∀ m bytes, M m → canonicalBytes lib m.value = .ok bytes → lib.loads bytes = .value m.value.sorted

/-- Every directory has a file below it. -/
def FileTree.Filled (tree : FileTree) : Prop :=
  ∀ p, (p, TreeNode.directory) ∈ tree.entries →
    ∃ path content mode, (path, TreeNode.file content mode) ∈ tree.entries ∧ p ∈ ancestors path

/-- The same of what is listed. -/
def ImageManifest.Filled (manifest : ImageManifest F) : Prop :=
  ∀ d ∈ manifest.directories, ∃ record ∈ manifest.rootfs, (parse d).names ∈ ancestors (parse record.path).names

theorem filled_manifestOf {tree : FileTree} {name sbomSha256 : PyStr} :
    (manifestOf lib tree name sbomSha256).Filled ↔ tree.Filled := by
  constructor
  · intro h p hp
    obtain ⟨record, hrecord, habove⟩ := h _ ((mem_manifestOf.1 _).2 ⟨p, hp, rfl⟩)
    obtain ⟨f, hf, rfl⟩ := (mem_manifestOf.2 _).1 hrecord
    have hfile := FileTree.mem_files.1 hf
    rw [parse_posix (tree.named _ hp).1 (tree.named _ hp).2] at habove
    simp only [recordOf, parse_posix (tree.named _ hfile).1 (tree.named _ hfile).2] at habove
    exact ⟨f.1, _, _, hfile, habove⟩
  · intro h d hd
    obtain ⟨p, hp, rfl⟩ := (mem_manifestOf.1 d).1 hd
    obtain ⟨path, content, mode, hfile, habove⟩ := h p hp
    refine ⟨_, (mem_manifestOf.2 _).2 ⟨(path, content, mode), FileTree.mem_files.2 hfile, rfl⟩, ?_⟩
    rw [parse_posix (tree.named _ hp).1 (tree.named _ hp).2]
    simp only [recordOf, parse_posix (tree.named _ hfile).1 (tree.named _ hfile).2]
    exact habove

/-- What was staged. -/
structure StagedOf (lib : ImageLibrary F) (tree : FileTree) (name : PyStr) (sbom : PyDict F) (staged : Staged F) :
    Prop where
  manifest : ∃ sbomBytes, canonicalBytes lib (.dict sbom) = .ok sbomBytes ∧
    staged.manifest = manifestOf lib tree name (lib.sha256 sbomBytes)
  bytes : canonicalBytes lib staged.manifest.value = .ok staged.manifestBytes
  rootfs : Copied tree.files staged.rootfs

/-- Only files and directories are staged. -/
theorem stageImage_regular {tree : FileTree} {name : PyStr} {sbom : PyDict F} {staged : Staged F}
    (h : stageImage lib tree name sbom = .ok staged) : tree.Plain := by
  unfold stageImage walkTree at h
  cases hall : (tree.entries.insertionSort fun a b => a.1 ≤ b.1).forM rejectUnsafe with
  | error e =>
    simp only [hall] at h
    cases h
  | ok u => exact fun entry hentry => Except.forM_ok_iff.1 hall entry ((List.perm_insertionSort _ _).mem_iff.2 hentry)

theorem stageImage_ok {tree : FileTree} {name : PyStr} {sbom : PyDict F} {staged : Staged F}
    (h : stageImage lib tree name sbom = .ok staged) : StagedOf lib tree name sbom staged := by
  obtain ⟨rootfs, hcopied, hstage⟩ := @stageImage_plain F lib tree (stageImage_regular h) name sbom
  rw [hstage] at h
  cases hsbom : canonicalBytes lib (.dict sbom) with
  | error e =>
    rw [hsbom] at h
    cases h
  | ok sbomBytes =>
    cases hbytes : canonicalBytes lib (manifestOf lib tree name (lib.sha256 sbomBytes)).value with
    | error e =>
      simp only [hsbom, bind, Except.bind, hbytes] at h
      cases h
    | ok bytes =>
      simp only [hsbom, bind, Except.bind, hbytes] at h
      cases h
      exact ⟨⟨sbomBytes, hsbom, rfl⟩, hbytes, hcopied⟩

/-- A file of the copy is as it was recorded. -/
theorem staged_matches {tree : FileTree} {name : PyStr} {sbom : PyDict F} {staged : Staged F}
    (h : StagedOf lib tree name sbom staged) :
    ∀ record ∈ staged.manifest.rootfs, Matches lib staged.rootfs record := by
  intro record hrecord
  have hclean := canonicalBytes_ok h.bytes
  obtain ⟨sbomBytes, -, hmanifest⟩ := h.manifest
  rw [manifest_surrogate, Bool.or_eq_false_iff, List.any_eq_false] at hclean
  have hpath := hclean.2 record hrecord
  simp only [Bool.not_eq_true, Bool.or_eq_false_iff] at hpath
  rw [hmanifest] at hrecord
  obtain ⟨⟨path, content, mode⟩, hf, rfl⟩ := (mem_manifestOf.2 record).1 hrecord
  obtain ⟨hne, hnames⟩ := tree.named _ (FileTree.mem_files.1 hf)
  simp only at hne hnames
  have hcopy : (path, TreeNode.file content (copyMode mode)) ∈ staged.rootfs.entries :=
    (h.rootfs _).2 (.inl ⟨_, hf, rfl⟩)
  simp only [Matches, recordOf, parse_posix hne hnames]
  refine ⟨List.all_eq_true.2 fun n hn => ?_, content, copyMode mode,
    FileTree.openFrom_entry (by simp) (by simp) hne (by simpa using hcopy), by simp [matchesRecord, PyNumber.value,
      PyInt.value, PyValue.eqInt]⟩
  rw [Bool.and_eq_true, decide_eq_true_eq]
  refine ⟨fsencode_isSome (List.any_eq_false.2 fun c hc => ?_), (isName_iff.1 (List.all_eq_true.1 hnames n hn)).2.2.2.2⟩
  exact List.any_eq_false.1 hpath.1 c (posix_mem hn hc)

/-- **The copy passes if every directory that is listed has a file below it.** -/
theorem staged_checkTree {tree : FileTree} {name : PyStr} {sbom : PyDict F} {staged : Staged F}
    (h : StagedOf lib tree name sbom staged) :
    checkTree lib staged.manifest staged.rootfs = .ok () ↔ staged.manifest.Filled := by
  have hmatches := staged_matches h
  obtain ⟨sbomBytes, -, hmanifest⟩ := h.manifest
  have hplain : staged.rootfs.Plain := fun entry hentry => by
    rcases (h.rootfs _).1 hentry with ⟨f, -, rfl⟩ | ⟨f, -, p, -, rfl⟩ <;> rfl
  rw [checkTree_ok, and_iff_right fun record hrecord => checkRecord_ok.2 (hmatches record hrecord),
    and_iff_right hplain, hmanifest, filled_manifestOf, and_iff_right fun x => ?_]
  · constructor
    · intro hdirs p hp
      obtain ⟨q, hq, heq⟩ := (hdirs (posix p)).2 ((mem_manifestOf.1 _).2 ⟨p, hp, rfl⟩)
      rcases (h.rootfs _).1 hq with ⟨f, -, he⟩ | ⟨f, hf, r, hr, he⟩
      · cases he
      · cases he
        obtain rfl := posix_inj (staged.rootfs.named _ hq) (tree.named _ hp) heq
        exact ⟨f.1, _, _, FileTree.mem_files.1 hf, hr⟩
    · intro hfilled x
      rw [mem_manifestOf.1]
      constructor
      · rintro ⟨q, hq, rfl⟩
        rcases (h.rootfs _).1 hq with ⟨f, -, he⟩ | ⟨f, hf, r, hr, he⟩
        · cases he
        · cases he
          exact ⟨q, tree.closed _ (FileTree.mem_files.1 hf) q hr, rfl⟩
      · rintro ⟨p, hp, rfl⟩
        obtain ⟨path, content, mode, hfile, habove⟩ := hfilled p hp
        exact ⟨p, (h.rootfs _).2 (.inr ⟨(path, content, mode), FileTree.mem_files.2 hfile, p, habove, rfl⟩), rfl⟩
  · rw [List.mem_map]
    constructor
    · rintro ⟨path, content, mode, hfile, rfl⟩
      rcases (h.rootfs _).1 hfile with ⟨f, hf, he⟩ | ⟨f, -, r, -, he⟩
      · cases he
        exact ⟨_, (mem_manifestOf.2 _).2 ⟨f, hf, rfl⟩, rfl⟩
      · cases he
    · rintro ⟨record, hrecord, rfl⟩
      obtain ⟨f, hf, rfl⟩ := (mem_manifestOf.2 _).1 hrecord
      exact ⟨f.1, _, _, (h.rootfs _).2 (.inl ⟨f, hf, rfl⟩), rfl⟩

section Stores

variable {M : ImageManifest F → Prop} (hlib : lib.Lawful M)

include hlib

theorem staged_valid {tree : FileTree} {name : PyStr} {sbom : PyDict F} {staged : Staged F}
    (h : StagedOf lib tree name sbom staged) (hname : name ≠ []) : staged.manifest.Valid := by
  obtain ⟨sbomBytes, -, hmanifest⟩ := h.manifest
  rw [hmanifest]
  exact manifestOf_valid hlib.sha256_hex hname (hlib.sha256_hex _)

/-- Manifests with one digest are one manifest. -/
theorem staged_unique {tree tree' : FileTree} {name name' : PyStr} {sbom sbom' : PyDict F} {staged staged' : Staged F}
    (h : StagedOf lib tree name sbom staged) (h' : StagedOf lib tree' name' sbom' staged') (hM : M staged.manifest)
    (hM' : M staged'.manifest) (hname : name ≠ [])
    (hsha : lib.sha256 staged.manifestBytes = lib.sha256 staged'.manifestBytes) :
    staged.manifestBytes = staged'.manifestBytes ∧ staged.manifest = staged'.manifest := by
  have hbytes := hlib.collision_free _ _ _ _ hM hM' h.bytes h'.bytes hsha
  have hloads := hlib.loads_dumps _ _ hM h.bytes
  have hloads' := hlib.loads_dumps _ _ hM' h'.bytes
  have hvalues : staged.manifest.value.sorted = staged'.manifest.value.sorted := by
    rw [hbytes, hloads'] at hloads
    exact (Loaded.value.inj hloads).symm
  have hnames : staged.manifest.name = staged'.manifest.name := by
    rw [manifest_sorted, manifest_sorted] at hvalues
    simp only [PyValue.dict.injEq, List.cons.injEq, Prod.mk.injEq, PyValue.str.injEq] at hvalues
    exact hvalues.2.1.2
  have hname' : name' ≠ [] := by
    obtain ⟨sbomBytes, -, hmanifest⟩ := h.manifest
    obtain ⟨sbomBytes', -, hmanifest'⟩ := h'.manifest
    rw [hmanifest, hmanifest'] at hnames
    exact fun he => hname (hnames.trans he)
  have hread := parseManifest_valid lib (staged_valid hlib h hname) hloads
  have hread' := parseManifest_valid lib (staged_valid hlib h' hname') hloads'
  rw [hbytes, hread', Except.ok.injEq] at hread
  exact ⟨hbytes, hread.symm⟩

/-- A directory with the manifest of a staged image. -/
theorem verifyDir_staged {tree : FileTree} {name : PyStr} {sbom : PyDict F} {staged : Staged F}
    (h : StagedOf lib tree name sbom staged) (hname : name ≠ []) (hM : M staged.manifest) {dir : ImageDir}
    {rootfs : FileTree} (hmanifest : dir.manifest = .content staged.manifestBytes)
    (hrootfs : dir.rootfs = some rootfs) :
    (∃ image, verifyDir lib (lit "sha256:" ++ lib.sha256 staged.manifestBytes) (some dir) = .ok image) ↔
      checkTree lib staged.manifest rootfs = .ok () := by
  have hread := parseManifest_valid lib (staged_valid hlib h hname) (hlib.loads_dumps _ _ hM h.bytes)
  simp only [verifyDir, Option.map_some, hmanifest, hread, h.bytes, ne_eq, not_true_eq_false, if_false,
    Option.bind_some, hrootfs]
  cases checkTree lib staged.manifest rootfs <;> simp

end Stores

/-- The stores that installing makes. -/
inductive Installed (lib : ImageLibrary F) (M : ImageManifest F → Prop) : ImageStore → Prop
  | empty : Installed lib M {}
  | install {s s' : ImageStore} {tree : FileTree} {name digest : PyStr} {sbom : PyDict F} : Installed lib M s →
      (∀ staged, stageImage lib tree name sbom = .ok staged → M staged.manifest) →
      install lib s tree name sbom = .ok (digest, s') → Installed lib M s'

/-- A directory is an image under its name. -/
def IsImage (lib : ImageLibrary F) (M : ImageManifest F → Prop) (hex : PyStr) (dir : ImageDir) : Prop :=
  ∃ tree name sbom staged, StagedOf lib tree name sbom staged ∧ M staged.manifest ∧
    hex = lib.sha256 staged.manifestBytes ∧ dir.manifest = .content staged.manifestBytes ∧
    dir.rootfs = some staged.rootfs

theorem dir?_append {s : ImageStore} {hex name : PyStr} {dir : ImageDir} :
    (ImageStore.mk (s.dirs ++ [(hex, dir)])).dir? name = (s.dir? name).or (if hex = name then some dir else none) := by
  unfold ImageStore.dir?
  rw [List.find?_append, Option.map_or]
  by_cases h : hex = name <;> simp [h]

/-- **Every directory of the store is an image.** -/
theorem Installed.images {M : ImageManifest F → Prop} {s : ImageStore} (h : Installed lib M s) :
    ∀ hex dir, s.dir? hex = some dir → IsImage lib M hex dir := by
  induction h with
  | empty =>
    intro hex dir hdir
    cases hdir
  | @install s s' tree name digest sbom _ hM hinstall ih =>
    unfold Execution.install at hinstall
    cases hstage : stageImage lib tree name sbom with
    | error e =>
      rw [hstage] at hinstall
      cases hinstall
    | ok staged =>
      rw [hstage] at hinstall
      cases hinstall
      intro hex dir hdir
      split at hdir
      · exact ih hex dir hdir
      · rw [dir?_append] at hdir
        rcases Option.or_eq_some_iff.1 hdir with hold | ⟨-, hnew⟩
        · exact ih hex dir hold
        · split at hnew
          · next he =>
            cases hnew
            exact ⟨tree, name, sbom, staged, stageImage_ok hstage, hM staged hstage, he.symm, rfl, rfl⟩
          · cases hnew

/-- What is installed verifies. -/
def InstallVerifies (lib : ImageLibrary F) (s : ImageStore) (tree : FileTree) (name : PyStr) (sbom : PyDict F) : Prop :=
  ∃ digest s' image, install lib s tree name sbom = .ok (digest, s') ∧ verify lib s' digest = .ok image

/-- The names are valid UTF-8. -/
def FileTree.Utf8 (tree : FileTree) : Prop := ∀ entry ∈ tree.entries, ∀ name ∈ entry.1, name.any isSurrogate = false

theorem digestHex_lit {hex : PyStr} (h : isHexDigest hex = true) : digestHex (lit "sha256:" ++ hex) = .ok hex := by
  have hlen : (lit "sha256:").length = 7 := rfl
  have htake : (lit "sha256:" ++ hex).take 7 = lit "sha256:" := List.take_left' hlen
  have hdrop : (lit "sha256:" ++ hex).drop 7 = hex := List.drop_left' hlen
  rw [digestHex, if_pos ⟨htake, by rw [hdrop]; exact h⟩, hdrop]

theorem Utf8.posix {tree : FileTree} (h : tree.Utf8) {path : List PyStr} {node : TreeNode}
    (hentry : (path, node) ∈ tree.entries) : (posix path).any isSurrogate = false := by
  refine List.any_eq_false.2 fun c hc => ?_
  rcases mem_posix hc with rfl | ⟨name, hname, hc⟩
  · decide
  · exact List.any_eq_false.1 (h _ hentry name hname) c hc

section Stores

variable {M : ImageManifest F → Prop} (hlib : lib.Lawful M)

include hlib

/-- **An installed tree verifies exactly if each of its directories has a file below it**, where its name and its bill
have an encoding. -/
theorem installVerifies_iff {s : ImageStore} (hs : Installed lib M s) {tree : FileTree} (hplain : tree.Plain)
    (hutf8 : tree.Utf8) {name : PyStr} (hname : name ≠ []) {sbom : PyDict F}
    (hM : ∀ staged, stageImage lib tree name sbom = .ok staged → M staged.manifest) :
    InstallVerifies lib s tree name sbom ↔
      tree.Filled ∧ name.any isSurrogate = false ∧ (PyValue.dict sbom).surrogate = false := by
  -- what the digest names afterwards is a directory with this very manifest
  have hverify : ∀ {staged digest s'}, stageImage lib tree name sbom = .ok staged →
      install lib s tree name sbom = .ok (digest, s') →
      ((∃ image, verify lib s' digest = .ok image) ↔ tree.Filled) := by
    intro staged digest s' hstage hinstall
    have hstaged := stageImage_ok hstage
    have hmanifest : staged.manifest.Filled ↔ tree.Filled := by
      obtain ⟨sbomBytes, -, he⟩ := hstaged.manifest
      rw [he]
      exact filled_manifestOf
    unfold install at hinstall
    rw [hstage] at hinstall
    simp only [Except.ok.injEq, Prod.mk.injEq] at hinstall
    obtain ⟨rfl, rfl⟩ := hinstall
    rw [verify, digestHex_lit (hlib.sha256_hex _)]
    simp only
    by_cases hold : (s.dir? (lib.sha256 staged.manifestBytes)).isSome
    · obtain ⟨dir, hdir⟩ := Option.isSome_iff_exists.1 hold
      obtain ⟨tree', name', sbom', staged', hstaged', hM', hsha, hraw, hroot⟩ := hs.images _ _ hdir
      obtain ⟨hbytes, hsame⟩ := staged_unique hlib hstaged hstaged' (hM _ hstage) hM' hname hsha
      rw [if_pos hold, hdir, verifyDir_staged hlib hstaged hname (hM _ hstage) (hbytes ▸ hraw) hroot, hsame,
        staged_checkTree hstaged', ← hsame, hmanifest]
    · have hnone : s.dir? (lib.sha256 staged.manifestBytes) = none := by simpa using hold
      rw [if_neg hold, dir?_append, hnone, Option.none_or, if_pos rfl,
        verifyDir_staged hlib hstaged hname (hM _ hstage) rfl rfl, staged_checkTree hstaged, hmanifest]
  constructor
  · rintro ⟨digest, s', image, hinstall, himage⟩
    cases hstage : stageImage lib tree name sbom with
    | error e =>
      rw [install, hstage] at hinstall
      cases hinstall
    | ok staged =>
      obtain ⟨⟨sbomBytes, hsbom, he⟩, hbytes, -⟩ := stageImage_ok hstage
      have hclean := canonicalBytes_ok hbytes
      rw [manifest_surrogate, he] at hclean
      simp only [manifestOf, Bool.or_eq_false_iff] at hclean
      exact ⟨(hverify hstage hinstall).1 ⟨image, himage⟩, hclean.1.1.1, canonicalBytes_ok hsbom⟩
  · rintro ⟨hfilled, hclean, hsbom⟩
    obtain ⟨rootfs, -, hstage⟩ := @stageImage_plain F lib tree hplain name sbom
    cases hsbomBytes : canonicalBytes lib (.dict sbom) with
    | error e =>
      rw [(canonicalBytes_error hsbomBytes).1] at hsbom
      cases hsbom
    | ok sbomBytes =>
      cases hbytes : canonicalBytes lib (manifestOf lib tree name (lib.sha256 sbomBytes)).value with
      | error e =>
        have hbad := (canonicalBytes_error hbytes).1
        have hdirs : (manifestOf lib tree name (lib.sha256 sbomBytes)).directories.any
            (fun d => d.any isSurrogate) = false := List.any_eq_false.2 fun d hd => by
          obtain ⟨p, hp, rfl⟩ := (mem_manifestOf.1 d).1 hd
          rw [Utf8.posix hutf8 hp]
          simp
        have hfiles : (manifestOf lib tree name (lib.sha256 sbomBytes)).rootfs.any
            (fun record => record.path.any isSurrogate || record.sha256.any isSurrogate) = false :=
          List.any_eq_false.2 fun record hrecord => by
            obtain ⟨f, hf, rfl⟩ := (mem_manifestOf.2 record).1 hrecord
            simp only [recordOf]
            rw [Utf8.posix hutf8 (FileTree.mem_files.1 hf), hexDigest_surrogate (hlib.sha256_hex _)]
            simp
        rw [manifest_surrogate, hdirs, hfiles] at hbad
        simp only [manifestOf, hclean, hexDigest_surrogate (hlib.sha256_hex _), Bool.or_self] at hbad
        cases hbad
      | ok bytes =>
        simp only [hsbomBytes, bind, Except.bind, hbytes] at hstage
        have hinstall : ∃ digest s', install lib s tree name sbom = .ok (digest, s') := by
          rw [install, hstage]
          exact ⟨_, _, rfl⟩
        obtain ⟨digest, s', hinstall⟩ := hinstall
        obtain ⟨image, himage⟩ := (hverify hstage hinstall).2 hfilled
        exact ⟨digest, s', image, hinstall, himage⟩

end Stores

end MilpbookLM.Execution
