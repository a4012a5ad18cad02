/-
What `verify` ends with, whatever is in the store: a typed refusal, or an image that is exactly
what its manifest lists (`verify_exact`), but for what is caught nowhere (`typedOrExact_iff`).
-/
import MilpbookLM.Execution.ImageVerification

namespace MilpbookLM.Execution

open PosixPath

variable {F : Type} {lib : ImageLibrary F}

/-! ## Images -/

/-- An image of the store is exactly what its manifest lists, and the digest is the manifest's. -/
structure ExactImage (lib : ImageLibrary F) (s : ImageStore) (digest : PyStr) (image : RuntimeImage F) : Prop where
  named : image.digest = digest
  stored : ∃ dir raw, s.dir? (digest.drop 7) = some dir ∧ dir.manifest = .content raw ∧
    parseManifest lib raw = .ok image.manifest ∧ dir.rootfs = some image.rootfs
  hash : ∃ bytes, canonicalBytes lib image.manifest.value = .ok bytes ∧ lit "sha256:" ++ lib.sha256 bytes = digest
  plain : image.rootfs.Plain
  recorded : ∀ path content mode, (path, TreeNode.file content mode) ∈ image.rootfs.entries →
    ∃ record ∈ image.manifest.rootfs, record.path = posix path ∧ matchesRecord lib record content mode = true
  present : ∀ record ∈ image.manifest.rootfs, ∃ path content mode,
    (path, TreeNode.file content mode) ∈ image.rootfs.entries ∧ record.path = posix path ∧
      matchesRecord lib record content mode = true
  directories : ∀ x, (∃ path, (path, TreeNode.directory) ∈ image.rootfs.entries ∧ posix path = x) ↔
    x ∈ image.manifest.directories

/-- A file that is listed under its text is as the record says. -/
theorem Matches.file {rootfs : FileTree} {record : ImageFileRecord F} (h : Matches lib rootfs record)
    {path : List PyStr} {content : Bytes} {mode : Nat} (hfile : (path, TreeNode.file content mode) ∈ rootfs.entries)
    (hpath : record.path = posix path) : matchesRecord lib record content mode = true := by
  obtain ⟨hne, hnames⟩ := rootfs.named _ hfile
  obtain ⟨-, content', mode', hopen, hmatch⟩ := h
  have hentry : rootfs.openFrom [] path = some (.file content mode) :=
    FileTree.openFrom_entry (by simp) (by simp) hne (by simpa using hfile)
  rw [hpath, parse_posix hne hnames, hentry] at hopen
  cases hopen
  exact hmatch

theorem digestHex_ok {digest hex : PyStr} (h : digestHex digest = .ok hex) : hex = digest.drop 7 := by
  unfold digestHex at h
  split at h
  · cases h
    rfl
  · cases h

/-- **An image that verifies is exactly what its manifest lists.** -/
theorem verify_exact {s : ImageStore} {digest : PyStr} {image : RuntimeImage F}
    (h : verify lib s digest = .ok image) : ExactImage lib s digest image := by
  unfold verify at h
  split at h
  · cases h
  · next hex hhex =>
    obtain rfl := digestHex_ok hhex
    unfold verifyDir at h
    split at h
    · cases h
    · next raw hraw =>
      obtain ⟨dir, hdir, hmanifest⟩ := Option.map_eq_some_iff.1 hraw
      split at h
      · cases h
      · next manifest hread =>
        split at h
        · cases h
        · next bytes hbytes =>
          split at h
          · cases h
          · next hdigest =>
            split at h
            · cases h
            · next rootfs hrootfs =>
              split at h
              · cases h
              · next htree =>
                cases h
                obtain ⟨hrecords, hplain, hfiles, hdirs⟩ := checkTree_ok.1 htree
                have hmatches : ∀ record ∈ manifest.rootfs, Matches lib rootfs record := fun record hrecord =>
                  checkRecord_ok.1 (hrecords record hrecord)
                refine ⟨rfl, ⟨dir, raw, hdir, hmanifest, hread, by simpa [hdir] using hrootfs⟩,
                  ⟨bytes, hbytes, by simpa using hdigest⟩, hplain, fun path content mode hfile => ?_,
                  fun record hrecord => ?_, hdirs⟩
                · obtain ⟨record, hrecord, hpath⟩ := List.mem_map.1 ((hfiles _).1 ⟨path, content, mode, hfile, rfl⟩)
                  exact ⟨record, hrecord, hpath, (hmatches record hrecord).file hfile hpath⟩
                · obtain ⟨path, content, mode, hfile, hpath⟩ := (hfiles _).2 (List.mem_map_of_mem hrecord)
                  exact ⟨path, content, mode, hfile, hpath.symm, (hmatches record hrecord).file hfile hpath.symm⟩
    · cases h

/-! ## Refusals -/

theorem parseFileRecord_error {payload : PyValue F} {e : ImageTrouble}
    (h : parseFileRecord lib payload = .error e) : e.typed = true := by
  unfold parseFileRecord imageInvalid at h
  repeat' split at h
  all_goals cases h
  all_goals rfl

theorem parseFields_error {payload : PyDict F} {e : ImageTrouble}
    (h : parseFields lib payload = .error e) : e.typed = true := by
  unfold parseFields imageInvalid at h
  split at h
  · split at h
    · split at h
      · cases h
        rfl
      · split at h
        · split at h
          · cases h
            rfl
          · split at h
            · split at h
              · next hrecords =>
                cases h
                exact Except.mapM_error (fun payload e he => parseFileRecord_error he) hrecords
              · split at h <;> cases h
                rfl
            · cases h
              rfl
        · cases h
          rfl
    · cases h
      rfl
  · cases h
    rfl

/-- What `_parse_manifest` raises, but for what `json.loads` does, is typed. -/
theorem parseManifest_error {raw : Bytes} {e : ImageTrouble} (h : parseManifest lib raw = .error e) :
    e.typed = true ∨ ∃ name, lib.loads raw = .other name ∧ e = .raised (.other name) := by
  unfold parseManifest imageInvalid at h
  split at h
  · cases h
    exact .inl rfl
  · next name hloads =>
    cases h
    exact .inr ⟨name, hloads, rfl⟩
  · split at h
    · cases h
      exact .inl rfl
    · exact .inl (parseFields_error h)
  · cases h
    exact .inl rfl

theorem rejectUnsafe_error {entry : List PyStr × TreeNode} {e : ImageTrouble} (h : rejectUnsafe entry = .error e) :
    e.typed = true := by
  unfold rejectUnsafe at h
  split at h <;> cases h <;> rfl

/-- A file that the record leads to is not opened: its path has a NUL or no encoding, or a FIFO is there. -/
def Unopened (rootfs : FileTree) (record : ImageFileRecord F) : Prop :=
  opens (parse record.path).names = false ∨ rootfs.openFrom [] (parse record.path).names = some .fifo

/-- The outcomes of the check of a record. -/
theorem checkRecord_cases (lib : ImageLibrary F) (rootfs : FileTree) (record : ImageFileRecord F) :
    Matches lib rootfs record ∧ checkRecord lib rootfs record = .ok () ∨
      Unopened rootfs record ∧ (∃ e, checkRecord lib rootfs record = .error e ∧ e.typed = false) ∨
        ¬Unopened rootfs record ∧ ∃ e, checkRecord lib rootfs record = .error e ∧ e.typed = true := by
  by_cases hm : Matches lib rootfs record
  · exact .inl ⟨hm, checkRecord_ok.2 hm⟩
  · rw [← checkRecord_ok] at hm
    refine .inr ?_
    unfold checkRecord Unopened at *
    simp only at hm ⊢
    cases hopens : opens (parse record.path).names with
    | false => simp [ImageTrouble.typed, Raised.typed]
    | true =>
      simp only [hopens, Bool.not_true, Bool.false_eq_true, if_false, false_or, Bool.true_eq_false] at hm ⊢
      cases hfile : rootfs.openFrom [] (parse record.path).names with
      | none => simp [ImageTrouble.typed]
      | some node =>
        rw [hfile] at hm
        cases node with
        | file content mode =>
          simp only at hm ⊢
          split at hm
          · exact absurd rfl hm
          · next hmatch => simp [hmatch, ImageTrouble.typed]
        | _ => simp [ImageTrouble.typed]

/-- The records are checked up to one whose file is not opened. -/
def Reaches (lib : ImageLibrary F) (rootfs : FileTree) (records : List (ImageFileRecord F)) : Prop :=
  ∃ before record after, records = before ++ record :: after ∧ (∀ r ∈ before, Matches lib rootfs r) ∧
    Unopened rootfs record

/-- **The loop over the records ends typed unless it reaches such a file.** -/
theorem checkRecords_typed (lib : ImageLibrary F) (rootfs : FileTree) :
    ∀ records : List (ImageFileRecord F), (∃ e, records.forM (checkRecord lib rootfs) = .error e ∧ e.typed = false) ↔
      Reaches lib rootfs records
  | [] => by simp [Reaches, pure, Except.pure]
  | first :: records => by
    have ih := checkRecords_typed lib rootfs records
    have hforM : (first :: records).forM (checkRecord lib rootfs) =
        (checkRecord lib rootfs first >>= fun _ => records.forM (checkRecord lib rootfs)) := rfl
    have hsplit : Reaches lib rootfs (first :: records) ↔
        Unopened rootfs first ∨ Matches lib rootfs first ∧ Reaches lib rootfs records := by
      constructor
      · rintro ⟨before, record, after, he, hbefore, hrecord⟩
        cases before with
        | nil =>
          cases he
          exact .inl hrecord
        | cons b before =>
          cases he
          exact .inr ⟨hbefore _ (by simp), before, record, after, rfl, fun r hr => hbefore r (by simp [hr]), hrecord⟩
      · rintro (hfirst | ⟨hfirst, before, record, after, rfl, hbefore, hrecord⟩)
        · exact ⟨[], first, records, rfl, by simp, hfirst⟩
        · refine ⟨first :: before, record, after, rfl, ?_, hrecord⟩
          simpa using ⟨hfirst, hbefore⟩
    rw [hforM, hsplit]
    rcases checkRecord_cases lib rootfs first with ⟨hm, hok⟩ | ⟨hun, e, he, htyped⟩ | ⟨hopen, e, he, htyped⟩
    · have hopen : ¬Unopened rootfs first := by
        rintro (h | h)
        · rw [hm.1] at h
          cases h
        · obtain ⟨-, content, mode, hfile, -⟩ := hm
          rw [h] at hfile
          cases hfile
      simpa [hok, bind, Except.bind, hopen, hm] using ih
    · simp [he, bind, Except.bind, hun, htyped]
    · have hno : ¬Matches lib rootfs first := fun hm => by
        rw [checkRecord_ok.2 hm] at he
        cases he
      simp [he, bind, Except.bind, hopen, hno, htyped]

theorem checkTree_typed {manifest : ImageManifest F} {rootfs : FileTree} :
    (∃ e, checkTree lib manifest rootfs = .error e ∧ e.typed = false) ↔ Reaches lib rootfs manifest.rootfs := by
  rw [← checkRecords_typed]
  unfold checkTree
  cases hrecords : manifest.rootfs.forM (checkRecord lib rootfs) with
  | error e => simp [bind, Except.bind]
  | ok u =>
    cases hentries : rootfs.entries.forM rejectUnsafe with
    | error e =>
      have := Except.forM_error (P := fun e => e.typed = true) (fun entry e he => rejectUnsafe_error he) hentries
      simp [bind, Except.bind, this]
    | ok u =>
      simp only [bind, Except.bind]
      split <;> simp [imageInvalid, ImageTrouble.typed]

/-! ## Whatever is in the store -/

/-- What is under a digest ends `verify` with something that is caught nowhere, or keeps it waiting. -/
inductive Troubled (lib : ImageLibrary F) (digest : PyStr) (dir : ImageDir) : Prop
  | fifo : dir.manifest = .fifo → Troubled lib digest dir
  /-- `json.loads` raises something other than `JSONDecodeError`. -/
  | raises {raw : Bytes} {name : String} : dir.manifest = .content raw → lib.loads raw = .other name →
      Troubled lib digest dir
  /-- A text of the manifest has a lone surrogate. -/
  | surrogate {raw : Bytes} {manifest : ImageManifest F} : dir.manifest = .content raw →
      parseManifest lib raw = .ok manifest → manifest.value.surrogate = true → Troubled lib digest dir
  /-- The checks of the files reach one that is not opened. -/
  | file {raw bytes : Bytes} {manifest : ImageManifest F} {rootfs : FileTree} : dir.manifest = .content raw →
      parseManifest lib raw = .ok manifest → canonicalBytes lib manifest.value = .ok bytes →
      lit "sha256:" ++ lib.sha256 bytes = digest → dir.rootfs = some rootfs → Reaches lib rootfs manifest.rootfs →
      Troubled lib digest dir

theorem verifyDir_typed {digest : PyStr} {dir : ImageDir} :
    (∃ e, verifyDir lib digest (some dir) = .error e ∧ e.typed = false) ↔ Troubled lib digest dir := by
  obtain ⟨stored, sbom, root⟩ := dir
  unfold verifyDir
  simp only [Option.map_some, Option.bind_some]
  cases stored with
  | fifo => exact iff_of_true ⟨_, rfl, rfl⟩ (.fifo rfl)
  | unreadable =>
    refine iff_of_false (by simp [ImageTrouble.typed]) ?_
    rintro (h | ⟨h, -⟩ | ⟨h, -⟩ | ⟨h, -⟩) <;> cases h
  | content raw =>
    simp only
    cases hread : parseManifest lib raw with
    | error e =>
      simp only [Except.error.injEq, exists_eq_left']
      rcases parseManifest_error hread with htyped | ⟨name, hloads, rfl⟩
      · refine iff_of_false (by simp [htyped]) ?_
        rintro (h | ⟨h, hloads⟩ | ⟨h, hok, -⟩ | ⟨h, hok, -⟩) <;> cases h
        · rw [parseManifest, hloads] at hread
          cases hread
          cases htyped
        · rw [hread] at hok
          cases hok
        · rw [hread] at hok
          cases hok
      · exact iff_of_true rfl (.raises rfl hloads)
    | ok manifest =>
      have hraises : ∀ {name}, lib.loads raw ≠ .other name := fun {name} hloads => by
        rw [parseManifest, hloads] at hread
        cases hread
      simp only
      cases hbytes : canonicalBytes lib manifest.value with
      | error e =>
        obtain ⟨hbad, htyped⟩ := canonicalBytes_error hbytes
        exact iff_of_true ⟨e, rfl, htyped⟩ (.surrogate rfl hread hbad)
      | ok bytes =>
        have hclean := canonicalBytes_ok hbytes
        simp only
        by_cases hdigest : lit "sha256:" ++ lib.sha256 bytes = digest
        · rw [if_neg (not_not.2 hdigest)]
          cases root with
          | none =>
            refine iff_of_false (by simp [imageInvalid, ImageTrouble.typed]) ?_
            rintro (h | ⟨h, hloads⟩ | ⟨h, hok, hbad⟩ | ⟨h, -, -, -, hnone, -⟩)
            · cases h
            · cases h
              exact hraises hloads
            · cases h
              rw [hread] at hok
              cases hok
              rw [hclean] at hbad
              cases hbad
            · cases hnone
          | some rootfs =>
            have htree := @checkTree_typed F lib manifest rootfs
            refine Iff.trans (b := Reaches lib rootfs manifest.rootfs) ?_ ⟨.file rfl hread hbytes hdigest rfl, ?_⟩
            · rw [← htree]
              cases hcheck : checkTree lib manifest rootfs <;> simp [hcheck]
            · rintro (h | ⟨h, hloads⟩ | ⟨h, hok, hbad⟩ | ⟨h, hok, -, -, hsome, hreaches⟩)
              · cases h
              · cases h
                exact absurd hloads hraises
              · cases h
                rw [hread] at hok
                cases hok
                rw [hclean] at hbad
                cases hbad
              · cases h
                cases hsome
                rw [hread] at hok
                cases hok
                exact hreaches
        · rw [if_pos hdigest]
          refine iff_of_false (by simp [imageInvalid, ImageTrouble.typed]) ?_
          rintro (h | ⟨h, hloads⟩ | ⟨h, hok, hbad⟩ | ⟨h, hok, hb, hd, -⟩)
          · cases h
          · cases h
            exact hraises hloads
          · cases h
            rw [hread] at hok
            cases hok
            rw [hclean] at hbad
            cases hbad
          · cases h
            rw [hread] at hok
            cases hok
            rw [hbytes] at hb
            cases hb
            exact hdigest hd

/-- `verify` ends with a typed refusal or an image that is exactly what its manifest lists. -/
def TypedOrExact (lib : ImageLibrary F) (s : ImageStore) (digest : PyStr) : Prop :=
  (∃ e, verify lib s digest = .error e ∧ e.typed = true) ∨
    ∃ image, verify lib s digest = .ok image ∧ ExactImage lib s digest image

/-- What a digest names in a store is such. -/
def ImageStore.Troubled (lib : ImageLibrary F) (s : ImageStore) (digest : PyStr) : Prop :=
  ∃ hex dir, digestHex digest = .ok hex ∧ s.dir? hex = some dir ∧ Execution.Troubled lib digest dir

/-- **Every call ends typed or with an exact image, but for what is caught nowhere.** -/
theorem typedOrExact_iff (lib : ImageLibrary F) (s : ImageStore) (digest : PyStr) :
    TypedOrExact lib s digest ↔ ¬s.Troubled lib digest := by
  have hbad : (∃ e, verify lib s digest = .error e ∧ e.typed = false) ↔ s.Troubled lib digest := by
    unfold verify ImageStore.Troubled
    cases hhex : digestHex digest with
    | error e =>
      refine iff_of_false ?_ (by simp)
      unfold digestHex at hhex
      split at hhex
      · cases hhex
      · cases hhex
        simp [ImageTrouble.typed, Raised.typed]
    | ok hex =>
      simp only [Except.ok.injEq]
      cases hdir : s.dir? hex with
      | none => simp [hdir, verifyDir, ImageTrouble.typed]
      | some dir => simp [hdir, verifyDir_typed]
  rw [← hbad]
  unfold TypedOrExact
  cases hverify : verify lib s digest with
  | error e => simp
  | ok image =>
    have := verify_exact hverify
    simpa using this

/-! ## install and verify -/

theorem InstallVerifies.plain {s : ImageStore} {tree : FileTree} {name : PyStr} {sbom : PyDict F}
    (h : InstallVerifies lib s tree name sbom) : tree.Plain := by
  obtain ⟨digest, s', image, hinstall, -⟩ := h
  unfold install at hinstall
  cases hstage : stageImage lib tree name sbom with
  | error e =>
    rw [hstage] at hinstall
    cases hinstall
  | ok staged => exact stageImage_regular hstage

/-- **An installed tree verifies exactly if there are only files, and directories with files below them, and its texts
have an encoding; and every call ends typed or with an exact image exactly if what the digest names is not such as is
caught nowhere.** -/
theorem images_verify_iff {M : ImageManifest F → Prop} (hlib : lib.Lawful M) :
    (∀ (s : ImageStore) (tree : FileTree) (name : PyStr) (sbom : PyDict F), Installed lib M s →
      tree.Utf8 → name ≠ [] → (∀ staged, stageImage lib tree name sbom = .ok staged → M staged.manifest) →
      (InstallVerifies lib s tree name sbom ↔
        tree.Plain ∧ tree.Filled ∧ name.any isSurrogate = false ∧ (PyValue.dict sbom).surrogate = false)) ∧
    ∀ (s : ImageStore) (digest : PyStr), TypedOrExact lib s digest ↔ ¬s.Troubled lib digest := by
  refine ⟨fun s tree name sbom hs hutf8 hname hM => ?_, typedOrExact_iff lib⟩
  constructor
  · intro h
    exact ⟨h.plain, (installVerifies_iff hlib hs h.plain hutf8 hname hM).1 h⟩
  · rintro ⟨hplain, h⟩
    exact (installVerifies_iff hlib hs hplain hutf8 hname hM).2 h

/-- A library where only one manifest comes up. -/
def oneManifest (manifest : ImageManifest Int) : ImageLibrary Int where
  floats := wholeFloats
  loads raw :=
    if (dumps wholeFloats manifest.value).encode = some raw then .value manifest.value.sorted else .decodeError
  sha256 _ := List.replicate 64 0x30

theorem oneManifest_lawful (manifest : ImageManifest Int) : (oneManifest manifest).Lawful (· = manifest) where
  sha256_hex _ := show isHexDigest (List.replicate 64 0x30) = true by decide
  collision_free m m' bytes bytes' hm hm' h h' _ := by
    subst hm hm'
    rw [h] at h'
    exact Except.ok.inj h'
  loads_dumps m bytes hm h := by
    subst hm
    unfold canonicalBytes at h
    split at h
    · next hsome =>
      cases h
      exact if_pos hsome
    · cases h

/-- A tree with one file. -/
def scriptTree : FileTree where
  entries := [([lit "run"], .file [0x61] 0o755)]
  keyed := by decide
  named := by decide
  closed := by decide

def scriptManifest : ImageManifest Int where
  name := lit "python"
  sbomSha256 := List.replicate 64 0x30
  directories := []
  rootfs := [⟨lit "run", List.replicate 64 0x30, 1, .int (.int 0o555)⟩]

theorem scriptTree_plain : scriptTree.Plain ∧ scriptTree.Utf8 := by
  unfold FileTree.Plain FileTree.Utf8
  decide

theorem script_verifies : InstallVerifies (oneManifest scriptManifest) {} scriptTree (lit "python") [] := by
  refine ((images_verify_iff (oneManifest_lawful scriptManifest)).1 {} scriptTree (lit "python") [] .empty
    scriptTree_plain.2 (by decide) fun staged hstaged => ?_).2 ⟨scriptTree_plain.1, fun p hp => ?_, by decide, rfl⟩
  · obtain ⟨sbomBytes, -, hmanifest⟩ := (stageImage_ok hstaged).manifest
    rw [hmanifest]
    rfl
  · simp [scriptTree] at hp

/-- A tree with an empty directory. -/
def emptyDirectoryTree : FileTree where
  entries := [([lit "data"], .directory)]
  keyed := by decide
  named := by decide
  closed := by decide

def emptyDirectoryManifest : ImageManifest Int where
  name := lit "python"
  sbomSha256 := List.replicate 64 0x30
  directories := [lit "data"]
  rootfs := []

theorem emptyDirectoryTree_plain : emptyDirectoryTree.Plain ∧ emptyDirectoryTree.Utf8 := by
  unfold FileTree.Plain FileTree.Utf8
  decide

/-- A tree with an empty directory is installed and does not verify. -/
theorem empty_directory_refused : emptyDirectoryTree.Plain ∧ emptyDirectoryTree.Utf8 ∧
    (oneManifest emptyDirectoryManifest).Lawful (· = emptyDirectoryManifest) ∧
    (∃ s, install (oneManifest emptyDirectoryManifest) {} emptyDirectoryTree (lit "python") [] =
      .ok (lit "sha256:" ++ List.replicate 64 0x30, s)) ∧
    ¬InstallVerifies (oneManifest emptyDirectoryManifest) {} emptyDirectoryTree (lit "python") [] := by
  obtain ⟨hplain, hutf8⟩ := emptyDirectoryTree_plain
  refine ⟨hplain, hutf8, oneManifest_lawful _, ⟨_, rfl⟩, fun h => ?_⟩
  have hfilled := ((installVerifies_iff (oneManifest_lawful emptyDirectoryManifest) .empty hplain hutf8 (by decide)
    fun staged hstaged => ?_).1 h).1
  · obtain ⟨path, content, mode, hfile, -⟩ := hfilled [lit "data"] (by simp [emptyDirectoryTree])
    simp [emptyDirectoryTree] at hfile
  · obtain ⟨sbomBytes, -, hmanifest⟩ := (stageImage_ok hstaged).manifest
    rw [hmanifest]
    rfl

end MilpbookLM.Execution
