/-
What collecting the outputs of a run does to the quarantine. Every refusal takes back what
was done (`discard_underway`), but what is raised otherwise is caught nowhere: a path with
no encoding or a NUL in it, a quarantine name that is too long, a directory that is there
already. So collecting either gathers every output or leaves all as it was exactly where
none of these is come to (`collect_iff`).
-/
import MilpbookLM.Execution.Outputs
import MilpbookLM.Lib.Outcomes

namespace MilpbookLM.Execution

open Blocks PosixPath

/-! ## Names -/

/-- The number in front of a quarantine name. -/
def paddedIndex (index : Nat) : List Char := (toString index).toList.leftpad 3 '0'

theorem paddedIndex_value (index : Nat) : Nat.ofDigitChars 10 (paddedIndex index) 0 = index := by
  rw [paddedIndex, List.leftpad, Nat.ofDigitChars_append, Nat.ofDigitChars_replicate_zero, Nat.mul_zero,
    Nat.toString_eq_ofList_toDigits, String.toList_ofList]
  exact Nat.ofDigitChars_ten_toDigits

theorem paddedIndex_digits (index : Nat) : ∀ c ∈ PyStr.ofText (paddedIndex index), c ≠ 0x2D := by
  intro c hc
  obtain ⟨d, hd, rfl⟩ := List.mem_map.1 hc
  have hdigit : d.isDigit = true := by
    rcases List.mem_append.1 hd with hd | hd
    · rw [List.eq_of_mem_replicate hd]
      decide
    · rw [Nat.toString_eq_ofList_toDigits, String.toList_ofList] at hd
      exact Nat.isDigit_of_mem_toDigits (by decide) (by decide) hd
  intro hdash
  have hle := (Char.isDigit_iff_toNat.1 hdigit).1
  have hzero : '0'.toNat = 48 := rfl
  omega

/-- **No two quarantine names of a run are the same.** -/
theorem targetName_inj {i j : Nat} {name name' : PyStr} (h : targetName i name = targetName j name') : i = j := by
  have hfront : ∀ (k : Nat) (n : PyStr), (targetName k n).takeWhile (· ≠ 0x2D) = PyStr.ofText (paddedIndex k) := by
    intro k n
    have hname : targetName k n = PyStr.ofText (paddedIndex k) ++ (0x2D :: n) := List.append_assoc ..
    rw [hname, List.takeWhile_append_of_pos fun c hc => decide_eq_true (paddedIndex_digits k c hc)]
    simp
  have htext := (hfront i name).symm.trans ((congrArg _ h).trans (hfront j name'))
  have hpad : paddedIndex i = paddedIndex j := List.map_injective_iff.2 (fun a b hab => Char.toNat_inj.1 hab) htext
  rw [← paddedIndex_value i, hpad, paddedIndex_value]

/-! ## Hashing -/

theorem Hashed.add_take {content chunk : Bytes} :
    Hashed.add ⟨content, content.length, content.take sniffSampleBytes⟩ chunk =
      ⟨content ++ chunk, (content ++ chunk).length, (content ++ chunk).take sniffSampleBytes⟩ := by
  simp only [Hashed.add, List.length_append, Hashed.mk.injEq, true_and]
  rw [List.length_take, List.take_append]
  split
  · next hshort =>
    rw [Nat.min_eq_right (by omega)]
  · next hlong =>
    rw [Nat.sub_eq_zero_of_le (by omega), List.take_zero, List.append_nil]

/-- **What is hashed in blocks is the content.** -/
theorem hashed_blocks (content : Bytes) :
    (blocks outputChunk content).foldl Hashed.add {} =
      ⟨content, content.length, content.take sniffSampleBytes⟩ := by
  have hfold : ∀ (chunks : List Bytes) (before : Bytes),
      chunks.foldl Hashed.add ⟨before, before.length, before.take sniffSampleBytes⟩ =
        ⟨before ++ chunks.flatten, (before ++ chunks.flatten).length,
          (before ++ chunks.flatten).take sniffSampleBytes⟩ := by
    intro chunks
    induction chunks with
    | nil =>
      intro before
      simp
    | cons chunk chunks ih =>
      intro before
      rw [List.foldl_cons, Hashed.add_take, ih, List.flatten_cons, List.append_assoc]
  have hall := hfold (blocks outputChunk content) []
  rw [flatten_blocks (by decide), List.nil_append] at hall
  exact hall

/-! ## A run under way -/

namespace Collector

/-- What was there before, and the directory of a run. -/
def underway (s : Collector) (dir : PyStr) (files : List QuarantineFile) (records : List QuarantineRecord)
    (next : Nat) : Collector where
  dirs := s.dirs ++ [⟨dir, s.nextInode, files⟩]
  records := s.records ++ records
  directories := s.directories ++ [(dir, s.nextInode)]
  nextInode := next

/-- Neither the quarantine nor the tables know of the directory. -/
structure Absent (s : Collector) (dir : PyStr) : Prop where
  dirs : ∀ d ∈ s.dirs, d.name ≠ dir
  records : ∀ r ∈ s.records, r.dir ≠ dir
  directories : ∀ e ∈ s.directories, e.1 ≠ dir

/-- The records are those of the files. -/
def Recorded (dir : PyStr) (files : List QuarantineFile) (records : List QuarantineRecord) : Prop :=
  records.map (fun r => (r.dir, r.name)) = files.map fun file => (dir, file.name)

variable {s : Collector} {dir name : PyStr} {files : List QuarantineFile} {records : List QuarantineRecord} {next : Nat}

theorem makeDirectory_eq (h : s.Absent dir) : s.makeDirectory dir = s.underway dir [] [] (s.nextInode + 1) := by
  have hdirectories : s.directories.filter (·.1 ≠ dir) = s.directories :=
    List.filter_eq_self.2 fun e he => decide_eq_true (h.directories e he)
  rw [makeDirectory, hdirectories]
  simp [underway]

/-- A change to the directory is one to the last. -/
theorem map_dirs (h : s.Absent dir) (f : QuarantineDir → QuarantineDir) (d : QuarantineDir) (hd : d.name = dir) :
    (s.dirs ++ [d]).map (fun d => if d.name = dir then f d else d) = s.dirs ++ [f d] := by
  have hkept : s.dirs.map (fun d => if d.name = dir then f d else d) = s.dirs := by
    refine (List.map_congr_left fun d hd => ?_).trans (List.map_id _)
    rw [if_neg (h.dirs d hd)]
    rfl
  rw [List.map_append, hkept, List.map_singleton, if_pos hd]

theorem copyQuarantine_underway (h : s.Absent dir) {bytes content : Bytes} (hname : fsencode name = some bytes)
    (hlength : bytes.length ≤ nameMax) (hnew : ∀ file ∈ files, file.name ≠ name) :
    (s.underway dir files records next).copyQuarantine dir name content =
      .ok (s.underway dir (files ++ [⟨name, next, content⟩]) records (next + 1)) := by
  have hfree : ((s.underway dir files records next).dirs.any fun d =>
      decide (d.name = dir) && d.files.any (·.name = name)) = false := by
    rw [List.any_eq_false]
    intro d hd hany
    simp only [Bool.and_eq_true, decide_eq_true_eq, List.any_eq_true] at hany
    obtain ⟨hdir, file, hfile, hsame⟩ := hany
    rcases List.mem_append.1 hd with hd | hd
    · exact h.dirs d hd hdir
    · rw [List.mem_singleton.1 hd] at hfile
      exact hnew file hfile hsame
  simp only [copyQuarantine, hname, if_neg (Nat.not_lt.2 hlength)]
  rw [hfree, if_neg Bool.false_ne_true, flatten_blocks (by decide)]
  simp only [underway]
  rw [map_dirs h _ _ rfl]

theorem copyQuarantine_unfit {content : Bytes} (h : ¬ ∃ bytes, fsencode name = some bytes ∧ bytes.length ≤ nameMax) :
    ∃ e, s.copyQuarantine dir name content = .error (.other e) := by
  rw [copyQuarantine]
  split
  · exact ⟨_, rfl⟩
  · next bytes hbytes =>
    rw [if_pos (Nat.lt_of_not_le fun hle => h ⟨bytes, hbytes, hle⟩)]
    exact ⟨_, rfl⟩

theorem putRecord_underway (h : s.Absent dir) {record : QuarantineRecord} (hdir : record.dir = dir)
    (hnew : ∀ r ∈ records, r.name ≠ record.name) :
    (s.underway dir files records next).putRecord record = s.underway dir files (records ++ [record]) next := by
  have hkept : (s.records ++ records).filter (fun r => ¬ (r.dir = record.dir ∧ r.name = record.name)) =
      s.records ++ records := by
    refine List.filter_eq_self.2 fun r hr => decide_eq_true fun hsame => ?_
    rcases List.mem_append.1 hr with hr | hr
    · exact h.records r hr (hsame.1.trans hdir)
    · exact hnew r hr hsame.2
  simp only [putRecord, underway, hkept, List.append_assoc]

/-- **A refused run leaves nothing behind.** -/
theorem discard_underway (h : s.Absent dir) (hrecorded : Recorded dir files records) :
    (s.underway dir files records next).discardDirectory dir = (.ok (), { s with nextInode := next }) := by
  have hfiles : files.filter (fun file => !(s.records ++ records).any fun r => r.dir = dir && r.name = file.name) =
      [] := by
    refine List.filter_eq_nil_iff.2 fun file hfile => ?_
    have hmem : (dir, file.name) ∈ records.map fun r => (r.dir, r.name) :=
      hrecorded ▸ List.mem_map_of_mem (f := fun file : QuarantineFile => (dir, file.name)) hfile
    obtain ⟨r, hr, he⟩ := List.mem_map.1 hmem
    simp only [Prod.mk.injEq] at he
    have hany : ((s.records ++ records).any fun r => r.dir = dir && r.name = file.name) = true :=
      List.any_eq_true.2 ⟨r, List.mem_append_right _ hr, by simp [he]⟩
    simp [hany]
  have hrecords : (s.records ++ records).filter (·.dir ≠ dir) = s.records := by
    rw [List.filter_append, List.filter_eq_self.2 fun r hr => decide_eq_true (h.records r hr),
      List.filter_eq_nil_iff.2 fun r hr => ?_, List.append_nil]
    have hmem : (r.dir, r.name) ∈ files.map fun file => (dir, file.name) :=
      hrecorded ▸ List.mem_map_of_mem (f := fun r : QuarantineRecord => (r.dir, r.name)) hr
    obtain ⟨file, -, he⟩ := List.mem_map.1 hmem
    simp only [Prod.mk.injEq] at he
    simp [he.1.symm]
  have hunlinked : (s.underway dir files records next).unlinkRecorded dir = s.underway dir [] [] next := by
    simp only [unlinkRecorded, underway, hrecords, List.append_nil]
    rw [map_dirs h _ _ rfl]
    simp only [hfiles]
  have hdirectory : (s.directories ++ [(dir, s.nextInode)]).find? (·.1 = dir) = some (dir, s.nextInode) := by
    rw [List.find?_append, List.find?_eq_none.2 fun e he => by simpa using h.directories e he]
    simp
  have hdir : (s.dirs ++ [(⟨dir, s.nextInode, []⟩ : QuarantineDir)]).find? (·.name = dir) =
      some ⟨dir, s.nextInode, []⟩ := by
    rw [List.find?_append, List.find?_eq_none.2 fun d hd => by simpa using h.dirs d hd]
    simp
  have hdirs : (s.dirs ++ [(⟨dir, s.nextInode, []⟩ : QuarantineDir)]).filter (·.name ≠ dir) = s.dirs := by
    rw [List.filter_append, List.filter_eq_self.2 fun d hd => decide_eq_true (h.dirs d hd)]
    simp
  have hdirectories : (s.directories ++ [(dir, s.nextInode)]).filter (·.1 ≠ dir) = s.directories := by
    rw [List.filter_append, List.filter_eq_self.2 fun e he => decide_eq_true (h.directories e he)]
    simp
  rw [discardDirectory, hunlinked, removeEmptyDirectory]
  simp only [underway, hdirectory, hdir]
  rw [if_neg (by simp), if_neg (by simp), hdirs, hdirectories, List.append_nil]

end Collector

/-! ## One output -/

/-- An execution of the collector: its libraries, the tree, and the limits. -/
structure Collection where
  platform : OutputPlatform
  tree : OutputTree
  limits : OutputLimits

namespace Collection

variable (c : Collection)

/-- The path of a declared output has an encoding, and no NUL in it. -/
def Encodes (entry : DeclaredOutput) : Prop :=
  ∀ path, validateDeclaredPath c.platform entry.relativePath = .ok path →
    ∃ names, path.names.mapM fsencode = some names ∧ ∀ name ∈ names, 0 ∉ name

/-- An output that nothing is held against, after so many bytes of others: its path and its content. -/
structure Qualifies (total : Nat) (entry : DeclaredOutput) (path : Path) (content : Bytes) : Prop where
  declared : validateDeclaredPath c.platform entry.relativePath = .ok path
  opened : openSource c.tree path = .ok (.ok (.regular content))
  media : c.platform.sniffer.sniffMediaType (content.take sniffSampleBytes) ≠ none
  size : (content.length : Int) ≤ min entry.maxBytes.toInt c.limits.maxOutputFileBytes
  total : ((total + content.length : Nat) : Int) ≤ c.limits.maxTotalOutputBytes

/-- The quarantine name of the output at `index` is one that a file can have. -/
def NameFits (index : Nat) (path : Path) : Prop :=
  ∃ bytes, fsencode (targetName index path.name) = some bytes ∧ bytes.length ≤ nameMax

/-- As long as the outputs before are gathered, each has a path with an encoding, and a name that fits once it is
gathered itself. -/
def Contained : Nat → Nat → List DeclaredOutput → Prop
  | _, _, [] => True
  | index, total, entry :: declared =>
    c.Encodes entry ∧ ∀ path content, c.Qualifies total entry path content →
      NameFits index path ∧ Contained (index + 1) (total + content.length) declared

/-- The answer for a qualified output, under its quarantine name. -/
def produced (dir : PyStr) (index : Nat) (entry : DeclaredOutput) (path : Path) (content : Bytes)
    (media : IdentifiedMedia) : ProducedOutput where
  declaredPath := entry.relativePath
  contentSha256 := c.platform.sha256 content
  sizeBytes := .int content.length
  sniffedMedia := lit media.value
  quarantinePath := c.platform.root ++ lit "/" ++ dir ++ lit "/" ++ targetName index path.name

variable {c} {s : Collector} {dir : PyStr} {files : List QuarantineFile} {records : List QuarantineRecord}
  {next total : Nat} {collected : List ProducedOutput} {entry : DeclaredOutput} {declared : List DeclaredOutput}
  {path : Path} {content : Bytes}

theorem validateAndHash_regular (h : openSource c.tree path = .ok (.ok (.regular content))) :
    validateAndHash c.platform c.tree path =
      match c.platform.sniffer.sniffMediaType (content.take sniffSampleBytes) with
      | none => refuse .outputPolicyViolation "output content type is not identifiable from its bytes"
      | some media => .ok (c.platform.sha256 content, content.length, lit media.value, content) := by
  cases hmedia : c.platform.sniffer.sniffMediaType (content.take sniffSampleBytes) <;>
    simp only [validateAndHash, h, hashed_blocks, hmedia]

theorem openSource_error (e : Raised) : openSource c.tree path = .error e →
    (∃ name, e = .other name) ∧ ¬ ∃ names, path.names.mapM fsencode = some names ∧ ∀ name ∈ names, 0 ∉ name := by
  intro h
  rw [openSource] at h
  split at h
  · next hnone =>
    cases h
    refine ⟨⟨_, rfl⟩, fun ⟨names, hnames, _⟩ => ?_⟩
    rw [hnone] at hnames
    cases hnames
  · next names hnames =>
    split at h
    · next hnul =>
      cases h
      refine ⟨⟨_, rfl⟩, fun ⟨names', hnames', hclean⟩ => ?_⟩
      rw [hnames] at hnames'
      cases hnames'
      obtain ⟨name, hmem, hzero⟩ := hnul
      exact hclean name hmem hzero
    · cases h

theorem openSource_ok {opened : Except String Opened} (h : openSource c.tree path = .ok opened) :
    ∃ names, path.names.mapM fsencode = some names ∧ ∀ name ∈ names, 0 ∉ name := by
  rw [openSource] at h
  split at h
  · cases h
  · next names hnames =>
    split at h
    · cases h
    · next hnul => exact ⟨names, hnames, fun name hmem hzero => hnul ⟨name, hmem, hzero⟩⟩

theorem validateDeclaredPath_error {relative : PyStr} {e : Raised}
    (h : validateDeclaredPath c.platform relative = .error e) : ∃ code detail, e = .refused code detail := by
  simp only [validateDeclaredPath] at h
  split at h
  · cases h
    exact ⟨_, _, rfl⟩
  · split at h
    · cases h
      exact ⟨_, _, rfl⟩
    · cases h

/-- What hashing an output comes to. -/
theorem validateAndHash_cases (path : Path) :
    (∃ name, validateAndHash c.platform c.tree path = .error (.other name) ∧
      ¬ ∃ names, path.names.mapM fsencode = some names ∧ ∀ name ∈ names, 0 ∉ name) ∨
    ((∃ names, path.names.mapM fsencode = some names ∧ ∀ name ∈ names, 0 ∉ name) ∧
      ((∃ code detail, validateAndHash c.platform c.tree path = .error (.refused code detail) ∧
          ∀ content, openSource c.tree path = .ok (.ok (.regular content)) →
            c.platform.sniffer.sniffMediaType (content.take sniffSampleBytes) = none) ∨
        ∃ content media, openSource c.tree path = .ok (.ok (.regular content)) ∧
          c.platform.sniffer.sniffMediaType (content.take sniffSampleBytes) = some media ∧
          validateAndHash c.platform c.tree path =
            .ok (c.platform.sha256 content, content.length, lit media.value, content))) := by
  cases hopen : openSource c.tree path with
  | error e =>
    obtain ⟨⟨name, rfl⟩, hbad⟩ := openSource_error e hopen
    exact .inl ⟨name, by rw [validateAndHash, hopen], hbad⟩
  | ok opened =>
    refine .inr ⟨openSource_ok hopen, ?_⟩
    cases opened with
    | error e =>
      refine .inl ⟨_, _, by rw [validateAndHash, hopen], fun content hcontent => ?_⟩
      cases hcontent
    | ok opened =>
      cases opened with
      | other =>
        refine .inl ⟨_, _, by rw [validateAndHash, hopen]; rfl, fun content hcontent => ?_⟩
        cases hcontent
      | regular content =>
        cases hmedia : c.platform.sniffer.sniffMediaType (content.take sniffSampleBytes) with
        | none =>
          refine .inl ⟨_, _, by rw [validateAndHash_regular hopen, hmedia]; rfl, fun content' hcontent => ?_⟩
          cases hcontent
          exact hmedia
        | some media => exact .inr ⟨content, media, rfl, hmedia, by rw [validateAndHash_regular hopen, hmedia]⟩

/-- A qualified output is gathered, unless its name does not fit. -/
theorem collectFrom_qualified (h : s.Absent dir) (hrecorded : Collector.Recorded dir files records)
    (hnumbered : ∀ file ∈ files, ∃ i < collected.length, ∃ name, file.name = targetName i name)
    {media : IdentifiedMedia} (hq : c.Qualifies total entry path content)
    (hmedia : c.platform.sniffer.sniffMediaType (content.take sniffSampleBytes) = some media) :
    let run := s.underway dir files records next
    let r := run.collectFrom c.platform c.tree c.limits dir collected total (entry :: declared)
    (¬ NameFits collected.length path ∧ ∃ name, r = (.error (.other name), run)) ∨
      (NameFits collected.length path ∧ ∃ record : QuarantineRecord, record.dir = dir ∧
        record.name = targetName collected.length path.name ∧
        r = (s.underway dir (files ++ [⟨targetName collected.length path.name, next, content⟩]) (records ++ [record])
            (next + 1)).collectFrom c.platform c.tree c.limits dir
          (collected ++ [c.produced dir collected.length entry path content media]) (total + content.length)
          declared) := by
  intro run r
  have hpath := hq.declared
  have hhash := validateAndHash_regular hq.opened
  simp only [hmedia] at hhash
  have hsize : ¬ min entry.maxBytes.toInt c.limits.maxOutputFileBytes < content.length := Int.not_lt.2 hq.size
  have htotal : ¬ c.limits.maxTotalOutputBytes < (total + content.length : Nat) := Int.not_lt.2 hq.total
  by_cases hfits : NameFits collected.length path
  · refine .inr ⟨hfits, ⟨dir, targetName collected.length path.name, next, entry.relativePath,
      c.platform.sha256 content, content.length⟩, rfl, rfl, ?_⟩
    obtain ⟨bytes, hbytes, hlength⟩ := hfits
    have hnew : ∀ file ∈ files, file.name ≠ targetName collected.length path.name := by
      intro file hfile he
      obtain ⟨i, hi, name, hname⟩ := hnumbered file hfile
      have hindex := targetName_inj (hname.symm.trans he)
      omega
    have hcopy := @Collector.copyQuarantine_underway s dir _ files records next h bytes content hbytes hlength hnew
    simp only [r, run, Collector.collectFrom, hpath, hhash, if_neg hsize, if_neg htotal, hcopy]
    rw [Collector.putRecord_underway h rfl]
    · rfl
    · intro record hr he
      have hmem : (record.dir, record.name) ∈ files.map fun file => (dir, file.name) :=
        hrecorded ▸ List.mem_map_of_mem (f := fun r : QuarantineRecord => (r.dir, r.name)) hr
      obtain ⟨file, hfile, hsame⟩ := List.mem_map.1 hmem
      exact hnew file hfile ((Prod.mk.inj hsame).2.trans he)
  · have hunfit : ∃ name, run.copyQuarantine dir (targetName collected.length path.name) content =
        .error (.other name) := Collector.copyQuarantine_unfit hfits
    obtain ⟨name, hcopy⟩ := hunfit
    refine .inl ⟨hfits, name, ?_⟩
    simp only [r, Collector.collectFrom, hpath, hhash, if_neg hsize, if_neg htotal, hcopy]

/-- What one turn of the loop comes to. -/
theorem collectFrom_cons (h : s.Absent dir) (hrecorded : Collector.Recorded dir files records)
    (hnumbered : ∀ file ∈ files, ∃ i < collected.length, ∃ name, file.name = targetName i name) :
    let run := s.underway dir files records next
    let r := run.collectFrom c.platform c.tree c.limits dir collected total (entry :: declared)
    (¬ c.Encodes entry ∧ ∃ name, r = (.error (.other name), run)) ∨
    (c.Encodes entry ∧ (∀ path content, ¬ c.Qualifies total entry path content) ∧
      ∃ code detail, r = (.error (.refused code detail), run)) ∨
    (c.Encodes entry ∧ ∃ path content media, c.Qualifies total entry path content ∧
      c.platform.sniffer.sniffMediaType (content.take sniffSampleBytes) = some media ∧
      ((¬ NameFits collected.length path ∧ ∃ name, r = (.error (.other name), run)) ∨
        (NameFits collected.length path ∧ ∃ record : QuarantineRecord, record.dir = dir ∧
          record.name = targetName collected.length path.name ∧
          r = (s.underway dir (files ++ [⟨targetName collected.length path.name, next, content⟩]) (records ++ [record])
              (next + 1)).collectFrom c.platform c.tree c.limits dir
            (collected ++ [c.produced dir collected.length entry path content media]) (total + content.length)
            declared))) := by
  intro run r
  cases hpath : validateDeclaredPath c.platform entry.relativePath with
  | error e =>
    obtain ⟨code, detail, rfl⟩ := validateDeclaredPath_error hpath
    refine .inr (.inl ⟨fun path hok => ?_, fun path content hq => ?_, code, detail, ?_⟩)
    · rw [hpath] at hok
      cases hok
    · have hok := hq.declared
      rw [hpath] at hok
      cases hok
    · simp only [r, Collector.collectFrom, hpath]
  | ok path =>
    have hsame : ∀ {path' : Path}, validateDeclaredPath c.platform entry.relativePath = .ok path' → path' = path := by
      intro path' hok
      rw [hpath] at hok
      exact (Except.ok.inj hok).symm
    rcases validateAndHash_cases (c := c) path with ⟨name, hhash, hbad⟩ | ⟨hencodes, hhash⟩
    · refine .inl ⟨fun henc => hbad (henc path hpath), name, ?_⟩
      simp only [r, Collector.collectFrom, hpath, hhash]
    · have hencodes : c.Encodes entry := fun path' hok => hsame hok ▸ hencodes
      rcases hhash with ⟨code, detail, hhash, hnone⟩ | ⟨content, media, hopen, hmedia, hhash⟩
      · refine .inr (.inl ⟨hencodes, fun path' content hq => ?_, code, detail, ?_⟩)
        · cases hsame hq.declared
          exact hq.media (hnone content hq.opened)
        · simp only [r, Collector.collectFrom, hpath, hhash]
      · have hunique : ∀ {path' : Path} {content' : Bytes}, c.Qualifies total entry path' content' →
            content' = content := by
          intro path' content' hq
          have hopen' := hq.opened
          rw [hsame hq.declared, hopen] at hopen'
          cases hopen'
          rfl
        by_cases hsize : min entry.maxBytes.toInt c.limits.maxOutputFileBytes < content.length
        · refine .inr (.inl ⟨hencodes, fun path' content' hq => ?_, .outputPolicyViolation,
            lit "output " ++ entry.relativePath ++ lit " exceeds its declared size cap", ?_⟩)
          · have hle := hq.size
            rw [hunique hq] at hle
            omega
          · simp only [r, Collector.collectFrom, hpath, hhash, if_pos hsize]
        · by_cases htotal : c.limits.maxTotalOutputBytes < (total + content.length : Nat)
          · refine .inr (.inl ⟨hencodes, fun path' content' hq => ?_, .outputPolicyViolation,
              lit "declared outputs exceed the total output quota", ?_⟩)
            · have hle := hq.total
              rw [hunique hq] at hle
              omega
            · simp only [r, Collector.collectFrom, hpath, hhash, if_neg hsize, if_pos htotal]
              rfl
          · have hqualifies : c.Qualifies total entry path content :=
              ⟨hpath, hopen, by rw [hmedia]; simp, by omega, by omega⟩
            exact .inr (.inr ⟨hencodes, path, content, media, hqualifies, hmedia,
              collectFrom_qualified h hrecorded hnumbered hqualifies hmedia⟩)

/-! ## The run -/

/-- A declared output and what was produced for it: the file in quarantine has the bytes of its source. -/
structure Gathered (c : Collection) (dir : PyStr) (files : List QuarantineFile) (entry : DeclaredOutput)
    (output : ProducedOutput) : Prop where
  source : ∃ path content media file, validateDeclaredPath c.platform entry.relativePath = .ok path ∧
    openSource c.tree path = .ok (.ok (.regular content)) ∧
    output.declaredPath = entry.relativePath ∧ output.contentSha256 = c.platform.sha256 content ∧
    output.sizeBytes = .int content.length ∧ output.sniffedMedia = lit (IdentifiedMedia.value media) ∧
    file ∈ files ∧ output.quarantinePath = c.platform.root ++ lit "/" ++ dir ++ lit "/" ++ file.name ∧
    file.content = content
  size : output.sizeBytes.toInt ≤ min entry.maxBytes.toInt c.limits.maxOutputFileBytes

/-- What has been gathered so far. -/
structure Progress (c : Collection) (dir : PyStr) (done : List DeclaredOutput) (collected : List ProducedOutput)
    (total : Nat) (files : List QuarantineFile) (records : List QuarantineRecord) : Prop where
  recorded : Collector.Recorded dir files records
  each : List.Forall₂ (c.Gathered dir files) done collected
  numbered : ∀ file ∈ files, ∃ i < collected.length, ∃ name, file.name = targetName i name
  paths : ∀ output ∈ collected, ∃ i < collected.length, ∃ name,
    output.quarantinePath = c.platform.root ++ lit "/" ++ dir ++ lit "/" ++ targetName i name
  apart : (collected.map (·.quarantinePath)).Nodup
  sum : (collected.map (·.sizeBytes.toInt)).sum = total
  within : collected ≠ [] → (total : Int) ≤ c.limits.maxTotalOutputBytes

variable {done : List DeclaredOutput}

theorem Gathered.mono {files' : List QuarantineFile} {output : ProducedOutput} (h : c.Gathered dir files entry output)
    (hsub : files ⊆ files') : c.Gathered dir files' entry output := by
  obtain ⟨path, content, media, file, hpath, hopen, hdeclared, hsha, hsize, hmedia, hfile, hplace, hcontent⟩ := h.source
  refine ⟨⟨path, content, media, file, hpath, hopen, hdeclared, hsha, hsize, hmedia, ?_, hplace, hcontent⟩, h.size⟩
  exact hsub hfile

theorem Progress.start (c : Collection) (dir : PyStr) : c.Progress dir [] [] 0 [] [] where
  recorded := rfl
  each := .nil
  numbered := by simp
  paths := by simp
  apart := .nil
  sum := rfl
  within := fun h => absurd rfl h

/-- One more output. -/
theorem Progress.add (h : c.Progress dir done collected total files records) {media : IdentifiedMedia}
    (hq : c.Qualifies total entry path content) {record : QuarantineRecord} (hdir : record.dir = dir)
    (hname : record.name = targetName collected.length path.name) (inode : Nat) :
    c.Progress dir (done ++ [entry]) (collected ++ [c.produced dir collected.length entry path content media])
      (total + content.length) (files ++ [⟨targetName collected.length path.name, inode, content⟩])
      (records ++ [record]) where
  recorded := by
    have hrecorded := h.recorded
    rw [Collector.Recorded] at hrecorded ⊢
    simp [hrecorded, hdir, hname]
  each := by
    refine List.rel_append (h.each.imp fun _ _ hg => hg.mono (List.subset_append_left ..)) (.cons ⟨?_, hq.size⟩ .nil)
    exact ⟨path, content, media, _, hq.declared, hq.opened, rfl, rfl, rfl, rfl,
      List.mem_append_right _ List.mem_cons_self, rfl, rfl⟩
  numbered := by
    intro file hfile
    rw [List.length_append, List.length_singleton]
    rcases List.mem_append.1 hfile with hfile | hfile
    · obtain ⟨i, hi, name, hn⟩ := h.numbered file hfile
      exact ⟨i, Nat.lt_succ_of_lt hi, name, hn⟩
    · exact ⟨collected.length, Nat.lt_succ_self _, path.name, by rw [List.mem_singleton.1 hfile]⟩
  paths := by
    intro output houtput
    rw [List.length_append, List.length_singleton]
    rcases List.mem_append.1 houtput with houtput | houtput
    · obtain ⟨i, hi, name, hn⟩ := h.paths output houtput
      exact ⟨i, Nat.lt_succ_of_lt hi, name, hn⟩
    · exact ⟨collected.length, Nat.lt_succ_self _, path.name, by rw [List.mem_singleton.1 houtput]; rfl⟩
  apart := by
    rw [List.map_append, List.map_singleton]
    refine h.apart.append (List.nodup_singleton _) fun place hp hp' => ?_
    obtain ⟨output, houtput, rfl⟩ := List.mem_map.1 hp
    obtain ⟨i, hi, name, hn⟩ := h.paths output houtput
    rw [List.mem_singleton.1 hp', produced] at hn
    have hindex := targetName_inj (List.append_cancel_left hn)
    omega
  sum := by
    rw [List.map_append, List.sum_append, h.sum]
    simp [produced, PyInt.toInt]
  within := fun _ => hq.total

/-- **What the loop leaves**: a directory of the run with its files and their records, all of them gathered where it
comes to its end. -/
theorem collectFrom_progress (next : Nat) (declared : List DeclaredOutput) (h : s.Absent dir)
    (hp : c.Progress dir done collected total files records) :
    ∃ files' records' next' done' collected' total',
      c.Progress dir done' collected' total' files' records' ∧
      ((s.underway dir files records next).collectFrom c.platform c.tree c.limits dir collected total declared).2 =
        s.underway dir files' records' next' ∧
      ∀ outputs, ((s.underway dir files records next).collectFrom c.platform c.tree c.limits dir collected total
        declared).1 = .ok outputs → done' = done ++ declared ∧ outputs = collected' := by
  induction declared generalizing done collected total files records next with
  | nil =>
    refine ⟨files, records, next, done, collected, total, hp, rfl, fun outputs hok => ⟨(List.append_nil _).symm, ?_⟩⟩
    exact (Except.ok.inj hok).symm
  | cons entry declared ih =>
    have hstop : ∀ e : Raised, ∃ files' records' next' done' collected' total',
        c.Progress dir done' collected' total' files' records' ∧
        ((Except.error e : Except Raised (List ProducedOutput)), s.underway dir files records next).2 =
          s.underway dir files' records' next' ∧
        ∀ outputs, ((Except.error e : Except Raised (List ProducedOutput)), s.underway dir files records next).1 =
          .ok outputs → done' = done ++ entry :: declared ∧ outputs = collected' :=
      fun e => ⟨files, records, next, done, collected, total, hp, rfl, fun outputs hok => by cases hok⟩
    rcases @collectFrom_cons c s dir files records next total collected entry declared h hp.recorded hp.numbered with
      ⟨-, name, hr⟩ | ⟨-, -, code, detail, hr⟩ | ⟨-, path, content, media, hq, -, hr⟩
    · rw [hr]
      exact hstop _
    · rw [hr]
      exact hstop _
    · rcases hr with ⟨-, name, hr⟩ | ⟨-, record, hdir, hname, hr⟩
      · rw [hr]
        exact hstop _
      · rw [hr]
        obtain ⟨files', records', next', done', collected', total', hp', hstate, hend⟩ :=
          ih (next + 1) (hp.add hq hdir hname next)
        refine ⟨files', records', next', done', collected', total', hp', hstate, fun outputs hok => ?_⟩
        obtain ⟨hdone, houtputs⟩ := hend outputs hok
        exact ⟨by rw [hdone, List.append_assoc]; rfl, houtputs⟩

/-- **No other exception leaves the loop** exactly where none of its outputs is the occasion of one. -/
theorem collectFrom_contained (next : Nat) (declared : List DeclaredOutput) (h : s.Absent dir)
    (hp : c.Progress dir done collected total files records) :
    (∀ name, ((s.underway dir files records next).collectFrom c.platform c.tree c.limits dir collected total
      declared).1 ≠ .error (.other name)) ↔ c.Contained collected.length total declared := by
  induction declared generalizing done collected total files records next with
  | nil => simp [Collector.collectFrom, Contained]
  | cons entry declared ih =>
    rw [Contained]
    rcases @collectFrom_cons c s dir files records next total collected entry declared h hp.recorded hp.numbered with
      ⟨hbad, name, hr⟩ | ⟨hencodes, hnone, code, detail, hr⟩ | ⟨hencodes, path, content, media, hq, -, hr⟩
    · rw [hr]
      exact ⟨fun hno => absurd rfl (hno name), fun hall => absurd hall.1 hbad⟩
    · rw [hr]
      exact ⟨fun _ => ⟨hencodes, fun path content hq => absurd hq (hnone path content)⟩, fun _ name he => by cases he⟩
    · have hunique : ∀ path' content', c.Qualifies total entry path' content' → path' = path ∧ content' = content := by
        intro path' content' hq'
        have hpath : path' = path := by
          have hdeclared := hq'.declared
          rw [hq.declared] at hdeclared
          exact (Except.ok.inj hdeclared).symm
        refine ⟨hpath, ?_⟩
        have hopened := hq'.opened
        rw [hpath, hq.opened] at hopened
        cases hopened
        rfl
      rcases hr with ⟨hunfit, name, hr⟩ | ⟨hfits, record, hdir, hname, hr⟩
      · rw [hr]
        exact ⟨fun hno => absurd rfl (hno name), fun hall => absurd (hall.2 path content hq).1 hunfit⟩
      · rw [hr, ih (next + 1) (hp.add hq hdir hname next), List.length_append, List.length_singleton]
        refine ⟨fun hrest => ⟨hencodes, fun path' content' hq' => ?_⟩, fun hall => (hall.2 path content hq).2⟩
        obtain ⟨rfl, rfl⟩ := hunique path' content' hq'
        exact ⟨hfits, hrest⟩

end Collection

/-! ## Any collector -/

namespace Collector

variable {s : Collector} {dir : PyStr} {files : List QuarantineFile} {records : List QuarantineRecord} {next : Nat}

/-- What the tables hold is there. -/
structure Sound (s : Collector) : Prop where
  keyed : (s.dirs.map (·.name)).Nodup
  records : ∀ r ∈ s.records, ∃ d ∈ s.dirs, d.name = r.dir ∧ ∃ file ∈ d.files, file.name = r.name
  directories : ∀ e ∈ s.directories, ∃ d ∈ s.dirs, d.name = e.1

theorem Sound.absent (h : s.Sound) (hdir : ∀ d ∈ s.dirs, d.name ≠ dir) : s.Absent dir := by
  refine ⟨hdir, fun r hr he => ?_, fun e he hsame => ?_⟩
  · obtain ⟨d, hd, hname, -⟩ := h.records r hr
    exact hdir d hd (hname.trans he)
  · obtain ⟨d, hd, hname⟩ := h.directories e he
    exact hdir d hd (hname.trans hsame)

theorem Sound.underway (h : s.Sound) (habsent : s.Absent dir) (hrecorded : Recorded dir files records) :
    (s.underway dir files records next).Sound := by
  refine ⟨?_, fun r hr => ?_, fun e he => ?_⟩
  · simp only [Collector.underway, List.map_append, List.map_singleton]
    refine h.keyed.append (List.nodup_singleton _) fun name hn hn' => ?_
    obtain ⟨d, hd, rfl⟩ := List.mem_map.1 hn
    exact habsent.dirs d hd (List.mem_singleton.1 hn')
  · rcases List.mem_append.1 hr with hr | hr
    · obtain ⟨d, hd, hfile⟩ := h.records r hr
      exact ⟨d, List.mem_append_left _ hd, hfile⟩
    · have hmem : (r.dir, r.name) ∈ files.map fun file => (dir, file.name) :=
        hrecorded ▸ List.mem_map_of_mem (f := fun r : QuarantineRecord => (r.dir, r.name)) hr
      obtain ⟨file, hfile, he⟩ := List.mem_map.1 hmem
      simp only [Prod.mk.injEq] at he
      exact ⟨_, List.mem_append_right _ List.mem_cons_self, he.1, file, hfile, he.2⟩
  · rcases List.mem_append.1 he with he | he
    · obtain ⟨d, hd, hname⟩ := h.directories e he
      exact ⟨d, List.mem_append_left _ hd, hname⟩
    · rw [List.mem_singleton.1 he]
      exact ⟨_, List.mem_append_right _ List.mem_cons_self, rfl⟩

theorem checkEntry_error {paths : List Path} (entry : List Bytes × EntryKind) (e : Raised)
    (h : checkEntry paths entry = .error e) : ∃ code detail, e = .refused code detail := by
  simp only [checkEntry] at h
  split at h
  · cases h
    exact ⟨_, _, rfl⟩
  · split at h
    · cases h
      exact ⟨_, _, rfl⟩
    · cases h

theorem validateOutputTree_error {c : Collection} {declared : List DeclaredOutput} {e : Raised}
    (h : validateOutputTree c.platform c.tree declared = .error e) : ∃ code detail, e = .refused code detail := by
  rw [validateOutputTree] at h
  cases hmap : declared.mapM fun entry => validateDeclaredPath c.platform entry.relativePath with
  | error e' =>
    rw [hmap] at h
    cases h
    exact Except.mapM_error (fun entry e he => Collection.validateDeclaredPath_error he) hmap
  | ok paths =>
    rw [hmap] at h
    by_cases hnodup : paths.Nodup
    · have hentries : c.tree.entries.forM (checkEntry paths) = .error e := by
        simpa [hnodup, bind, Except.bind] using h
      exact Except.forM_error checkEntry_error hentries
    · simp only [hnodup, bind, Except.bind, refuse, not_false_eq_true, if_true] at h
      cases h
      exact ⟨_, _, rfl⟩

/-- The outcomes of `collect`, once the outputs are validated and there are some. -/
theorem collect_run {c : Collection} {declared : List DeclaredOutput} {executionId : PyStr}
    (hid : isExecutionId executionId = true) (htree : validateOutputTree c.platform c.tree declared = .ok ())
    (hdeclared : declared ≠ []) (habsent : s.Absent (quarantineDir executionId)) :
    s.collect c.platform c.tree declared c.limits executionId =
      match (s.underway (quarantineDir executionId) [] [] (s.nextInode + 1)).collectFrom c.platform c.tree c.limits
        (quarantineDir executionId) [] 0 declared with
      | (.error (.refused code detail), s') => (.error (.refused code detail), { s with nextInode := s'.nextInode })
      | other => other := by
  have hdir : s.dirs.any (·.name = quarantineDir executionId) = false := by simpa using habsent.dirs
  obtain ⟨files, records, next, done, collected, total, hp, hstate, -⟩ :=
    Collection.collectFrom_progress (s.nextInode + 1) declared habsent
      (Collection.Progress.start c (quarantineDir executionId))
  simp only [collect, hid, htree, if_neg hdeclared, hdir, makeDirectory_eq habsent]
  rcases hrun : (s.underway (quarantineDir executionId) [] [] (s.nextInode + 1)).collectFrom c.platform c.tree c.limits
      (quarantineDir executionId) [] 0 declared with ⟨r, s'⟩
  rw [hrun] at hstate
  cases r with
  | ok outputs => rfl
  | error e =>
    cases e with
    | other name => rfl
    | refused code detail =>
      have hs' : s' = s.underway (quarantineDir executionId) files records next := hstate
      have hdiscard : s'.discardDirectory (quarantineDir executionId) =
          (.ok (), { s with nextInode := s'.nextInode }) := by
        rw [hs']
        exact discard_underway habsent hp.recorded
      simp only [hdiscard]
      rfl

/-- Where there is nothing to do, or what is declared is refused. -/
theorem collect_idle {c : Collection} {declared : List DeclaredOutput} {executionId : PyStr}
    (h : ¬ (isExecutionId executionId = true ∧ validateOutputTree c.platform c.tree declared = .ok () ∧
      declared ≠ [])) :
    (∃ code detail, s.collect c.platform c.tree declared c.limits executionId = (.error (.refused code detail), s)) ∨
      declared = [] ∧ s.collect c.platform c.tree declared c.limits executionId = (.ok [], s) := by
  rw [collect]
  by_cases hid : isExecutionId executionId = true
  · rw [hid]
    cases htree : validateOutputTree c.platform c.tree declared with
    | error e =>
      obtain ⟨code, detail, rfl⟩ := validateOutputTree_error htree
      exact .inl ⟨code, detail, rfl⟩
    | ok u =>
      have hnone : declared = [] := by_contra fun hne => h ⟨hid, htree, hne⟩
      exact .inr ⟨hnone, by simp [hnone]⟩
  · exact .inl ⟨.outputPolicyViolation, _, by simp [hid, refuse]; rfl⟩

/-- A directory that is there already. -/
theorem collect_taken {c : Collection} {declared : List DeclaredOutput} {executionId : PyStr}
    (hid : isExecutionId executionId = true) (htree : validateOutputTree c.platform c.tree declared = .ok ())
    (hdeclared : declared ≠ []) (htaken : ¬ ∀ d ∈ s.dirs, d.name ≠ quarantineDir executionId) :
    s.collect c.platform c.tree declared c.limits executionId = (.error (.other "FileExistsError"), s) := by
  have hdir : s.dirs.any (·.name = quarantineDir executionId) = true := by simpa using htaken
  simp only [collect, hid, htree, if_neg hdeclared, hdir]
  rfl

/-! ## What is kept -/

theorem Sound.collect (h : s.Sound) (c : Collection) (declared : List DeclaredOutput) (executionId : PyStr) :
    (s.collect c.platform c.tree declared c.limits executionId).2.Sound := by
  by_cases hrun : isExecutionId executionId = true ∧ validateOutputTree c.platform c.tree declared = .ok () ∧
      declared ≠ []
  · obtain ⟨hid, htree, hdeclared⟩ := hrun
    by_cases hdir : ∀ d ∈ s.dirs, d.name ≠ quarantineDir executionId
    · have habsent := h.absent hdir
      rw [collect_run hid htree hdeclared habsent]
      obtain ⟨files, records, next, done, collected, total, hp, hstate, -⟩ :=
        Collection.collectFrom_progress (s.nextInode + 1) declared habsent
          (Collection.Progress.start c (quarantineDir executionId))
      split
      · exact ⟨h.keyed, h.records, h.directories⟩
      · rw [hstate]
        exact h.underway habsent hp.recorded
    · rw [collect_taken hid htree hdeclared hdir]
      exact h
  · rcases collect_idle (s := s) hrun with ⟨code, detail, hr⟩ | ⟨-, hr⟩
    · rw [hr]
      exact h
    · rw [hr]
      exact h

theorem Sound.unlinkRecord (h : s.Sound) (r : QuarantineRecord) : (s.unlinkRecord r).Sound := by
  have hnames : (s.unlinkRecord r).dirs.map (·.name) = s.dirs.map (·.name) := by
    simp only [Collector.unlinkRecord, List.map_map]
    refine List.map_congr_left fun d _ => ?_
    simp only [Function.comp_apply]
    split <;> rfl
  refine ⟨hnames ▸ h.keyed, fun q hq => ?_, fun e he => ?_⟩
  · simp only [Collector.unlinkRecord, List.mem_filter, decide_eq_true_eq] at hq
    obtain ⟨d, hd, hname, file, hfile, hsame⟩ := h.records q hq.1
    refine ⟨_, List.mem_map_of_mem hd, ?_⟩
    split
    · next hdir =>
      have hother : file.name ≠ r.name := fun he => hq.2 ⟨hname.symm.trans hdir, hsame.symm.trans he⟩
      exact ⟨hname, file, List.mem_filter.2 ⟨hfile, decide_eq_true hother⟩, hsame⟩
    · exact ⟨hname, file, hfile, hsame⟩
  · obtain ⟨d, hd, hname⟩ := h.directories e he
    have hmem : d.name ∈ (s.unlinkRecord r).dirs.map (·.name) := hnames ▸ List.mem_map_of_mem hd
    obtain ⟨d', hd', hsame⟩ := List.mem_map.1 hmem
    exact ⟨d', hd', hsame.trans hname⟩

theorem Sound.removeEmptyDirectory (h : s.Sound) (dir : PyStr) : (s.removeEmptyDirectory dir).2.Sound := by
  rw [Collector.removeEmptyDirectory]
  split
  · exact h
  · split
    · exact h
    · next d hd =>
      split
      · exact h
      · split
        · exact h
        · next hfiles =>
          have hname : d.name = dir := by simpa using List.find?_some hd
          have hkept : ∀ d' ∈ s.dirs, d'.name ≠ dir → d' ∈ s.dirs.filter (·.name ≠ dir) :=
            fun d' hd' hne => List.mem_filter.2 ⟨hd', decide_eq_true hne⟩
          refine ⟨h.keyed.sublist (List.filter_sublist.map _), fun r hr => ?_, fun e he => ?_⟩
          · obtain ⟨d', hd', hrecord, file, hfile, hsame⟩ := h.records r hr
            -- the directory is empty, so that no record is of a file in it
            refine ⟨d', hkept d' hd' fun hdir => hfiles fun hempty => ?_, hrecord, file, hfile, hsame⟩
            have hone : d' = d :=
              List.inj_on_of_nodup_map h.keyed hd' (List.mem_of_find?_eq_some hd) (hdir.trans hname.symm)
            rw [hone, hempty] at hfile
            cases hfile
          · simp only [List.mem_filter, decide_eq_true_eq] at he
            obtain ⟨d', hd', hdirectory⟩ := h.directories e he.1
            exact ⟨d', hkept d' hd' (hdirectory ▸ he.2), hdirectory⟩

theorem Sound.unlinkAll (h : s.Sound) (records : List QuarantineRecord) : (unlinkAll records s).2.Sound := by
  induction records generalizing s with
  | nil => exact h
  | cons r records ih =>
    rw [Collector.unlinkAll]
    split
    · exact ih (h.unlinkRecord r)
    · exact h

theorem Sound.removeAll (h : s.Sound) (dirs : List PyStr) : (removeAll dirs s).2.Sound := by
  induction dirs generalizing s with
  | nil => exact h
  | cons dir dirs ih =>
    rw [Collector.removeAll]
    have hremoved := h.removeEmptyDirectory dir
    split
    · next hr =>
      rw [hr] at hremoved
      exact ih hremoved
    · next hr =>
      rw [hr] at hremoved
      exact hremoved

theorem Sound.discard (h : s.Sound) (platform : OutputPlatform) (outputs : List ProducedOutput)
    (order : List PyStr → List PyStr) : (s.discard platform outputs order).2.Sound := by
  rw [Collector.discard]
  split
  · exact h
  · next records _ =>
    have hunlinked := h.unlinkAll records
    split
    · next hr =>
      rw [hr] at hunlinked
      exact hunlinked.removeAll _
    · next hr =>
      rw [hr] at hunlinked
      exact hunlinked

/-- The collectors that collecting and discarding lead to, from a quarantine that may hold directories of runs
before. -/
inductive Reachable (platform : OutputPlatform) : Collector → Prop
  | start {dirs : List QuarantineDir} {next : Nat} (h : (dirs.map (·.name)).Nodup) :
      Reachable platform ⟨dirs, [], [], next⟩
  | collect {s : Collector} (tree : OutputTree) (declared : List DeclaredOutput) (limits : OutputLimits)
      (executionId : PyStr) (h : Reachable platform s) :
      Reachable platform (s.collect platform tree declared limits executionId).2
  | discard {s : Collector} (outputs : List ProducedOutput) (order : List PyStr → List PyStr)
      (h : Reachable platform s) : Reachable platform (s.discard platform outputs order).2

theorem Reachable.sound {platform : OutputPlatform} (h : Reachable platform s) : s.Sound := by
  induction h with
  | start h => exact ⟨h, by simp, by simp⟩
  | collect tree declared limits executionId _ ih => exact ih.collect ⟨platform, tree, limits⟩ declared executionId
  | discard outputs order _ ih => exact ih.discard platform outputs order

/-! ## Collecting -/

/-- What is promised of collecting: a file for every output, within the quotas, or a refusal that leaves all as it
was. -/
def CollectsOrRefuses (c : Collection) (s : Collector) (declared : List DeclaredOutput) (executionId : PyStr) : Prop :=
  match s.collect c.platform c.tree declared c.limits executionId with
  | (.ok outputs, s') =>
    List.Forall₂ (fun entry output => ∃ d ∈ s'.dirs, d.name = quarantineDir executionId ∧
      c.Gathered d.name d.files entry output) declared outputs ∧
    (outputs.map (·.quarantinePath)).Nodup ∧
    (outputs ≠ [] → (outputs.map (·.sizeBytes.toInt)).sum ≤ c.limits.maxTotalOutputBytes)
  | (.error (.refused _ _), s') => s'.dirs = s.dirs ∧ s'.records = s.records ∧ s'.directories = s.directories
  | (.error (.other _), _) => False

/-- **Collecting does what it promises** exactly where the directory of the run is not there yet, and no output that
is come to has a path without an encoding, a NUL in it, or a name that is too long. -/
theorem collect_iff {c : Collection} {declared : List DeclaredOutput} {executionId : PyStr}
    (hs : Reachable c.platform s) :
    CollectsOrRefuses c s declared executionId ↔
      (isExecutionId executionId = true → validateOutputTree c.platform c.tree declared = .ok () → declared ≠ [] →
        (∀ d ∈ s.dirs, d.name ≠ quarantineDir executionId) ∧ c.Contained 0 0 declared) := by
  rw [CollectsOrRefuses]
  by_cases hrun : isExecutionId executionId = true ∧ validateOutputTree c.platform c.tree declared = .ok () ∧
      declared ≠ []
  · obtain ⟨hid, htree, hdeclared⟩ := hrun
    simp only [hid, htree, hdeclared, ne_eq, not_false_eq_true, true_implies]
    by_cases hdir : ∀ d ∈ s.dirs, d.name ≠ quarantineDir executionId
    · have habsent := hs.sound.absent hdir
      have hstart := Collection.Progress.start c (quarantineDir executionId)
      obtain ⟨files, records, next, done, collected, total, hp, hstate, hend⟩ :=
        Collection.collectFrom_progress (s.nextInode + 1) declared habsent hstart
      have hcontained := Collection.collectFrom_contained (s.nextInode + 1) declared habsent hstart
      rw [collect_run hid htree hdeclared habsent]
      rcases hr : (s.underway (quarantineDir executionId) [] [] (s.nextInode + 1)).collectFrom c.platform c.tree
        c.limits (quarantineDir executionId) [] 0 declared with ⟨r, s'⟩
      simp only [hr] at hstate hend hcontained
      refine Iff.trans ?_ ((and_iff_right hdir).trans hcontained.symm).symm
      cases r with
      | ok outputs =>
        obtain ⟨hdone, rfl⟩ := hend outputs rfl
        rw [hdone] at hp
        refine iff_of_true ⟨hp.each.imp fun entry output hg => ?_, hp.apart, fun hne => ?_⟩ (by simp)
        · refine ⟨⟨quarantineDir executionId, s.nextInode, files⟩, ?_, rfl, hg⟩
          rw [hstate]
          exact List.mem_append_right _ List.mem_cons_self
        · rw [hp.sum]
          exact hp.within hne
      | error e =>
        cases e with
        | refused code detail => exact iff_of_true ⟨rfl, rfl, rfl⟩ (by simp)
        | other name => exact iff_of_false id fun hno => hno name rfl
    · rw [collect_taken hid htree hdeclared hdir]
      exact iff_of_false id fun hall => hdir hall.1
  · refine iff_of_true ?_ fun hid htree hne => absurd ⟨hid, htree, hne⟩ hrun
    rcases collect_idle (s := s) hrun with ⟨code, detail, hr⟩ | ⟨rfl, hr⟩
    · rw [hr]
      exact ⟨rfl, rfl, rfl⟩
    · rw [hr]
      exact ⟨.nil, .nil, fun h => absurd rfl h⟩

/-- A host whose digests are empty. -/
def plainPlatform : OutputPlatform where
  root := lit "q"
  sniffer := ⟨Char.isDigit, Char.isAlphanum, fun _ => none⟩
  sha256 := fun _ => []
  repr := id

/-- A tree with one JPEG in it. -/
def oneImage : OutputTree where
  entries := [([[0x61]], .file [0xFF, 0xD8, 0xFF])]
  elsewhere := fun _ _ => .error "FileNotFoundError"
  keyed := by simp
  named := by simp
  closed := by
    intro entry hentry parent hne hpart hother
    rw [List.mem_singleton.1 hentry] at hpart hother
    rcases List.prefix_cons_iff.1 hpart with rfl | ⟨rest, rfl, hrest⟩
    · exact absurd rfl hne
    · rw [List.prefix_nil.1 hrest] at hother
      exact absurd rfl hother

theorem collect_image :
    CollectsOrRefuses ⟨plainPlatform, oneImage, ⟨10, 10⟩⟩ {} [⟨lit "a", .int 5⟩] (lit "x") := by
  refine (collect_iff (@Reachable.start plainPlatform [] 0 List.nodup_nil)).2 fun _ _ _ =>
    ⟨by simp, fun path hpath => ?_, fun path content hq => ?_⟩
  · cases hpath
    exact ⟨[[0x61]], rfl, by simp⟩
  · cases hq.declared
    exact ⟨⟨[0x30, 0x30, 0x30, 0x2D, 0x61], rfl, by decide⟩, trivial⟩

/-- A tree with nothing in it. -/
def emptyTree : OutputTree where
  entries := []
  elsewhere := fun _ _ => .error "FileNotFoundError"
  keyed := .nil
  named := by simp
  closed := by simp

/-- **A declared path with a NUL in it** ends collecting with a ValueError, and the directory of the run stays. -/
theorem nul_path_escapes :
    Reachable plainPlatform {} ∧
      Collector.collect {} plainPlatform emptyTree [⟨[0x61, 0], .int 5⟩] ⟨10, 10⟩ (lit "x") =
        (.error (.other "ValueError"), {
          dirs := [⟨lit "exec-x", 0, []⟩]
          directories := [(lit "exec-x", 0)]
          nextInode := 1 }) ∧
      ¬ CollectsOrRefuses ⟨plainPlatform, emptyTree, ⟨10, 10⟩⟩ {} [⟨[0x61, 0], .int 5⟩] (lit "x") :=
  ⟨@Reachable.start plainPlatform [] 0 List.nodup_nil, rfl, id⟩

end Collector

end MilpbookLM.Execution
