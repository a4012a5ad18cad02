/-
Copying a tree of files. What is copied are the files, each with its content, and the
directories above them (`copyFiles_copied`): a directory with no file below it is left behind.
-/
import MilpbookLM.Execution.Images

namespace MilpbookLM.Execution

open PosixPath

/-! ## Paths -/

theorem mem_ancestors {p path : List PyStr} : p ∈ ancestors path ↔ p <+: path ∧ p ≠ [] ∧ p ≠ path := by
  simp [ancestors, List.mem_filter, List.mem_inits]

theorem mem_ancestors_dropLast {p path : List PyStr} (hne : path ≠ []) :
    p ∈ ancestors path ↔ p ≠ [] ∧ p <+: path.dropLast := by
  rw [mem_ancestors]
  obtain ⟨front, last, rfl⟩ : ∃ front last, path = front ++ [last] :=
    ⟨_, _, (List.dropLast_append_getLast hne).symm⟩
  rw [List.dropLast_concat, List.prefix_concat_iff]
  refine ⟨fun ⟨h, hp, hne⟩ => ⟨hp, h.resolve_left hne⟩, fun ⟨hp, h⟩ => ⟨.inr h, hp, fun he => ?_⟩⟩
  have := h.length_le
  rw [he, List.length_append, List.length_singleton] at this
  omega

theorem posix_eq (path : List PyStr) : posix path = [slash].intercalate path := rfl

theorem isName_iff {name : PyStr} : isName name = true ↔
    name ≠ [] ∧ name ≠ [dot] ∧ name ≠ [dot, dot] ∧ slash ∉ name ∧ 0 ∉ name := by
  simp [isName, and_assoc]

theorem rootOf_name {c : Nat} (hc : c ≠ slash) (s : List Nat) : rootOf (c :: s) = [] := by
  cases s with
  | nil => simp [rootOf, hc]
  | cons d s =>
    cases s with
    | nil => simp [rootOf, hc]
    | cons e s => simp [rootOf, hc]

/-- **The text of a path is read as the path.** -/
theorem parse_posix {path : List PyStr} (hne : path ≠ []) (hnames : path.all isName = true) :
    parse (posix path) = ⟨[], path⟩ := by
  have hname : ∀ name ∈ path, name ≠ [] ∧ name ≠ [dot] ∧ name ≠ [dot, dot] ∧ slash ∉ name ∧ 0 ∉ name := fun name h =>
    isName_iff.1 (List.all_eq_true.1 hnames name h)
  have hroot : rootOf (posix path) = [] := by
    obtain ⟨first, rest, rfl⟩ := List.exists_cons_of_ne_nil hne
    obtain ⟨hfirst, -, -, hslash, -⟩ := hname first (by simp)
    obtain ⟨c, name, rfl⟩ := List.exists_cons_of_ne_nil hfirst
    have hc : c ≠ slash := fun he => hslash (by simp [he])
    cases rest with
    | nil => simpa [posix_eq] using rootOf_name hc _
    | cons second rest =>
      rw [posix_eq, List.intercalate_cons_cons]
      exact rootOf_name hc _
  have hsplit : (posix path).splitOn slash = path := by
    rw [posix_eq]
    exact List.splitOn_intercalate slash (fun name h => (hname name h).2.2.2.1) hne
  rw [parse, hroot, hsplit]
  congr 1
  exact List.filter_eq_self.2 fun name h => by simp [(hname name h).1, (hname name h).2.1]

theorem posix_inj {p q : List PyStr} (hp : p ≠ [] ∧ p.all isName = true) (hq : q ≠ [] ∧ q.all isName = true)
    (h : posix p = posix q) : p = q := by
  have := congrArg (fun s => (parse s).names) h
  simpa only [parse_posix hp.1 hp.2, parse_posix hq.1 hq.2] using this

theorem safeRelative_posix {path : List PyStr} (hne : path ≠ []) (hnames : path.all isName = true) :
    safeRelative (posix path) = true := by
  have hdots : lit ".." ∉ path := fun h => by
    have := (isName_iff.1 (List.all_eq_true.1 hnames _ h)).2.2.1
    exact this (by decide)
  simp [safeRelative, parse_posix hne hnames, Path.parts, Path.isAbsolute, hne, hdots]

/-! ## Entries -/

namespace FileTree

variable {tree : FileTree}

theorem unique {path : List PyStr} {node node' : TreeNode} (h : (path, node) ∈ tree.entries)
    (h' : (path, node') ∈ tree.entries) : node = node' :=
  (Prod.ext_iff.1 (List.inj_on_of_nodup_map tree.keyed h h' rfl)).2

theorem node?_iff {path : List PyStr} {node : TreeNode} :
    tree.node? path = some node ↔ (path, node) ∈ tree.entries := by
  unfold node?
  rw [Option.map_eq_some_iff]
  constructor
  · rintro ⟨⟨p, n⟩, hfind, rfl⟩
    obtain rfl : p = path := by simpa using List.find?_some hfind
    exact List.mem_of_find?_eq_some hfind
  · intro h
    obtain ⟨entry, hfind⟩ : ∃ entry, tree.entries.find? (·.1 = path) = some entry :=
      Option.isSome_iff_exists.1 (List.find?_isSome.2 ⟨_, h, by simp⟩)
    obtain ⟨p, n⟩ := entry
    obtain rfl : p = path := by simpa using List.find?_some hfind
    exact ⟨_, hfind, unique (List.mem_of_find?_eq_some hfind) h⟩

/-- An entry is opened under its path. -/
theorem openFrom_entry {node : TreeNode} (hlink : node ≠ .symlink) (hsocket : node ≠ .socket) :
    ∀ {names walked : List PyStr}, names ≠ [] → (walked ++ names, node) ∈ tree.entries →
      tree.openFrom walked names = some node
  | [], _, hne, _ => absurd rfl hne
  | [name], walked, _, h => by
    rw [openFrom, node?_iff.2 h]
    cases node <;> simp_all
  | name :: second :: names, walked, _, h => by
    have hstep : walked ++ name :: second :: names = (walked ++ [name]) ++ second :: names := by simp
    have hdir : (walked ++ [name], TreeNode.directory) ∈ tree.entries :=
      tree.closed _ h _ (mem_ancestors.2 ⟨⟨second :: names, hstep.symm⟩, by simp, fun he => by
        have := congrArg List.length he
        simp at this⟩)
    rw [openFrom, node?_iff.2 hdir]
    simp only [reduceCtorEq, if_false]
    exact openFrom_entry hlink hsocket (by simp) (hstep ▸ h)

theorem create_ok {path : List PyStr} (node : TreeNode) (h : tree.CanCreate path) :
    ∃ tree', tree.create path node = .ok tree' ∧ tree'.entries = tree.entries ++ [(path, node)] :=
  ⟨_, dif_pos h, rfl⟩

/-- Making directories where nothing else is in the way. -/
theorem mkdirs_ok : ∀ {names walked : List PyStr} {tree : FileTree},
    (∀ p, p ≠ [] → p <+: walked → (p, TreeNode.directory) ∈ tree.entries) → (walked ++ names).all isName = true →
    (∀ p node, p <+: walked ++ names → (p, node) ∈ tree.entries → node = .directory) →
    ∃ tree', tree.mkdirs walked names = .ok tree' ∧ ∀ entry, entry ∈ tree'.entries ↔
      entry ∈ tree.entries ∨ ∃ p, p ≠ [] ∧ p <+: walked ++ names ∧ entry = (p, .directory)
  | [], walked, tree, hwalked, _, _ => by
    refine ⟨tree, rfl, fun entry => ⟨.inl, ?_⟩⟩
    rintro (h | ⟨p, hp, hprefix, rfl⟩)
    · exact h
    · exact hwalked p hp (by simpa using hprefix)
  | name :: names, walked, tree, hwalked, hnames, hfree => by
    have hstep : walked ++ name :: names = (walked ++ [name]) ++ names := by simp
    rw [hstep] at hnames hfree
    unfold mkdirs
    split
    · next hdir =>
      obtain ⟨tree', hok, hmem⟩ := @mkdirs_ok names (walked ++ [name]) tree (fun p hp hprefix => by
        rcases List.prefix_concat_iff.1 hprefix with rfl | hprefix
        · exact node?_iff.1 hdir
        · exact hwalked p hp hprefix) hnames hfree
      exact ⟨tree', hok, by rw [hstep]; exact hmem⟩
    · next hdir =>
      have hnew : tree.CanCreate (walked ++ [name]) := by
        refine ⟨⟨by simp, ?_⟩, fun hkey => ?_, fun p hp => ?_⟩
        · rw [List.all_append, Bool.and_eq_true] at hnames
          exact hnames.1
        · obtain ⟨⟨p, node⟩, hentry, rfl⟩ := List.mem_map.1 hkey
          have := hfree _ node (List.prefix_append _ _) hentry
          exact hdir (node?_iff.2 (this ▸ hentry))
        · rw [mem_ancestors_dropLast (by simp), List.dropLast_concat] at hp
          exact hwalked p hp.1 hp.2
      obtain ⟨tree₁, hcreate, hentries⟩ := create_ok .directory hnew
      obtain ⟨tree', hok, hmem⟩ := @mkdirs_ok names (walked ++ [name]) tree₁
        (fun p hp hprefix => by
          rw [hentries, List.mem_append, List.mem_singleton]
          rcases List.prefix_concat_iff.1 hprefix with rfl | hprefix
          · exact .inr rfl
          · exact .inl (hwalked p hp hprefix)) hnames (fun p node hprefix hentry => by
          rw [hentries, List.mem_append, List.mem_singleton] at hentry
          rcases hentry with hentry | hentry
          · exact hfree p node hprefix hentry
          · cases hentry
            rfl)
      rw [hcreate]
      refine ⟨tree', hok, fun entry => ?_⟩
      rw [hmem, hentries, List.mem_append, List.mem_singleton, hstep, or_assoc]
      refine or_congr_right ⟨?_, .inr⟩
      rintro (rfl | h)
      · exact ⟨_, by simp, List.prefix_append _ _, rfl⟩
      · exact h

end FileTree

/-! ## Copying -/

/-- A regular file of a tree by its path. -/
abbrev SourceFile := List PyStr × Bytes × Nat

/-- The entries are copies of the files and the directories above them. -/
def Copied (files : List SourceFile) (copied : FileTree) : Prop :=
  ∀ entry, entry ∈ copied.entries ↔ (∃ f ∈ files, entry = (f.1, .file f.2.1 (copyMode f.2.2))) ∨
    ∃ f ∈ files, ∃ p ∈ ancestors f.1, entry = (p, .directory)

theorem copied_empty : Copied [] .empty := fun entry => by simp [FileTree.empty]

section Copy

variable {tree : FileTree}

/-- The copy of one more file. -/
theorem copied_add {files : List SourceFile} {copied : FileTree} {f : SourceFile} (h : Copied files copied)
    (hsource : ∀ g ∈ files ++ [f], (g.1, TreeNode.file g.2.1 g.2.2) ∈ tree.entries)
    (hnodup : ((files ++ [f]).map (·.1)).Nodup) :
    ∃ made added, copied.mkdirs [] f.1.dropLast = .ok made ∧
      made.create f.1 (.file f.2.1 (copyMode f.2.2)) = .ok added ∧ Copied (files ++ [f]) added := by
  obtain ⟨path, content, mode⟩ := f
  have hf : (path, TreeNode.file content mode) ∈ tree.entries := hsource (path, content, mode) (by simp)
  have hfiles : ∀ g ∈ files, (g.1, TreeNode.file g.2.1 g.2.2) ∈ tree.entries := fun g hg => hsource g (by simp [hg])
  have hnew : ∀ g ∈ files, g.1 ≠ path := fun g hg he => by
    rw [List.map_append, List.nodup_append] at hnodup
    exact hnodup.2.2 g.1 (List.mem_map.2 ⟨g, hg, rfl⟩) path (by simp) he
  obtain ⟨hne, hnames⟩ := tree.named _ hf
  have habove := tree.closed _ hf
  have hdirectory : ∀ p node, p ∈ ancestors path → (p, node) ∈ copied.entries → node = .directory := by
    intro p node hp hentry
    rcases (h _).1 hentry with ⟨g, hg, he⟩ | ⟨g, hg, q, hq, he⟩
    · cases he
      exact absurd (FileTree.unique (habove _ hp) (hfiles g hg)) (by simp)
    · cases he
      rfl
  obtain ⟨made, hmade, hmem⟩ := @FileTree.mkdirs_ok path.dropLast [] copied
    (fun p hp hprefix => absurd (List.prefix_nil.1 hprefix) hp)
    (List.all_eq_true.2 fun name hname => List.all_eq_true.1 hnames name (List.mem_of_mem_dropLast hname))
    (fun p node hprefix hentry => hdirectory p node
      ((mem_ancestors_dropLast hne).2 ⟨(copied.named _ hentry).1, hprefix⟩) hentry)
  have hmem' : ∀ entry, entry ∈ made.entries ↔
      entry ∈ copied.entries ∨ ∃ p ∈ ancestors path, entry = (p, .directory) := by
    intro entry
    rw [hmem, List.nil_append]
    simp only [mem_ancestors_dropLast hne, and_assoc]
  have hcan : made.CanCreate path := by
    refine ⟨⟨hne, hnames⟩, fun hkey => ?_, fun p hp => (hmem' _).2 (.inr ⟨p, hp, rfl⟩)⟩
    obtain ⟨⟨p, node⟩, hentry, rfl⟩ := List.mem_map.1 hkey
    rcases (hmem' _).1 hentry with hentry | ⟨q, hq, he⟩
    · rcases (h _).1 hentry with ⟨g, hg, he⟩ | ⟨g, hg, q, hq, he⟩
      · cases he
        exact hnew g hg rfl
      · cases he
        exact absurd (FileTree.unique (tree.closed _ (hfiles g hg) _ hq) hf) (by simp)
    · cases he
      exact (mem_ancestors.1 hq).2.2 rfl
  obtain ⟨added, hadded, hentries⟩ := FileTree.create_ok (.file content (copyMode mode)) hcan
  refine ⟨made, added, hmade, hadded, fun entry => ?_⟩
  rw [hentries, List.mem_append, List.mem_singleton, hmem', h]
  constructor
  · rintro (((⟨g, hg, he⟩ | ⟨g, hg, hp⟩) | hp) | he)
    · exact .inl ⟨g, List.mem_append_left _ hg, he⟩
    · exact .inr ⟨g, List.mem_append_left _ hg, hp⟩
    · exact .inr ⟨(path, content, mode), by simp, hp⟩
    · exact .inl ⟨(path, content, mode), by simp, he⟩
  · rintro (⟨g, hg, he⟩ | ⟨g, hg, hp⟩)
    · rcases List.mem_append.1 hg with hg | hg
      · exact .inl (.inl (.inl ⟨g, hg, he⟩))
      · rw [List.mem_singleton.1 hg] at he
        exact .inr he
    · rcases List.mem_append.1 hg with hg | hg
      · exact .inl (.inl (.inr ⟨g, hg, hp⟩))
      · rw [List.mem_singleton.1 hg] at hp
        exact .inl (.inr hp)

/-- **What the loop of `install` copies.** -/
theorem copyFiles_copied : ∀ {rest done : List SourceFile} {copied : FileTree}, Copied done copied →
    (∀ g ∈ done ++ rest, (g.1, TreeNode.file g.2.1 g.2.2) ∈ tree.entries) → ((done ++ rest).map (·.1)).Nodup →
    ∃ made, copyFiles (rest.map fun f => (posix f.1, f.2)) copied = .ok made ∧ Copied (done ++ rest) made
  | [], done, copied, h, _, _ => ⟨copied, rfl, by simpa using h⟩
  | f :: rest, done, copied, h, hsource, hnodup => by
    have hstep : done ++ f :: rest = (done ++ [f]) ++ rest := by simp
    rw [hstep] at hsource hnodup ⊢
    obtain ⟨hne, hnames⟩ := tree.named _ (hsource f (by simp))
    obtain ⟨made, added, hmade, hadded, hcopied⟩ := copied_add h (fun g hg => hsource g (List.mem_append_left _ hg))
      (by
        rw [List.map_append] at hnodup
        exact (List.nodup_append.1 hnodup).1)
    obtain ⟨all, hall, hdone⟩ := copyFiles_copied hcopied hsource hnodup
    refine ⟨all, ?_, hdone⟩
    rw [List.map_cons, copyFiles]
    simp only [parse_posix hne hnames, hmade, hadded]
    exact hall

end Copy

end MilpbookLM.Execution
