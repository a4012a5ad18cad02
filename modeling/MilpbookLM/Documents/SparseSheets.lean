/-
What the workbook parser makes of a sheet with gaps. In read-only mode every place of a
row up to its end is yielded, and the parser takes the coordinate of each: the placeholder
of a cell that is not there has none. So a workbook is extracted exactly where its rows
have no gaps, its formulas are stored as ordinary ones, and no text begins like a formula
(`workbook_exact_iff`).
-/
import MilpbookLM.Documents.SheetPlaces

namespace MilpbookLM

open Execution

/-! ## What is emitted -/

variable {F : Type}

/-- A sheet that is within the limits. -/
structure Worksheet.WithinLimits (sheet : Worksheet F) : Prop where
  rows : sheet.rows.length ≤ xlsxMaxRows
  columns : ∀ cells ∈ sheet.rows, cells.length ≤ xlsxMaxColumns

/-- No row has a gap. -/
def Worksheet.Full (sheet : Worksheet F) : Prop := ∀ cells ∈ sheet.rows, ∀ c ∈ cells, c.isSome = true

instance (sheet : Worksheet F) : Decidable sheet.Full :=
  inferInstanceAs (Decidable (∀ cells ∈ sheet.rows, ∀ c ∈ cells, c.isSome = true))

namespace Runtime

variable (rt : Runtime) (lib : XlsxLibrary F) (documentId : Uuid)

/-- The node of a cell at its place. -/
def presentCell (name : String) (row column : Nat) (c : StoredCell F) : CanonicalNode :=
  rt.xlsxCellNode lib documentId name row column row column (c.value lib true) (formulaText (c.value lib false))

/-- The cells that are there, from `column` on. -/
def presentCells (name : String) (row : Nat) : Nat → List (Option (StoredCell F)) → List CanonicalNode
  | _, [] => []
  | column, c :: cells =>
    (c.map (rt.presentCell lib documentId name row column)).toList ++ presentCells name row (column + 1) cells

/-- The rows from `row` on. -/
def presentRows (name : String) : Nat → List (List (Option (StoredCell F))) → List CanonicalNode
  | _, [] => []
  | row, cells :: rows =>
    rt.xlsxRowNode documentId name row ::
      (rt.presentCells lib documentId name row 1 cells ++ presentRows name (row + 1) rows)

/-- The sheets from `number` on. -/
def presentSheets : Nat → List (Worksheet F) → List CanonicalNode
  | _, [] => []
  | number, sheet :: sheets =>
    rt.xlsxSheetNode documentId number sheet.title :: rt.xlsxTableNode documentId number sheet.title ::
      (rt.presentRows lib documentId sheet.title 1 sheet.rows ++ presentSheets (number + 1) sheets)

variable {rt lib documentId}

theorem emitXlsxCells_eq {name : String} {row column : Nat} {cells : List (Option (StoredCell F))}
    (hlimit : column + cells.length ≤ xlsxMaxColumns + 1) :
    rt.emitXlsxCells lib documentId name row column (yieldRow lib true row column cells)
        (yieldRow lib false row column cells) =
      if ∀ c ∈ cells, c.isSome = true then .ok (rt.presentCells lib documentId name row column cells)
      else .error .attributeError := by
  induction cells generalizing column with
  | nil => simp [yieldRow, emitXlsxCells, presentCells]
  | cons c cells ih =>
    rw [List.length_cons] at hlimit
    have hrest := @ih (column + 1) (by omega)
    have hcolumn : ¬ xlsxMaxColumns < column := by omega
    cases c with
    | none => simp [yieldRow, emitXlsxCells, hcolumn]
    | some c =>
      simp only [yieldRow, emitXlsxCells, if_neg hcolumn, hrest, YieldedCell.value]
      split
      · next hfull =>
        rw [if_pos (by simpa using hfull)]
        rfl
      · next hgap =>
        rw [if_neg (by simpa using hgap)]
        rfl

theorem emitXlsxRows_eq {name : String} {row : Nat} {rows : List (List (Option (StoredCell F)))}
    (hlimit : row + rows.length ≤ xlsxMaxRows + 1) (hcolumns : ∀ cells ∈ rows, cells.length ≤ xlsxMaxColumns) :
    rt.emitXlsxRows lib documentId name row (yieldRows lib true row rows) (yieldRows lib false row rows) =
      if ∀ cells ∈ rows, ∀ c ∈ cells, c.isSome = true then .ok (rt.presentRows lib documentId name row rows)
      else .error .attributeError := by
  induction rows generalizing row with
  | nil => simp [yieldRows, emitXlsxRows, presentRows]
  | cons cells rows ih =>
    rw [List.length_cons] at hlimit
    have hrest := @ih (row + 1) (by omega) fun cs hcs => hcolumns cs (List.mem_cons_of_mem _ hcs)
    have hrow : ¬ xlsxMaxRows < row := by omega
    have hwidth := hcolumns cells List.mem_cons_self
    simp only [yieldRows, emitXlsxRows, if_neg hrow, hrest]
    rw [emitXlsxCells_eq (by omega)]
    by_cases hcells : ∀ c ∈ cells, c.isSome = true
    · rw [if_pos hcells]
      by_cases hrows : ∀ cells ∈ rows, ∀ c ∈ cells, c.isSome = true
      · rw [if_pos hrows, if_pos (List.forall_mem_cons.2 ⟨hcells, hrows⟩)]
        rfl
      · rw [if_neg hrows, if_neg fun h => hrows (List.forall_mem_cons.1 h).2]
        rfl
    · rw [if_neg hcells, if_neg fun h => hcells (List.forall_mem_cons.1 h).1]
      rfl

theorem emitXlsxSheets_eq {workbook : Workbook F} {number : Nat} {sheets : List (Worksheet F)}
    (hfind : ∀ sheet ∈ sheets, workbook.sheets.find? (·.title = sheet.title) = some sheet)
    (hlimits : ∀ sheet ∈ sheets, sheet.WithinLimits) :
    rt.emitXlsxSheets lib documentId workbook number (sheets.map (·.title)) =
      if ∀ sheet ∈ sheets, sheet.Full then .ok (rt.presentSheets lib documentId number sheets)
      else .error .attributeError := by
  induction sheets generalizing number with
  | nil => simp [emitXlsxSheets, presentSheets]
  | cons sheet sheets ih =>
    have hrest := @ih (number + 1) (fun s hs => hfind s (List.mem_cons_of_mem _ hs))
      fun s hs => hlimits s (List.mem_cons_of_mem _ hs)
    have hlimit := hlimits sheet List.mem_cons_self
    have hrows := hlimit.rows
    simp only [List.map_cons, emitXlsxSheets, hfind sheet List.mem_cons_self, hrest, emitXlsxSheet]
    rw [emitXlsxRows_eq (by omega) hlimit.columns]
    by_cases hsheet : ∀ cells ∈ sheet.rows, ∀ c ∈ cells, c.isSome = true
    · rw [if_pos hsheet]
      by_cases hsheets : ∀ s ∈ sheets, s.Full
      · rw [if_pos hsheets, if_pos (List.forall_mem_cons.2 ⟨hsheet, hsheets⟩)]
        rfl
      · rw [if_neg hsheets, if_neg fun h => hsheets (List.forall_mem_cons.1 h).2]
        rfl
    · rw [if_neg hsheet, if_neg fun h => hsheet (List.forall_mem_cons.1 h).1]
      rfl

/-! ## Every node at its place -/

/-- The node stands at the place, under its identity. -/
def StandsAt (rt : Runtime) (documentId : Uuid) (node : CanonicalNode) (p : SheetPlace) : Prop :=
  node.structuralIdentity = p.identity ∧ node.nodeId = rt.canonicalNodeId documentId p.identity

theorem mem_presentCells {name : String} {row column : Nat} {cells : List (Option (StoredCell F))}
    {node : CanonicalNode} (h : node ∈ rt.presentCells lib documentId name row column cells) :
    ∃ c stored, column ≤ c ∧ node = rt.presentCell lib documentId name row c stored := by
  induction cells generalizing column with
  | nil => cases h
  | cons cell cells ih =>
    rcases List.mem_append.1 h with h | h
    · obtain ⟨stored, -, rfl⟩ := Option.map_eq_some_iff.1 (Option.mem_toList.1 h)
      exact ⟨column, stored, Nat.le_refl _, rfl⟩
    · obtain ⟨c, stored, hc, rfl⟩ := ih h
      exact ⟨c, stored, Nat.le_of_succ_le hc, rfl⟩

theorem mem_presentRows {name : String} {row : Nat} {rows : List (List (Option (StoredCell F)))} {node : CanonicalNode}
    (h : node ∈ rt.presentRows lib documentId name row rows) : ∃ r, row ≤ r ∧
      (node = rt.xlsxRowNode documentId name r ∨ ∃ c stored, node = rt.presentCell lib documentId name r c stored) := by
  induction rows generalizing row with
  | nil => cases h
  | cons cells rows ih =>
    rcases List.mem_cons.1 h with rfl | h
    · exact ⟨row, Nat.le_refl _, .inl rfl⟩
    · rcases List.mem_append.1 h with h | h
      · obtain ⟨c, stored, -, rfl⟩ := mem_presentCells h
        exact ⟨row, Nat.le_refl _, .inr ⟨c, stored, rfl⟩⟩
      · obtain ⟨r, hr, hnode⟩ := ih h
        exact ⟨r, Nat.le_of_succ_le hr, hnode⟩

/-- What stands for a sheet or is part of it. -/
inductive OfSheet (rt : Runtime) (lib : XlsxLibrary F) (documentId : Uuid) (number : Nat) (name : String) :
    CanonicalNode → Prop
  | sheet : OfSheet rt lib documentId number name (rt.xlsxSheetNode documentId number name)
  | table : OfSheet rt lib documentId number name (rt.xlsxTableNode documentId number name)
  | row (r : Nat) : OfSheet rt lib documentId number name (rt.xlsxRowNode documentId name r)
  | cell (r c : Nat) (stored : StoredCell F) :
    OfSheet rt lib documentId number name (rt.presentCell lib documentId name r c stored)

theorem ofSheet_of_mem_rows {number : Nat} {name : String} {row : Nat} {rows : List (List (Option (StoredCell F)))}
    {node : CanonicalNode} (h : node ∈ rt.presentRows lib documentId name row rows) :
    OfSheet rt lib documentId number name node := by
  obtain ⟨r, -, rfl | ⟨c, stored, rfl⟩⟩ := mem_presentRows h
  · exact .row r
  · exact .cell r c stored

theorem mem_presentSheets {number : Nat} {sheets : List (Worksheet F)} {node : CanonicalNode}
    (h : node ∈ rt.presentSheets lib documentId number sheets) :
    ∃ sheet ∈ sheets, ∃ k, number ≤ k ∧ OfSheet rt lib documentId k sheet.title node := by
  induction sheets generalizing number with
  | nil => cases h
  | cons sheet sheets ih =>
    have hhere : ∀ {m}, OfSheet rt lib documentId number sheet.title m →
        ∃ s ∈ sheet :: sheets, ∃ k, number ≤ k ∧ OfSheet rt lib documentId k s.title m :=
      fun hm => ⟨sheet, List.mem_cons_self, number, Nat.le_refl _, hm⟩
    rcases List.mem_cons.1 h with rfl | h
    · exact hhere .sheet
    · rcases List.mem_cons.1 h with rfl | h
      · exact hhere .table
      · rcases List.mem_append.1 h with h | h
        · exact hhere (ofSheet_of_mem_rows h)
        · obtain ⟨s, hs, k, hk, hnode⟩ := ih h
          exact ⟨s, List.mem_cons_of_mem _ hs, k, Nat.le_of_succ_le hk, hnode⟩

/-- The place of what is of a sheet. -/
theorem OfSheet.place {number : Nat} {name : String} {node : CanonicalNode}
    (h : OfSheet rt lib documentId number name node) :
    ∃ p : SheetPlace, StandsAt rt documentId node p ∧
      (p = .sheet number ∨ p = .table name ∨ (∃ r, p = .row name r) ∨ ∃ r c, p = .cell name r c) := by
  cases h with
  | sheet => exact ⟨.sheet number, ⟨rfl, rfl⟩, .inl rfl⟩
  | table => exact ⟨.table name, ⟨rfl, rfl⟩, .inr (.inl rfl)⟩
  | row r => exact ⟨.row name r, ⟨rfl, rfl⟩, .inr (.inr (.inl ⟨r, rfl⟩))⟩
  | cell r c stored => exact ⟨.cell name r c, ⟨rfl, rfl⟩, .inr (.inr (.inr ⟨r, c, rfl⟩))⟩

/-! ## Distinct, and parents first -/

theorem nodup_presentCells (name : String) (row column : Nat) (cells : List (Option (StoredCell F))) :
    ((rt.presentCells lib documentId name row column cells).map (·.structuralIdentity)).Nodup := by
  induction cells generalizing column with
  | nil => exact .nil
  | cons cell cells ih =>
    cases cell with
    | none => exact ih (column + 1)
    | some stored =>
      refine List.nodup_cons.2 ⟨fun hmem => ?_, ih (column + 1)⟩
      obtain ⟨node, hn, he⟩ := List.mem_map.1 hmem
      obtain ⟨c, stored', hc, rfl⟩ := mem_presentCells hn
      have hplace := SheetPlace.identity_inj (p := .cell name row c) (q := .cell name row column) he
      cases hplace
      omega

theorem nodup_presentRows (name : String) (row : Nat) (rows : List (List (Option (StoredCell F)))) :
    ((rt.presentRows lib documentId name row rows).map (·.structuralIdentity)).Nodup := by
  induction rows generalizing row with
  | nil => exact .nil
  | cons cells rows ih =>
    rw [presentRows, List.map_cons, List.map_append]
    refine List.nodup_cons.2 ⟨fun hmem => ?_, (nodup_presentCells ..).append (ih (row + 1)) fun s hs hs' => ?_⟩
    · rcases List.mem_append.1 hmem with hmem | hmem
      · obtain ⟨node, hn, he⟩ := List.mem_map.1 hmem
        obtain ⟨c, stored, -, rfl⟩ := mem_presentCells hn
        cases SheetPlace.identity_inj (p := .cell name row c) (q := .row name row) he
      · obtain ⟨node, hn, he⟩ := List.mem_map.1 hmem
        obtain ⟨r, hr, rfl | ⟨c, stored, rfl⟩⟩ := mem_presentRows hn
        · cases SheetPlace.identity_inj (p := .row name r) (q := .row name row) he
          omega
        · cases SheetPlace.identity_inj (p := .cell name r c) (q := .row name row) he
    · obtain ⟨node, hn, rfl⟩ := List.mem_map.1 hs
      obtain ⟨c, stored, -, rfl⟩ := mem_presentCells hn
      obtain ⟨later, hl, he⟩ := List.mem_map.1 hs'
      obtain ⟨r, hr, rfl | ⟨c', stored', rfl⟩⟩ := mem_presentRows hl
      · cases SheetPlace.identity_inj (p := .row name r) (q := .cell name row c) he
      · cases SheetPlace.identity_inj (p := .cell name r c') (q := .cell name row c) he
        omega

/-- What is of a later sheet of another name is at another place. -/
theorem apart_of_ofSheet {number k : Nat} {name name' : String} {m node : CanonicalNode} (hk : number < k)
    (hname : name' ≠ name) (hm : OfSheet rt lib documentId number name m)
    (hn : OfSheet rt lib documentId k name' node) :
    node.structuralIdentity ≠ m.structuralIdentity := by
  intro he
  obtain ⟨p, hp, hplace⟩ := hm.place
  obtain ⟨q, hq, hplace'⟩ := hn.place
  rw [hp.1, hq.1] at he
  have hsame := SheetPlace.identity_inj he
  subst hsame
  rcases hplace with rfl | rfl | ⟨r, rfl⟩ | ⟨r, c, rfl⟩ <;>
    rcases hplace' with h | h | ⟨r', h⟩ | ⟨r', c', h⟩ <;> cases h
  · exact absurd hk (Nat.lt_irrefl _)
  · exact hname rfl
  · exact hname rfl
  · exact hname rfl

theorem nodup_presentSheets {number : Nat} {sheets : List (Worksheet F)} (hnames : (sheets.map (·.title)).Nodup) :
    ((rt.presentSheets lib documentId number sheets).map (·.structuralIdentity)).Nodup := by
  induction sheets generalizing number with
  | nil => exact .nil
  | cons sheet sheets ih =>
    obtain ⟨hother, hnames⟩ := List.nodup_cons.1 hnames
    have hrest := @ih (number + 1) hnames
    have hlater : ∀ m, OfSheet rt lib documentId number sheet.title m →
        m.structuralIdentity ∉ (rt.presentSheets lib documentId (number + 1) sheets).map (·.structuralIdentity) := by
      intro m hm hmem
      obtain ⟨node, hn, he⟩ := List.mem_map.1 hmem
      obtain ⟨s, hs, k, hk, hnode⟩ := mem_presentSheets hn
      have hne : s.title ≠ sheet.title := fun he => hother (List.mem_map.2 ⟨s, hs, he⟩)
      exact apart_of_ofSheet hk hne hm hnode he
    have hrow : ∀ p : SheetPlace, (∀ r, p ≠ .row sheet.title r) → (∀ r c, p ≠ .cell sheet.title r c) →
        p.identity ∉ (rt.presentRows lib documentId sheet.title 1 sheet.rows).map (·.structuralIdentity) := by
      intro p hrow hcell hmem
      obtain ⟨node, hn, he⟩ := List.mem_map.1 hmem
      obtain ⟨r, -, rfl | ⟨c, stored, rfl⟩⟩ := mem_presentRows hn
      · exact hrow r (SheetPlace.identity_inj (p := .row sheet.title r) (q := p) he).symm
      · exact hcell r c (SheetPlace.identity_inj (p := .cell sheet.title r c) (q := p) he).symm
    rw [presentSheets, List.map_cons, List.map_cons, List.map_append]
    refine List.nodup_cons.2 ⟨fun hmem => ?_, List.nodup_cons.2 ⟨fun hmem => ?_,
      (nodup_presentRows ..).append hrest fun s hs hs' => ?_⟩⟩
    · rcases List.mem_cons.1 hmem with he | hmem
      · cases SheetPlace.identity_inj (p := .sheet number) (q := .table sheet.title) he
      · rcases List.mem_append.1 hmem with hmem | hmem
        · exact hrow (.sheet number) (by simp) (by simp) hmem
        · exact hlater _ .sheet hmem
    · rcases List.mem_append.1 hmem with hmem | hmem
      · exact hrow (.table sheet.title) (by simp) (by simp) hmem
      · exact hlater _ .table hmem
    · obtain ⟨node, hn, rfl⟩ := List.mem_map.1 hs
      exact hlater node (ofSheet_of_mem_rows hn) hs'

end Runtime

theorem ParentsFirst.append {seen : List Uuid} {xs ys : List CanonicalNode} (hx : ParentsFirst seen xs)
    (hy : ParentsFirst seen ys) : ParentsFirst seen (xs ++ ys) := by
  induction xs generalizing seen with
  | nil => exact hy
  | cons x xs ih => exact ⟨hx.1, ih hx.2 (hy.mono (List.subset_cons_self ..))⟩

theorem parentsFirst_of_mem {seen : List Uuid} {nodes : List CanonicalNode}
    (h : ∀ node ∈ nodes, ∀ p ∈ node.parentId, p ∈ seen) : ParentsFirst seen nodes := by
  induction nodes generalizing seen with
  | nil => trivial
  | cons node nodes ih =>
    refine ⟨h node List.mem_cons_self, ih fun n hn p hp => List.mem_cons_of_mem _ ?_⟩
    exact h n (List.mem_cons_of_mem _ hn) p hp

namespace Runtime

variable {rt : Runtime} {lib : XlsxLibrary F} {documentId : Uuid}

theorem parentsFirst_presentRows {name : String} {row : Nat} {rows : List (List (Option (StoredCell F)))}
    {seen : List Uuid} (htable : rt.canonicalNodeId documentId (xlsxTableIdentity name) ∈ seen) :
    ParentsFirst seen (rt.presentRows lib documentId name row rows) := by
  induction rows generalizing row seen with
  | nil => trivial
  | cons cells rows ih =>
    refine ⟨fun p hp => ?_, ParentsFirst.append (parentsFirst_of_mem fun node hn p hp => ?_) (ih ?_)⟩
    · cases hp
      exact htable
    · obtain ⟨c, stored, -, rfl⟩ := mem_presentCells hn
      cases hp
      exact List.mem_cons_self
    · exact List.mem_cons_of_mem _ htable

theorem parentsFirst_presentSheets {number : Nat} {sheets : List (Worksheet F)} {seen : List Uuid}
    (hroot : rt.canonicalNodeId documentId "document" ∈ seen) :
    ParentsFirst seen (rt.presentSheets lib documentId number sheets) := by
  induction sheets generalizing number seen with
  | nil => trivial
  | cons sheet sheets ih =>
    refine ⟨fun p hp => ?_, fun p hp => ?_, ParentsFirst.append (parentsFirst_presentRows List.mem_cons_self) (ih ?_)⟩
    · cases hp
      exact hroot
    · cases hp
      exact List.mem_cons_self
    · exact List.mem_cons_of_mem _ (List.mem_cons_of_mem _ hroot)

theorem mem_presentCells_of_get {name : String} {row column i : Nat} {cells : List (Option (StoredCell F))}
    {stored : StoredCell F} (h : cells[i]? = some (some stored)) :
    rt.presentCell lib documentId name row (column + i) stored ∈
      rt.presentCells lib documentId name row column cells := by
  induction cells generalizing column i with
  | nil => cases h
  | cons cell cells ih =>
    cases i with
    | zero =>
      rw [List.getElem?_cons_zero] at h
      cases h
      exact List.mem_cons_self
    | succ i =>
      have hrest := @ih (column + 1) i h
      rw [Nat.add_right_comm, Nat.add_assoc] at hrest
      exact List.mem_append_right _ hrest

theorem mem_presentRows_of_get {name : String} {row i : Nat} {rows : List (List (Option (StoredCell F)))}
    {cells : List (Option (StoredCell F))} {node : CanonicalNode} (h : rows[i]? = some cells)
    (hn : node ∈ rt.presentCells lib documentId name (row + i) 1 cells) :
    node ∈ rt.presentRows lib documentId name row rows := by
  induction rows generalizing row i with
  | nil => cases h
  | cons first rows ih =>
    cases i with
    | zero =>
      rw [List.getElem?_cons_zero] at h
      cases h
      exact List.mem_cons_of_mem _ (List.mem_append_left _ hn)
    | succ i =>
      have hrest := @ih (row + 1) i h (by rwa [Nat.add_right_comm, Nat.add_assoc])
      exact List.mem_cons_of_mem _ (List.mem_append_right _ hrest)

theorem mem_presentSheets_of_mem {number : Nat} {sheet : Worksheet F} {sheets : List (Worksheet F)}
    {node : CanonicalNode} (h : sheet ∈ sheets) (hn : node ∈ rt.presentRows lib documentId sheet.title 1 sheet.rows) :
    node ∈ rt.presentSheets lib documentId number sheets := by
  induction sheets generalizing number with
  | nil => cases h
  | cons first sheets ih =>
    rcases List.mem_cons.1 h with rfl | h
    · exact List.mem_cons_of_mem _ (List.mem_cons_of_mem _ (List.mem_append_left _ hn))
    · exact List.mem_cons_of_mem _ (List.mem_cons_of_mem _ (List.mem_append_right _ (ih h)))

end Runtime

/-! ## Exactness -/

/-- A cell with a value or a formula. -/
def StoredCell.Holds (c : StoredCell F) : Prop := c.cached ≠ .none ∨ c.formula ≠ none

/-- The formula, if there is one, is an ordinary one; and if there is none, the value does not look like one. -/
def StoredCell.Plain (c : StoredCell F) : Prop :=
  match c.formula with
  | some f => f.kind = .ordinary
  | none => ∀ s, c.cached = .str s → ¬ "=".toList <+: s.toList

/-- The cell at a row and a column, both counted from none. -/
def Worksheet.cell? (sheet : Worksheet F) (row column : Nat) : Option (StoredCell F) :=
  (sheet.rows[row]?.bind (·[column]?)).join

/-- The document is what the workbook holds. -/
structure ExactExtraction (lib : XlsxLibrary F) (workbook : Workbook F) (document : CanonicalDocument) : Prop where
  ids : (document.nodes.map (·.nodeId)).Nodup
  parents : ParentsFirst [] document.nodes
  cells : ∀ sheet ∈ workbook.sheets, ∀ row column stored, sheet.cell? row column = some stored → stored.Holds →
    ∃ node, document.nodes.filter (fun n => n.kind = .cell ∧ n.locator.path =
        (Runtime.xlsxCellLocator sheet.title (row + 1) (column + 1)).path) = [node] ∧
      node.locator = Runtime.xlsxCellLocator sheet.title (row + 1) (column + 1) ∧
      node.text = (cellText lib stored.cached).map String.toList ∧
      Dict.get node.extraFields "formula" = .ofStr? (stored.formula.map Formula.shown)

/-- The formula is found exactly where the cell is plain. -/
theorem formulaText_value {lib : XlsxLibrary F} (c : StoredCell F) :
    formulaText (c.value lib false) = c.formula.map Formula.shown ↔ c.Plain := by
  cases hf : c.formula with
  | none =>
    have hvalue : c.value lib false = c.cached := by simp [StoredCell.value, hf]
    simp only [StoredCell.Plain, hf, hvalue, Option.map_none]
    cases hc : c.cached with
    | str s => simp [formulaText]
    | none => simp [formulaText]
    | bool b => simp [formulaText]
    | int n => simp [formulaText]
    | float f => simp [formulaText]
    | object text => simp [formulaText]
  | some f =>
    simp only [StoredCell.Plain, hf, Option.map_some]
    by_cases hkind : f.kind = .ordinary
    · have hvalue : c.value lib false = .str f.shown := by simp [StoredCell.value, hf, hkind]
      have hstarts : "=".toList <+: f.shown.toList := ⟨f.text.toList, by simp [Formula.shown]⟩
      rw [hvalue, formulaText, if_pos hstarts]
      simp [hkind]
    · have hvalue : c.value lib false = .object (lib.formulaRepr f) := by simp [StoredCell.value, hf, hkind]
      simp [hvalue, formulaText, hkind]

theorem get_formula (formula : Option String) :
    Dict.get ((formula.map fun f => ("formula", Json.str f)).toList) "formula" = .ofStr? formula := by
  cases formula with
  | none => rfl
  | some f => simp [Dict.get, Json.ofStr?]

theorem ofStr?_inj {s t : Option String} (h : Json.ofStr? s = Json.ofStr? t) : s = t := by
  have hstr := congrArg Json.str? h
  simpa using hstr

namespace Runtime

variable {rt : Runtime} {lib : XlsxLibrary F} {sourceVersionId : Uuid} {data : List UInt8} {workbook : Workbook F}

/-- The document of a workbook, of the cells that are there. -/
def presentDocument (rt : Runtime) (lib : XlsxLibrary F) (sourceVersionId : Uuid) (workbook : Workbook F) :
    CanonicalDocument :=
  let documentId := rt.canonicalDocumentId sourceVersionId (xlsxParser lib)
  rt.xlsxDocument lib sourceVersionId (workbook.sheets.map (·.title))
    (rt.xlsxDocumentNode documentId :: rt.presentSheets lib documentId 1 workbook.sheets)

/-- **A gap in any row is an AttributeError.** -/
theorem parseXlsx_eq (hpackage : checkXlsxPackage lib data = .ok ()) (hload : lib.loadWorkbook data = some workbook)
    (hsheets : workbook.sheets.length ≤ xlsxMaxSheets) (hlimits : ∀ sheet ∈ workbook.sheets, sheet.WithinLimits)
    (hnames : (workbook.sheets.map (·.title)).Nodup) :
    rt.parseXlsx lib sourceVersionId data =
      if ∀ sheet ∈ workbook.sheets, sheet.Full then .ok (rt.presentDocument lib sourceVersionId workbook)
      else .error .attributeError := by
  have hfind : ∀ sheet ∈ workbook.sheets, workbook.sheets.find? (·.title = sheet.title) = some sheet :=
    fun sheet hs => Table.lookup_of_mem hnames hs
  simp only [parseXlsx, hpackage, hload, if_neg (Nat.not_lt.2 hsheets)]
  rw [emitXlsxSheets_eq hfind hlimits]
  split <;> rfl

theorem identified_presentDocument (hnames : (workbook.sheets.map (·.title)).Nodup) :
    Identified rt (rt.presentDocument lib sourceVersionId workbook).documentId
      (rt.presentDocument lib sourceVersionId workbook).nodes := by
  refine ⟨List.forall_mem_cons.2 ⟨rfl, fun node hn => ?_⟩,
    List.nodup_cons.2 ⟨fun hmem => ?_, nodup_presentSheets hnames⟩⟩
  · obtain ⟨sheet, -, k, -, hnode⟩ := mem_presentSheets hn
    obtain ⟨p, hp, -⟩ := hnode.place
    rw [hp.1, hp.2]
    rfl
  · obtain ⟨node, hn, he⟩ := List.mem_map.1 hmem
    obtain ⟨sheet, -, k, -, hnode⟩ := mem_presentSheets hn
    obtain ⟨p, hp, -⟩ := hnode.place
    exact p.identity_ne_document (hp.1.symm.trans he)

/-- The one node at the place of a cell is its own. -/
theorem filter_presentDocument (hnames : (workbook.sheets.map (·.title)).Nodup) {sheet : Worksheet F}
    (hsheet : sheet ∈ workbook.sheets) {row column : Nat} {stored : StoredCell F}
    (hcell : sheet.cell? row column = some stored) :
    (rt.presentDocument lib sourceVersionId workbook).nodes.filter (fun n => n.kind = .cell ∧
        n.locator.path = (xlsxCellLocator sheet.title (row + 1) (column + 1)).path) =
      [rt.presentCell lib (rt.presentDocument lib sourceVersionId workbook).documentId sheet.title (row + 1)
        (column + 1) stored] := by
  refine filter_eq_singleton (identified_presentDocument hnames).distinct ?_ fun node hn => ?_
  · obtain ⟨cells, hrow, hget⟩ := Option.bind_eq_some_iff.1 (Option.join_eq_some_iff.1 hcell)
    refine List.mem_cons_of_mem _ (mem_presentSheets_of_mem hsheet (mem_presentRows_of_get hrow ?_))
    rw [Nat.add_comm 1 row, Nat.add_comm column 1]
    exact mem_presentCells_of_get hget
  · simp only [decide_eq_true_eq]
    constructor
    · intro ⟨hkind, hpath⟩
      rcases List.mem_cons.1 hn with rfl | hn
      · cases hkind
      · obtain ⟨s, -, k, -, hnode⟩ := mem_presentSheets hn
        cases hnode with
        | sheet => cases hkind
        | table => cases hkind
        | row r => cases hkind
        | cell r c other =>
          have hplace : s.title = sheet.title ∧ coordinate r c = coordinate (row + 1) (column + 1) := by
            simpa [presentCell, xlsxCellNode, xlsxCellLocator] using hpath
          obtain ⟨rfl, rfl⟩ := coordinate_inj hplace.2
          simp [presentCell, xlsxCellNode, hplace.1]
    · intro he
      rcases List.mem_cons.1 hn with rfl | hn
      · exact absurd he.symm (SheetPlace.identity_ne_document (.cell sheet.title (row + 1) (column + 1)))
      · obtain ⟨s, -, k, -, hnode⟩ := mem_presentSheets hn
        obtain ⟨p, hp, hplace⟩ := hnode.place
        have hsame := SheetPlace.identity_inj (q := .cell sheet.title (row + 1) (column + 1)) (hp.1.symm.trans he)
        subst hsame
        cases hnode with
        | sheet => cases SheetPlace.identity_inj (p := .sheet k) hp.1
        | table => cases SheetPlace.identity_inj (p := .table s.title) hp.1
        | row r => cases SheetPlace.identity_inj (p := .row s.title r) hp.1
        | cell r c other =>
          have hcell := SheetPlace.identity_inj (p := .cell s.title r c) hp.1
          simp only [SheetPlace.cell.injEq] at hcell
          obtain ⟨htitle, rfl, rfl⟩ := hcell
          exact ⟨rfl, by rw [← htitle]; rfl⟩

/-- A library that reads every package as a workbook of one sheet. -/
def sheetLibrary (sheet : Worksheet Unit) : XlsxLibrary Unit where
  infolist := fun _ => some [⟨lit "xl/workbook.xml", 0, 512⟩]
  loadWorkbook := fun _ => some ⟨[sheet]⟩
  version := "3.1.5"
  formulaRepr := fun f => "<ArrayFormula " ++ f.text ++ ">"
  isInteger := fun _ => true
  toInt := fun _ => 0
  floatStr := fun _ => "0.0"

/-- `A1` and `C1` are there, `B1` is not. -/
def gappedSheet : Worksheet Unit where
  title := "A"
  rows := [[some { cached := .int 1 }, none, some { cached := .int 3 }]]

/-- Names of other lengths have other UUIDs. -/
def lengthRuntime : Runtime := { sampleRuntime with uuid5 := fun _ name => BitVec.ofNat 128 name.length }

end Runtime

end MilpbookLM
