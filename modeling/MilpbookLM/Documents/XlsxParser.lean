/-
The workbook parser: a table for each sheet, its rows and their cells in the order of the
sheet, the formula of a cell beside the value that was stored with it. Of openpyxl, in
read-only mode, there is what its iterations yield: the cells of a row up to its end, and
one and the same placeholder, with no place of its own, for each that is not there.

Before it opens a package every office parser checks the bounds on the archive, and that no
macros are in it. The zip reader is a parameter, as a list of what it says of each member.
-/
import MilpbookLM.Documents.Canonical
import MilpbookLM.Execution.Values
import MilpbookLM.Lib.PosixPath

namespace MilpbookLM

open Execution PosixPath

/-- The errors of the office parsers. -/
inductive OfficeError
  | corrupt (detail : String)
  | policy (detail : String)
  | tooLarge (detail : String)
  deriving DecidableEq

def maxArchiveMembers : Nat := 4096

def maxMemberBytes : Nat := 64 * 1024 * 1024

def maxTotalUncompressedBytes : Nat := 256 * 1024 * 1024

/-- A `zipfile.ZipInfo`. -/
structure ZipInfo where
  filename : PyStr
  flagBits : Nat
  fileSize : Nat
  deriving DecidableEq

/-- `pathlib.PurePosixPath(info.filename.replace("\\", "/"))`. -/
def ZipInfo.memberPath (info : ZipInfo) : Path := parse (info.filename.map fun c => if c = 0x5C then slash else c)

def ZipInfo.check (info : ZipInfo) : Except OfficeError Unit :=
  if info.memberPath.isAbsolute ∨ lit ".." ∈ info.memberPath.parts then
    .error (.policy "archive contains an unsafe member path")
  else if info.flagBits &&& 1 ≠ 0 then .error (.policy "archive contains encrypted members")
  else if maxMemberBytes < info.fileSize then .error (.tooLarge "archive member exceeds uncompressed size limit")
  else .ok ()

/-- `open_bounded_archive`; the members are none for a BadZipFile. -/
def openBoundedArchive (infolist : Option (List ZipInfo)) : Except OfficeError (List ZipInfo) :=
  match infolist with
  | none => .error (.corrupt "office document is not a valid zip archive")
  | some infos => do
    if maxArchiveMembers < infos.length then
      .error (.tooLarge ("archive exceeds " ++ toString maxArchiveMembers ++ " member limit"))
    let _ ← infos.mapM ZipInfo.check
    if maxTotalUncompressedBytes < (infos.map (·.fileSize)).sum then
      .error (.tooLarge "archive exceeds total uncompressed size limit")
    pure infos

/-- `assert_no_macros`. -/
def assertNoMacros (archive : List ZipInfo) (familyPrefix : String) : Except OfficeError Unit :=
  if archive.any (fun info => info.filename = lit (familyPrefix ++ "vbaProject.bin")) then
    .error (.policy "office document contains macros")
  else .ok ()

/-! ## Workbooks -/

/-- What a cell holds; `object` is any other Python object, by its `str`. -/
inductive CellValue (F : Type)
  | none
  | bool (b : Bool)
  | int (n : Int)
  | float (f : F)
  | str (s : String)
  | object (text : String)

/-- How a formula is stored; only an ordinary one is read as a str. -/
inductive FormulaKind
  | ordinary | array | dataTable
  deriving DecidableEq

structure Formula where
  kind : FormulaKind
  text : String
  deriving DecidableEq

/-- The formula as a sheet shows it. -/
def Formula.shown (f : Formula) : String := "=" ++ f.text

/-- A cell that is there: the value stored with it, and its formula. -/
structure StoredCell (F : Type) where
  cached : CellValue F
  formula : Option Formula := Option.none

/-- A sheet: its rows from the first on, each with its cells from the first column on. -/
structure Worksheet (F : Type) where
  title : String
  rows : List (List (Option (StoredCell F)))

structure Workbook (F : Type) where
  sheets : List (Worksheet F)

/-- What zipfile and openpyxl bring along. -/
structure XlsxLibrary (F : Type) where
  /-- `zipfile.ZipFile(io.BytesIO(data)).infolist()`; none for a BadZipFile. -/
  infolist : List UInt8 → Option (List ZipInfo)
  /-- `openpyxl.load_workbook(io.BytesIO(data), read_only=True)`; none where it raises. -/
  loadWorkbook : List UInt8 → Option (Workbook F)
  /-- `version("openpyxl")`. -/
  version : String
  /-- The `str` of an ArrayFormula or a DataTableFormula. -/
  formulaRepr : Formula → String
  isInteger : F → Bool
  toInt : F → Int
  /-- `str(f)`. -/
  floatStr : F → String

/-! ## What openpyxl yields -/

/-- `get_column_letter(n)`: bijective numeration with 26 letters. -/
def columnLetters (n : Nat) : List Char :=
  if _h : n = 0 then []
  else columnLetters ((n - 1) / 26) ++ [Char.ofNat (65 + (n - 1) % 26)]
  decreasing_by omega

/-- `cell.coordinate`. -/
def coordinate (row column : Nat) : String := String.ofList (columnLetters column) ++ toString row

/-- A cell of a row that `iter_rows` yields. -/
inductive YieldedCell (F : Type)
  | empty
  | cell (row column : Nat) (value : CellValue F)

/-- `cell.value`. -/
def YieldedCell.value {F : Type} : YieldedCell F → CellValue F
  | empty => .none
  | cell _ _ value => value

variable {F : Type} (lib : XlsxLibrary F)

/-- The value of a cell in a `data_only` load, or in one that is not. -/
def StoredCell.value (dataOnly : Bool) (c : StoredCell F) : CellValue F :=
  match dataOnly, c.formula with
  | false, some f => if f.kind = .ordinary then .str f.shown else .object (lib.formulaRepr f)
  | _, _ => c.cached

/-- The cells of a row from `column` on. -/
def yieldRow (dataOnly : Bool) (row : Nat) : Nat → List (Option (StoredCell F)) → List (YieldedCell F)
  | _, [] => []
  | column, c :: cells =>
    (match c with
      | none => YieldedCell.empty
      | some c => .cell row column (c.value lib dataOnly)) :: yieldRow dataOnly row (column + 1) cells

/-- `sheet.iter_rows()` from `row` on. -/
def yieldRows (dataOnly : Bool) : Nat → List (List (Option (StoredCell F))) → List (List (YieldedCell F))
  | _, [] => []
  | row, cells :: rows => yieldRow lib dataOnly row 1 cells :: yieldRows dataOnly (row + 1) rows

/-! ## Nodes -/

/-- Why `parse_xlsx` raises; all but the first are no errors of the parser's own. -/
inductive XlsxRaised
  | office (e : OfficeError)
  | attributeError
  | valueError
  | keyError
  deriving DecidableEq

def xlsxMaxSheets : Nat := 200

def xlsxMaxRows : Nat := 100000

def xlsxMaxColumns : Nat := 1024

/-- `_formula_text`. -/
def formulaText : CellValue F → Option String
  | .str s => if "=".toList <+: s.toList then some s else none
  | _ => none

/-- `_cell_text`. -/
def cellText : CellValue F → Option String
  | .none => none
  | .bool b => some (if b then "TRUE" else "FALSE")
  | .float f => some (if lib.isInteger f then toString (lib.toInt f) else lib.floatStr f)
  | .int n => some (toString n)
  | .str s => some s
  | .object text => some text

def xlsxSheetIdentity (sheetNumber : Nat) : String := "sheet:" ++ toString sheetNumber

def xlsxTableIdentity (name : String) : String := "sheet:" ++ name ++ ":table:1"

def xlsxRowIdentity (name : String) (row : Nat) : String := xlsxTableIdentity name ++ ":row:" ++ toString row

def xlsxCellIdentity (name : String) (row : Nat) (coordinate : String) : String :=
  xlsxRowIdentity name row ++ ":cell:" ++ coordinate

namespace Runtime

variable (rt : Runtime)

def xlsxParser : ParserDescriptor where
  identity := "milpbooklm.xlsx"
  version := "1"
  profile := "xlsx-values-v1"
  toolVersions := ["openpyxl=" ++ lib.version]
  extraFields := [("formula_policy", .str "stored_not_evaluated"), ("recalculation", .str "none")]

def xlsxSheetNode (documentId : Uuid) (sheetNumber : Nat) (name : String) : CanonicalNode where
  nodeId := rt.canonicalNodeId documentId (xlsxSheetIdentity sheetNumber)
  kind := .sheet
  structuralIdentity := xlsxSheetIdentity sheetNumber
  parentId := some (rt.canonicalNodeId documentId "document")
  childOrder := sheetNumber
  text := none
  locator :=
    { path := ["document", "sheet", name]
      extraFields := [("sheet", .str name), ("sheet_index", .int sheetNumber)] }
  extraFields := [("sheet_name", .str name)]

def xlsxTableNode (documentId : Uuid) (sheetNumber : Nat) (name : String) : CanonicalNode where
  nodeId := rt.canonicalNodeId documentId (xlsxTableIdentity name)
  kind := .table
  structuralIdentity := xlsxTableIdentity name
  parentId := some (rt.canonicalNodeId documentId (xlsxSheetIdentity sheetNumber))
  childOrder := 1
  text := none
  locator := { path := ["document", "sheet", name, "table", "1"], extraFields := [("sheet", .str name)] }

def xlsxRowNode (documentId : Uuid) (name : String) (rowNumber : Nat) : CanonicalNode where
  nodeId := rt.canonicalNodeId documentId (xlsxRowIdentity name rowNumber)
  kind := .row
  structuralIdentity := xlsxRowIdentity name rowNumber
  parentId := some (rt.canonicalNodeId documentId (xlsxTableIdentity name))
  childOrder := rowNumber
  text := none
  locator :=
    { path := ["document", "sheet", name, "row", toString rowNumber]
      extraFields := [("sheet", .str name), ("row", .int rowNumber)] }

/-- Where a cell says that it is. -/
def xlsxCellLocator (name : String) (row column : Nat) : SourceLocator where
  path := ["document", "sheet", name, "cell", coordinate row column]
  extraFields :=
    [("sheet", .str name), ("row", .int row), ("col", .int column), ("cell_ref", .str (coordinate row column))]

/-- The node of a cell at `row` and `column`; the numbers of the enumerations are its row's and its own. -/
def xlsxCellNode (documentId : Uuid) (name : String) (rowNumber columnNumber row column : Nat) (value : CellValue F)
    (formula : Option String) : CanonicalNode where
  nodeId := rt.canonicalNodeId documentId (xlsxCellIdentity name rowNumber (coordinate row column))
  kind := .cell
  structuralIdentity := xlsxCellIdentity name rowNumber (coordinate row column)
  parentId := some (rt.canonicalNodeId documentId (xlsxRowIdentity name rowNumber))
  childOrder := columnNumber
  text := (cellText lib value).map String.toList
  locator := xlsxCellLocator name row column
  extraFields := (formula.map fun f => ("formula", .str f)).toList

/-! ## parse_xlsx -/

/-- The inner loop of `_emit_sheet`, from `columnNumber` on. -/
def emitXlsxCells (documentId : Uuid) (name : String) (rowNumber : Nat) :
    Nat → List (YieldedCell F) → List (YieldedCell F) → Except XlsxRaised (List CanonicalNode)
  | _, [], [] => .ok []
  | columnNumber, cell :: valueRow, formulaCell :: formulaRow =>
    if xlsxMaxColumns < columnNumber then
      .error (.office (.tooLarge ("sheet " ++ name ++ " exceeds " ++ toString xlsxMaxColumns ++ " column limit")))
    else
      let formula := formulaText formulaCell.value
      match cell with
      -- the placeholder has no coordinate
      | .empty => .error .attributeError
      | .cell row column value => do
        let rest ← emitXlsxCells documentId name rowNumber (columnNumber + 1) valueRow formulaRow
        pure (rt.xlsxCellNode lib documentId name rowNumber columnNumber row column value formula :: rest)
  | _, _, _ => .error .valueError

/-- The outer loop of `_emit_sheet`, from `rowNumber` on. -/
def emitXlsxRows (documentId : Uuid) (name : String) :
    Nat → List (List (YieldedCell F)) → List (List (YieldedCell F)) → Except XlsxRaised (List CanonicalNode)
  | _, [], [] => .ok []
  | rowNumber, valueRow :: values, formulaRow :: formulas =>
    if xlsxMaxRows < rowNumber then
      .error (.office (.tooLarge ("sheet " ++ name ++ " exceeds " ++ toString xlsxMaxRows ++ " row limit")))
    else do
      let cells ← rt.emitXlsxCells lib documentId name rowNumber 1 valueRow formulaRow
      let rest ← emitXlsxRows documentId name (rowNumber + 1) values formulas
      pure (rt.xlsxRowNode documentId name rowNumber :: (cells ++ rest))
  | _, _, _ => .error .valueError

/-- `_emit_sheet`, after the node of the sheet. -/
def emitXlsxSheet (documentId : Uuid) (sheetNumber : Nat) (name : String) (sheet : Worksheet F) :
    Except XlsxRaised (List CanonicalNode) := do
  let rows ← rt.emitXlsxRows lib documentId name 1 (yieldRows lib true 1 sheet.rows) (yieldRows lib false 1 sheet.rows)
  pure (rt.xlsxTableNode documentId sheetNumber name :: rows)

/-- The loop over the names of the sheets, from `sheetNumber` on; `workbook[name]` is the first sheet of the name. -/
def emitXlsxSheets (documentId : Uuid) (workbook : Workbook F) :
    Nat → List String → Except XlsxRaised (List CanonicalNode)
  | _, [] => .ok []
  | sheetNumber, name :: names =>
    match workbook.sheets.find? (·.title = name) with
    | none => .error .keyError
    | some sheet => do
      let nodes ← rt.emitXlsxSheet lib documentId sheetNumber name sheet
      let rest ← emitXlsxSheets documentId workbook (sheetNumber + 1) names
      pure (rt.xlsxSheetNode documentId sheetNumber name :: (nodes ++ rest))

def xlsxDocument (sourceVersionId : Uuid) (sheetNames : List String) (nodes : List CanonicalNode) : CanonicalDocument :=
  let documentId := rt.canonicalDocumentId sourceVersionId (xlsxParser lib)
  { documentId
    sourceVersionId
    mimeType := "application/vnd.openxmlformats-officedocument.spreadsheetml.sheet"
    parser := xlsxParser lib
    languages := []
    metadata := [("sheets", .arr (sheetNames.map .str))]
    rootNodeIds := [rt.canonicalNodeId documentId "document"]
    nodes }

def xlsxDocumentNode (documentId : Uuid) : CanonicalNode where
  nodeId := rt.canonicalNodeId documentId "document"
  kind := .document
  structuralIdentity := "document"
  parentId := none
  childOrder := 0
  text := none
  locator := { path := ["document"] }

/-- What `parse_xlsx` checks before it loads the workbook. -/
def checkXlsxPackage (data : List UInt8) : Except OfficeError Unit := do
  let archive ← openBoundedArchive (lib.infolist data)
  assertNoMacros archive "xl/"
  if archive.any fun info => (lit "xl/externalLinks/").isPrefixOf info.filename then
    .error (.policy "workbook contains external links")

def parseXlsx (sourceVersionId : Uuid) (data : List UInt8) : Except XlsxRaised CanonicalDocument := do
  (checkXlsxPackage lib data).mapError .office
  match lib.loadWorkbook data with
  | none => .error (.office (.corrupt "workbook cannot be opened read-only"))
  | some workbook =>
    if xlsxMaxSheets < workbook.sheets.length then
      .error (.office (.tooLarge ("workbook exceeds " ++ toString xlsxMaxSheets ++ " sheet limit")))
    else do
      let sheetNames := workbook.sheets.map (·.title)
      let documentId := rt.canonicalDocumentId sourceVersionId (xlsxParser lib)
      let nodes ← rt.emitXlsxSheets lib documentId workbook 1 sheetNames
      pure (rt.xlsxDocument lib sourceVersionId sheetNames (rt.xlsxDocumentNode documentId :: nodes))

end Runtime

end MilpbookLM
