/-
The CSV parser: one table a file, its rows and their cells in the order of the file.
Python's csv module is a `CsvLibrary`, of which nothing is assumed.
-/
import MilpbookLM.Documents.TextParser

namespace MilpbookLM

/-- What `csv` brings along. -/
structure CsvLibrary (Dialect : Type) where
  /-- `csv.excel`. -/
  excel : Dialect
  /-- `csv.Sniffer().sniff(sample, delimiters=",;\t|")`; none for a csv.Error. -/
  sniff : Text → Option Dialect
  /-- `csv.Sniffer().has_header(sample)`; none for a csv.Error. -/
  hasHeader : Text → Option Bool
  /-- The rows that `csv.reader` yields, and whether it raises after them. -/
  reader : Dialect → Text → List (List Text) × Bool

/-- Why `parse_csv` raises. -/
inductive CsvRefused
  | undecodable
  | malformed
  | tooLarge (detail : String)
  deriving DecidableEq

def csvMaxRows : Nat := 100000

def csvMaxFields : Nat := 4096

/-- _DIALECT_SAMPLE_BYTES, which counts characters. -/
def dialectSampleSize : Nat := 64 * 1024

/-- The loop of `_read_rows`, after `count` rows. -/
def readRowsFrom : Nat → List (List Text) × Bool → Except CsvRefused (List (List Text))
  | _, ([], raises) => if raises then .error .malformed else .ok []
  | count, (row :: rows, raises) =>
    if csvMaxRows ≤ count then .error (.tooLarge ("CSV exceeds " ++ toString csvMaxRows ++ " row limit"))
    else if csvMaxFields < row.length then
      .error (.tooLarge ("CSV row exceeds " ++ toString csvMaxFields ++ " field limit"))
    else (readRowsFrom (count + 1) (rows, raises)).map (row :: ·)

/-- `_read_rows`. -/
def readRows (read : List (List Text) × Bool) : Except CsvRefused (List (List Text)) := do
  let rows ← readRowsFrom 0 read
  if rows = [] then .error (.tooLarge "CSV contains no rows") else .ok rows

/-- `_detect_dialect`. -/
def CsvLibrary.detectDialect {Dialect : Type} (csv : CsvLibrary Dialect) (text : Text) : Dialect × String × Bool :=
  let sample := text.take dialectSampleSize
  match csv.sniff sample, csv.hasHeader sample with
  | some dialect, some hasHeader => (dialect, "sniffed", hasHeader)
  | _, _ => (csv.excel, "excel-fallback", false)

/-! ## Nodes -/

def csvTableIdentity : String := "table:1"

def csvRowIdentity (rowNumber : Nat) : String := csvTableIdentity ++ ":row:" ++ toString rowNumber

def csvCellIdentity (rowNumber column : Nat) : String := csvRowIdentity rowNumber ++ ":cell:" ++ toString column

def csvRowPath (rowNumber : Nat) : List String := ["document", "table", "1", "row", toString rowNumber]

namespace Runtime

variable (rt : Runtime)

def csvParser : ParserDescriptor where
  identity := "milpbooklm.csv"
  version := "1"
  profile := "csv-table-v1"
  toolVersions := rt.toolVersions

def csvDocumentNode (documentId : Uuid) : CanonicalNode where
  nodeId := rt.canonicalNodeId documentId "document"
  kind := .document
  structuralIdentity := "document"
  parentId := none
  childOrder := 0
  text := none
  locator := { path := ["document"] }

def csvTableNode (documentId : Uuid) (tableExtra : Dict) : CanonicalNode where
  nodeId := rt.canonicalNodeId documentId csvTableIdentity
  kind := .table
  structuralIdentity := csvTableIdentity
  parentId := some (rt.canonicalNodeId documentId "document")
  childOrder := 1
  text := none
  locator := { path := ["document", "table", "1"], extraFields := tableExtra }

def csvRowNode (documentId : Uuid) (rowNumber : Nat) : CanonicalNode where
  nodeId := rt.canonicalNodeId documentId (csvRowIdentity rowNumber)
  kind := .row
  structuralIdentity := csvRowIdentity rowNumber
  parentId := some (rt.canonicalNodeId documentId csvTableIdentity)
  childOrder := rowNumber
  text := none
  locator := { path := csvRowPath rowNumber, extraFields := [("row", .int rowNumber)] }

def csvCellNode (documentId : Uuid) (rowNumber column : Nat) (value : Text) : CanonicalNode where
  nodeId := rt.canonicalNodeId documentId (csvCellIdentity rowNumber column)
  kind := .cell
  structuralIdentity := csvCellIdentity rowNumber column
  parentId := some (rt.canonicalNodeId documentId (csvRowIdentity rowNumber))
  childOrder := column
  text := some value
  locator := { path := csvRowPath rowNumber, extraFields := [("row", .int rowNumber), ("col", .int column)] }

/-- The cells of a row from `column` on. -/
def csvCellNodes (documentId : Uuid) (rowNumber : Nat) : Nat → List Text → List CanonicalNode
  | _, [] => []
  | column, value :: values =>
    rt.csvCellNode documentId rowNumber column value :: csvCellNodes documentId rowNumber (column + 1) values

/-- The rows from `rowNumber` on, each with its cells. -/
def csvRowNodes (documentId : Uuid) : Nat → List (List Text) → List CanonicalNode
  | _, [] => []
  | rowNumber, row :: rows =>
    rt.csvRowNode documentId rowNumber ::
      (rt.csvCellNodes documentId rowNumber 1 row ++ csvRowNodes documentId (rowNumber + 1) rows)

/-! ## parse_csv -/

/-- The document of the rows. -/
def csvDocument (sourceVersionId : Uuid) (dialectName : String) (hasHeader : Bool) (rows : List (List Text)) :
    CanonicalDocument :=
  let documentId := rt.canonicalDocumentId sourceVersionId rt.csvParser
  let tableExtra : Dict :=
    match hasHeader, rows with
    | true, row :: _ => [("header", .arr (row.map fun cell => .str (String.ofList cell)))]
    | _, _ => []
  { documentId
    sourceVersionId
    mimeType := "text/csv"
    parser := rt.csvParser
    languages := []
    metadata := [("dialect", .str dialectName), ("has_header", .bool hasHeader), ("rows", .int rows.length)]
    rootNodeIds := [rt.canonicalNodeId documentId "document"]
    nodes :=
      rt.csvDocumentNode documentId :: rt.csvTableNode documentId tableExtra :: rt.csvRowNodes documentId 1 rows }

def parseCsv {Dialect : Type} (csv : CsvLibrary Dialect) (sourceVersionId : Uuid) (data : List UInt8) :
    Except CsvRefused CanonicalDocument :=
  match rt.decodeText data with
  | none => .error .undecodable
  | some text => do
    let (dialect, dialectName, hasHeader) := csv.detectDialect text
    let rows ← readRows (csv.reader dialect text)
    pure (rt.csvDocument sourceVersionId dialectName hasHeader rows)

end Runtime

end MilpbookLM
