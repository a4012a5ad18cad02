/-
The Markdown parser. A block is taken off the front of the lines by the first
pattern that its first line matches; `parseBlocks` has fuel, since a line that is a
row of no table and no other block either is taken by none of them, again and again.

`Runtime.nodeRelative_parseMarkdown`: the locator of a node that has text is the text's own
extent, from 0; a table has no characters at all.
-/
import MilpbookLM.Documents.TextParser

namespace MilpbookLM

/-! ## The patterns of a line -/

/-- `^(#{1,6})\s+(.*)$`: the level and the title. -/
def atxHeading (line : Text) : Option (Nat × Text) :=
  let level := (line.takeWhile (· = '#')).length
  let rest := line.drop level
  if 1 ≤ level ∧ level ≤ 6 ∧ rest.head?.any isSpace then some (level, rest.dropWhile isSpace) else none

/-- "^(```|~~~)\s*(\S*)": the marker and the language. -/
def fence (line : Text) : Option (Text × Text) :=
  (["```".toList, "~~~".toList].find? (·.isPrefixOf line)).map fun marker =>
    (marker, ((line.drop marker.length).dropWhile isSpace).takeWhile fun c => !isSpace c)

/-- `^>\s?(.*)$`: what is quoted. -/
def quoteLine : Text → Option Text
  | '>' :: c :: t => some (if isSpace c then t else c :: t)
  | ['>'] => some []
  | _ => none

/-- `^\s*\|(.+)\|\s*$`: what stands between the outer bars. -/
def tableRow (line : Text) : Option Text :=
  let t := strip line
  if 3 ≤ t.length ∧ t.head? = some '|' ∧ t.getLast? = some '|' then some (t.drop 1).dropLast else none

/-- `^\s*\|?[\s:|-]*-[\s:|-]*\|?\s*$`. -/
def isTableSeparator (line : Text) : Bool :=
  line.all (fun c => isSpace c || c = ':' || c = '|' || c = '-') && line.contains '-'

/-- `_is_table_start`. -/
def isTableStart : List Text → Bool
  | first :: second :: _ => (tableRow first).isSome && isTableSeparator second && second.contains '-'
  | _ => false

/-- `_row_cells`. -/
def rowCells (line : Text) : List Text :=
  match tableRow line with
  | none => []
  | some inner => (inner.splitOn '|').map strip

/-- `_quote_text`. -/
def quoteText (line : Text) : Text :=
  match quoteLine line with
  | some t => strip t
  | none => strip line

namespace Runtime

variable (rt : Runtime)

/-- `^\s*([-*+]|\d+[.)])\s+(.*)$`: the item behind its marker. -/
def listItem (line : Text) : Option Text := do
  let t := line.dropWhile isSpace
  let rest ← match t with
    | [] => none
    | c :: t =>
      if c = '-' ∨ c = '*' ∨ c = '+' then some t
      else
        let digits := (c :: t).takeWhile rt.isDecimal
        match (c :: t).drop digits.length with
        | d :: rest => if digits ≠ [] ∧ (d = '.' ∨ d = ')') then some rest else none
        | [] => none
  if rest.head?.any isSpace then some (rest.dropWhile isSpace) else none

/-- `_item_text`. -/
def itemText (line : Text) : Text :=
  match rt.listItem line with
  | some t => strip t
  | none => strip line

/-- `_is_plain_continuation`. -/
def isPlainContinuation (line : Text) : Bool :=
  !((atxHeading line).isSome || (fence line).isSome || (rt.listItem line).isSome || (quoteLine line).isSome ||
    (tableRow line).isSome)

end Runtime

/-! ## The builder -/

/-- `_NodeBuilder`. -/
structure NodeBuilder where
  documentId : Uuid
  rootId : Uuid
  block : Nat
  nodes : List CanonicalNode

/-- Where a node goes and what it carries besides its text. -/
structure Placement where
  parent : Option Uuid := none
  identitySuffix : String := ""
  order : Nat := 0
  extra : Dict := []

namespace NodeBuilder

variable (rt : Runtime) (b : NodeBuilder)

/-- `_identity`, of the block that comes next. -/
def identity (kind : NodeKind) (identitySuffix : String) : String :=
  let identity := kind.value ++ ":" ++ toString (b.block + 1)
  if identitySuffix ≠ "" then identity ++ ":" ++ identitySuffix else identity

/-- The id of the node that comes next. -/
def nextId (kind : NodeKind) (at' : Placement) : Uuid :=
  rt.canonicalNodeId b.documentId (b.identity kind at'.identitySuffix)

/-- The next block's node: with its text and the extent of that, or with neither. -/
def append (kind : NodeKind) (text : Option Text) (at' : Placement) : NodeBuilder :=
  { b with
    block := b.block + 1
    nodes := b.nodes ++ [{
      nodeId := b.nextId rt kind at'
      kind
      structuralIdentity := b.identity kind at'.identitySuffix
      parentId := some (at'.parent.getD b.rootId)
      childOrder := if at'.order ≠ 0 then at'.order else b.block + 1
      text
      locator := {
        path := ["document", "block", toString (b.block + 1)]
        charStart := text.map fun _ => 0
        charEnd := text.map (·.length) }
      extraFields := at'.extra }] }

/-- A structural container. -/
def start (kind : NodeKind) (at' : Placement) : NodeBuilder := b.append rt kind none at'

/-- A node that has text. -/
def emit (kind : NodeKind) (text : Text) (at' : Placement) : NodeBuilder := b.append rt kind (some text) at'

/-! ## Blocks: what each takes off the lines -/

/-- `_emit_paragraph`. -/
def emitParagraph (lines : List Text) : NodeBuilder × List Text :=
  let more (line : Text) := !isBlank line && rt.isPlainContinuation line
  let body := (lines.takeWhile more).map strip
  (b.emit rt .paragraph (joinWith [' '] body) {}, lines.dropWhile more)

/-- `_emit_code`, of the lines after the opening fence. -/
def emitCode (marker language : Text) (lines : List Text) : NodeBuilder × List Text :=
  let more (line : Text) := !marker.isPrefixOf line
  let extra : Dict := if language ≠ [] then [("language", .str (String.ofList language))] else []
  (b.emit rt .code (joinWith ['\n'] (lines.takeWhile more)) { extra }, (lines.dropWhile more).drop 1)

/-- The items from `order` on. -/
def emitItems (listNode : Uuid) : NodeBuilder → Nat → List Text → NodeBuilder
  | b, _, [] => b
  | b, order, line :: items =>
    emitItems listNode
      (b.emit rt .listItem (rt.itemText line)
        { parent := some listNode, identitySuffix := "item:" ++ toString order, order }) (order + 1) items

/-- `_emit_list`. -/
def emitList (lines : List Text) : NodeBuilder × List Text :=
  let more (line : Text) := (rt.listItem line).isSome
  let listNode := b.nextId rt .list {}
  (emitItems rt listNode (b.start rt .list {}) 1 (lines.takeWhile more), lines.dropWhile more)

/-- `_emit_quote`. -/
def emitQuote (lines : List Text) : NodeBuilder × List Text :=
  let more (line : Text) := (quoteLine line).isSome
  (b.emit rt .quote (joinWith ['\n'] ((lines.takeWhile more).map quoteText)) {}, lines.dropWhile more)

/-- The cells of a row from `column` on. -/
def emitCells (rowNode : Uuid) (rowNumber : Nat) : NodeBuilder → Nat → List Text → NodeBuilder
  | b, _, [] => b
  | b, column, value :: cells =>
    emitCells rowNode rowNumber
      (b.emit rt .cell value
        { parent := some rowNode
          identitySuffix := "row:" ++ toString rowNumber ++ ":cell:" ++ toString column
          order := column }) (column + 1) cells

/-- The rows from `rowNumber` on. -/
def emitRows (tableNode : Uuid) : NodeBuilder → Nat → List Text → NodeBuilder
  | b, _, [] => b
  | b, rowNumber, line :: rows =>
    let placement : Placement :=
      { parent := some tableNode, identitySuffix := "row:" ++ toString rowNumber, order := rowNumber }
    emitRows tableNode
      (emitCells rt (b.nextId rt .row placement) rowNumber (b.start rt .row placement) 1 (rowCells line))
      (rowNumber + 1) rows

/-- `_emit_table`: the header, the separator and the rows. -/
def emitTable (lines : List Text) : NodeBuilder × List Text :=
  let more (line : Text) := (tableRow line).isSome
  let header := (lines.take 1).flatMap rowCells
  let placement : Placement := { extra := [("header", .arr (header.map fun cell => .str (String.ofList cell)))] }
  (emitRows rt (b.nextId rt .table placement) (b.start rt .table placement) 1 ((lines.drop 2).takeWhile more),
    (lines.drop 2).dropWhile more)

/-- The loop of `parse_markdown`. -/
def parseBlocks : Nat → NodeBuilder → List Text → Option NodeBuilder
  | _, b, [] => some b
  | 0, _, _ => none
  | fuel + 1, b, line :: lines =>
    if isBlank line then parseBlocks fuel b lines
    else match fence line with
    | some (marker, language) =>
      let (b, lines) := b.emitCode rt marker language lines
      parseBlocks fuel b lines
    | none => match atxHeading line with
      | some (level, title) =>
        parseBlocks fuel (b.emit rt .heading (strip title) { extra := [("heading_level", .int level)] }) lines
      | none =>
        let (b, lines) :=
          if isTableStart (line :: lines) then b.emitTable rt (line :: lines)
          else if (rt.listItem line).isSome then b.emitList rt (line :: lines)
          else if (quoteLine line).isSome then b.emitQuote rt (line :: lines)
          else b.emitParagraph rt (line :: lines)
        parseBlocks fuel b lines

end NodeBuilder

/-! ## parse_markdown -/

namespace Runtime

variable (rt : Runtime)

def markdownParser : ParserDescriptor where
  identity := "milpbooklm.markdown"
  version := "1"
  profile := "markdown-structure-v1"
  toolVersions := rt.toolVersions

/-- `parse_markdown`; none where it refuses the bytes, and out of fuel. -/
def parseMarkdown (fuel : Nat) (sourceVersionId : Uuid) (data : List UInt8) : Option CanonicalDocument := do
  let text ← rt.decodeText data
  let documentId := rt.canonicalDocumentId sourceVersionId rt.markdownParser
  let rootId := rt.canonicalNodeId documentId "document"
  let builder : NodeBuilder := { documentId, rootId, block := 0, nodes := [rt.documentNode documentId text.length] }
  let builder ← NodeBuilder.parseBlocks rt fuel builder (text.splitOn '\n')
  pure {
    documentId
    sourceVersionId
    mimeType := "text/markdown"
    parser := rt.markdownParser
    languages := []
    metadata := [("normalization", .str "NFC+LF")]
    rootNodeIds := [rootId]
    nodes := builder.nodes }

end Runtime

/-! ## What every block keeps -/

namespace NodeBuilder

section Kept

variable {rt : Runtime} {P : NodeBuilder → Prop} {b : NodeBuilder}
  (happend : ∀ b kind text at', text = none ∨ kind ≠ .table → P b → P (b.append rt kind text at'))

include happend

theorem keep_start {kind at'} (hb : P b) : P (b.start rt kind at') := happend b kind none at' (.inl rfl) hb

theorem keep_emit {kind text at'} (h : kind ≠ .table) (hb : P b) : P (b.emit rt kind text at') :=
  happend b kind (some text) at' (.inr h) hb

theorem keep_emitItems {listNode : Uuid} {items : List Text} {order} (hb : P b) :
    P (emitItems rt listNode b order items) := by
  induction items generalizing b order with
  | nil => exact hb
  | cons line items ih => exact ih (keep_emit happend (by simp) hb)

theorem keep_emitCells {rowNode : Uuid} {rowNumber : Nat} {cells : List Text} {column} (hb : P b) :
    P (emitCells rt rowNode rowNumber b column cells) := by
  induction cells generalizing b column with
  | nil => exact hb
  | cons value cells ih => exact ih (keep_emit happend (by simp) hb)

theorem keep_emitRows {tableNode : Uuid} {rows : List Text} {rowNumber} (hb : P b) :
    P (emitRows rt tableNode b rowNumber rows) := by
  induction rows generalizing b rowNumber with
  | nil => exact hb
  | cons line rows ih => exact ih (keep_emitCells happend (keep_start happend hb))

/-- **What every node keeps that is appended, the parser keeps.** -/
theorem keep_parseBlocks {fuel : Nat} {lines : List Text} {b' : NodeBuilder} (hb : P b)
    (h : parseBlocks rt fuel b lines = some b') : P b' := by
  induction fuel generalizing b lines with
  | zero =>
    cases lines with
    | nil => exact Option.some.inj h ▸ hb
    | cons line lines => cases h
  | succ fuel ih =>
    cases lines with
    | nil => exact Option.some.inj h ▸ hb
    | cons line lines =>
      simp only [parseBlocks] at h
      split at h
      · exact ih hb h
      · split at h
        · exact ih (keep_emit happend (by simp) hb) h
        · split at h
          · exact ih (keep_emit happend (by simp) hb) h
          · refine ih ?_ h
            split
            · exact keep_emitRows happend (keep_start happend hb)
            · split
              · exact keep_emitItems happend (keep_start happend hb)
              · split
                · exact keep_emit happend (by simp) hb
                · exact keep_emit happend (by simp) hb

end Kept

end NodeBuilder

/-! ## Locators are relative to their nodes -/

/-- No characters at all, or from 0 to past the end of the node's text. -/
def CanonicalNode.NodeRelative (node : CanonicalNode) : Prop :=
  node.locator.charStart = none ∧ node.locator.charEnd = none ∨
    node.kind ≠ .table ∧ node.locator.charStart = some 0 ∧
      ∃ stop, node.locator.charEnd = some stop ∧ node.textOrEmpty.length ≤ stop

theorem NodeBuilder.nodeRelative_append {rt : Runtime} {b : NodeBuilder} {kind text at'} (h : text = none ∨ kind ≠ .table)
    (hb : ∀ node ∈ b.nodes, node.NodeRelative) : ∀ node ∈ (b.append rt kind text at').nodes, node.NodeRelative := by
  intro node hn
  simp only [NodeBuilder.append, List.mem_append, List.mem_singleton] at hn
  rcases hn with hn | rfl
  · exact hb node hn
  · cases text with
    | none => exact .inl ⟨rfl, rfl⟩
    | some t => exact .inr ⟨h.resolve_left (by simp), rfl, t.length, rfl, Nat.le_refl _⟩

namespace Runtime

variable {rt : Runtime} {fuel : Nat} {sourceVersionId : Uuid} {data : List UInt8} {document : CanonicalDocument}

/-- The builder before the first block. -/
def newBuilder (rt : Runtime) (sourceVersionId : Uuid) (textLength : Nat) : NodeBuilder :=
  let documentId := rt.canonicalDocumentId sourceVersionId rt.markdownParser
  { documentId
    rootId := rt.canonicalNodeId documentId "document"
    block := 0
    nodes := [rt.documentNode documentId textLength] }

/-- What holds of the document node alone and is kept by every node after it, holds of the document. -/
theorem parseMarkdown_keeps {P : NodeBuilder → Prop}
    (happend : ∀ b kind text at', text = none ∨ kind ≠ .table → P b → P (b.append rt kind text at'))
    (hnew : ∀ textLength, P (rt.newBuilder sourceVersionId textLength))
    (h : rt.parseMarkdown fuel sourceVersionId data = some document) :
    ∃ builder, P builder ∧ document.nodes = builder.nodes ∧
      document.rootNodeIds = [(rt.newBuilder sourceVersionId 0).rootId] := by
  simp only [Runtime.parseMarkdown, Option.bind_eq_bind, Option.bind_eq_some_iff] at h
  obtain ⟨text, -, builder, hb, h⟩ := h
  cases h
  exact ⟨builder, NodeBuilder.keep_parseBlocks happend (hnew text.length) hb, rfl, rfl⟩

theorem root_parseMarkdown (h : rt.parseMarkdown fuel sourceVersionId data = some document) :
    ∀ root ∈ document.rootNodeIds, ∃ node ∈ document.nodes, node.nodeId = root := by
  obtain ⟨builder, ⟨node, hn, hid⟩, hnodes, hroots⟩ := parseMarkdown_keeps
    (P := fun b => ∃ node ∈ b.nodes, node.nodeId = (rt.newBuilder sourceVersionId 0).rootId)
    (fun b kind text at' _ ⟨node, hn, hid⟩ => ⟨node, List.mem_append_left _ hn, hid⟩)
    (fun textLength => ⟨_, List.mem_cons_self, rfl⟩) h
  intro root hroot
  rw [hroots, List.mem_singleton] at hroot
  exact ⟨node, hnodes ▸ hn, hid.trans hroot.symm⟩

/-- **The locator of a Markdown node is the extent of its own text, or has no characters.** -/
theorem nodeRelative_parseMarkdown (h : rt.parseMarkdown fuel sourceVersionId data = some document) :
    ∀ node ∈ document.nodes, node.NodeRelative := by
  obtain ⟨builder, hb, hnodes, -⟩ := parseMarkdown_keeps (P := fun b => ∀ node ∈ b.nodes, node.NodeRelative)
    (fun b kind text at' => NodeBuilder.nodeRelative_append) (fun textLength node hn => by
      cases List.mem_singleton.1 hn
      exact .inr ⟨by simp [documentNode], rfl, textLength, rfl, Nat.zero_le _⟩) h
  exact hnodes ▸ hb

end Runtime

end MilpbookLM
