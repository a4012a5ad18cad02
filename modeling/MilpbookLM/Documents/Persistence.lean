/-
What the repository of canonical documents stores (`persist`, `insertNode`) and
what a publication asks of it (`validateItem`): a cited node has to be in the
frozen notebook, and one of its locators has to cover the cited span.

`Runtime.locators_of_node`: a document that is stored leaves one locator to each
of its nodes, the node's own.
-/
import MilpbookLM.Documents.Canonical
import MilpbookLM.Sources.Tables

namespace MilpbookLM

open Table

/-! ## Rows -/

structure PersistedDocument extends CanonicalDocumentRow where
  canonicalSchemaVersion : String
  parserIdentity : String
  parserVersion : String
  parserProfile : String
  toolVersions : List String
  contractJson : CanonicalDocument
  active : Bool := false

structure PersistedNode extends CanonicalNodeRow where
  nodeType : String
  headingLevel : Option Nat
  seq : Nat
  textContent : Option Text
  structuralIdentity : String
  authorityClass : String
  language : Option String

structure PersistedLocator extends CanonicalLocatorRow where
  locatorKind : String
  page : Option Int
  slide : Option Int
  sheet : Option String
  rowStart : Option Int
  rowEnd : Option Int
  colStart : Option Int
  colEnd : Option Int
  charStart : Option Nat
  charEnd : Option Nat
  timeMsStart : Option Int
  timeMsEnd : Option Int
  bbox : Option (List Rat)
  structuralPath : List String

structure VersionRow where
  id : Uuid
  sourceId : Uuid
  status : String
  parseErrorCode : Option String

structure SourceRow where
  id : Uuid
  notebookId : Uuid
  availability : String

theorem located_nil : ∀ l ∈ ([] : List PersistedLocator), ∃ n ∈ ([] : List PersistedNode), n.id = l.canonicalNodeId := by
  simp

/-- The tables; a locator belongs to a node that is there. -/
structure CanonicalDb where
  sources : List SourceRow := []
  sourceVersions : List VersionRow := []
  documents : List PersistedDocument := []
  nodes : List PersistedNode := []
  locators : List PersistedLocator := []
  located : ∀ l ∈ locators, ∃ n ∈ nodes, n.id = l.canonicalNodeId := by first | exact located_nil | simp

inductive PersistError
  | parentOrder
  | constraint (name : String)
  | nulCharacter
  deriving DecidableEq

/-! ## persist -/

namespace Json

/-- `value is not None`. -/
def present : Json → Bool
  | .null => false
  | _ => true

end Json

/-- `_locator_kind`. -/
def locatorKind (l : SourceLocator) : String :=
  if (l.extraFields.get "slide").present then "slide"
  else if (l.extraFields.get "sheet").present then "sheet"
  else if (l.extraFields.get "time_ms_start").present then "time_range"
  else if l.bbox.isSome then "bbox"
  else if l.page.isSome then "page"
  else "char_range"

def CanonicalNode.row (node : CanonicalNode) (documentId : Uuid) (sequence : Nat) : PersistedNode where
  id := node.nodeId
  canonicalDocumentId := documentId
  parentNodeId := node.parentId
  nodeType := node.kind.value
  headingLevel := if node.kind = .heading then some 1 else none
  seq := sequence
  textContent := node.text
  structuralIdentity := node.structuralIdentity
  authorityClass := node.authority.value
  language := node.language

/-- `end >= start` of a pair of nullable columns. -/
def ordered {α : Type} [LE α] [DecidableLE α] : Option α → Option α → Bool
  | some start, some stop => decide (start ≤ stop)
  | _, _ => true

namespace Runtime

variable (rt : Runtime)

def locatorRow (node : CanonicalNode) : PersistedLocator :=
  let l := node.locator
  let row := (l.extraFields.get "row").int?
  let column := (l.extraFields.get "col").int?
  { id := rt.uuid5 node.nodeId "locator:primary"
    canonicalNodeId := node.nodeId
    locatorKind := MilpbookLM.locatorKind l
    page := l.page
    slide := (l.extraFields.get "slide").int?
    sheet := (l.extraFields.get "sheet").str?
    rowStart := row
    rowEnd := row
    colStart := column
    colEnd := column
    charStart := l.charStart
    charEnd := l.charEnd
    timeMsStart := (l.extraFields.get "time_ms_start").int?
    timeMsEnd := (l.extraFields.get "time_ms_end").int?
    bbox := l.bbox
    structuralPath := l.path }

/-- `_insert_node`: the node and its one locator. -/
def insertNode (db : CanonicalDb) (documentId : Uuid) (node : CanonicalNode) (sequence : Nat) :
    Except PersistError CanonicalDb :=
  let locator := rt.locatorRow node
  if db.nodes.any (·.id = node.nodeId) then .error (.constraint "canonical_nodes_pkey")
  else if db.nodes.any fun n => n.canonicalDocumentId = documentId && n.seq = sequence then
    .error (.constraint "uq_canonical_nodes_document_seq")
  else if node.textOrEmpty.contains '\x00' then .error .nulCharacter
  else if db.locators.any (·.id = locator.id) then .error (.constraint "canonical_locators_pkey")
  else if !ordered locator.charStart locator.charEnd then .error (.constraint "ck_canonical_locators_char_range")
  else if !ordered locator.timeMsStart locator.timeMsEnd then .error (.constraint "ck_canonical_locators_time_range")
  else .ok { db with
    nodes := db.nodes ++ [node.row documentId sequence]
    locators := db.locators ++ [locator]
    located := by
      intro l hl
      simp only [List.mem_append, List.mem_singleton] at hl ⊢
      rcases hl with hl | rfl
      · obtain ⟨n, hn, he⟩ := db.located l hl
        exact ⟨n, .inl hn, he⟩
      · exact ⟨_, .inr rfl, rfl⟩ }

/-- The nodes from `sequence` on, each after its parent. -/
def insertNodes (documentId : Uuid) : CanonicalDb → List Uuid → Nat → List CanonicalNode → Except PersistError CanonicalDb
  | db, _, _, [] => .ok db
  | db, inserted, sequence, node :: nodes =>
    if node.parentId.any (· ∉ inserted) then .error .parentOrder
    else do
      let db ← rt.insertNode db documentId node sequence
      insertNodes documentId db (node.nodeId :: inserted) (sequence + 1) nodes

/-- `_insert_document`. -/
def insertDocument (db : CanonicalDb) (document : CanonicalDocument) : Except PersistError CanonicalDb :=
  let row : PersistedDocument :=
    { id := document.documentId
      sourceVersionId := document.sourceVersionId
      canonicalSchemaVersion := schemaVersion
      parserIdentity := document.parser.identity
      parserVersion := document.parser.version
      parserProfile := document.parser.profile
      toolVersions := document.parser.toolVersions
      contractJson := document }
  rt.insertNodes document.documentId { db with documents := db.documents ++ [row] } [] 0 document.nodes

/-- `persist`: a document that is there already is left as it is. -/
def persist (db : CanonicalDb) (document : CanonicalDocument) : Except PersistError CanonicalDb := do
  let db ← if db.documents.any (·.id = document.documentId) then pure db else rt.insertDocument db document
  pure { db with
    sourceVersions := update (·.id = document.sourceVersionId)
      (fun v => { v with status := "parsed", parseErrorCode := none }) db.sourceVersions }

end Runtime

/-! ## The check of a citation -/

/-- What a citation says of the text it rests on. -/
structure Evidence where
  sourceId : Uuid
  sourceVersionId : Uuid
  canonicalNodeId : Uuid
  charStart : Nat
  charEnd : Nat

/-- The locator covers the span, or carries no characters at all. -/
def PersistedLocator.covers (l : PersistedLocator) (charStart charEnd : Nat) : Bool :=
  match l.charStart, l.charEnd with
  | some start, some stop => start ≤ charStart && stop ≥ charEnd
  | none, none => true
  | _, _ => false

namespace CanonicalDb

variable (db : CanonicalDb)

/-- The availability of the source a cited node comes from, if it is in the notebook. -/
def citedAvailability (notebookId : Uuid) (item : Evidence) : Option String := do
  let node ← db.nodes.find? (·.id = item.canonicalNodeId)
  let document ← db.documents.find? (·.id = node.canonicalDocumentId)
  let version ← db.sourceVersions.find? (·.id = document.sourceVersionId)
  let source ← db.sources.find? (·.id = version.sourceId)
  if version.id = item.sourceVersionId ∧ source.id = item.sourceId ∧ source.notebookId = notebookId then
    some source.availability
  else none

/-- A locator of the node covers the span. -/
def hasValidLocator (nodeId : Uuid) (charStart charEnd : Nat) : Bool :=
  db.locators.any fun l => l.canonicalNodeId = nodeId && l.covers charStart charEnd

/-- `_validate_item`; `canRead` is what `_can_read` answers. -/
def validateItem (canRead : Bool) (notebookId : Uuid) (item : Evidence) : Except String Unit :=
  match db.citedAvailability notebookId item with
  | none => .error "evidence does not exist in the frozen notebook"
  | some availability =>
    if availability = "deleted_tombstoned" then .error "evidence does not exist in the frozen notebook"
    else if !db.hasValidLocator item.canonicalNodeId item.charStart item.charEnd then
      .error "evidence has no valid canonical locator"
    else if !canRead then .error "evidence is no longer authorized"
    else .ok ()

end CanonicalDb

/-! ## What is stored of a document -/

namespace Runtime

variable {rt : Runtime} {db db' : CanonicalDb} {documentId : Uuid} {node : CanonicalNode}

theorem insertNode_ok {sequence} (h : rt.insertNode db documentId node sequence = .ok db') :
    (∀ n ∈ db.nodes, n.id ≠ node.nodeId) ∧ db'.nodes = db.nodes ++ [node.row documentId sequence] ∧
      db'.locators = db.locators ++ [rt.locatorRow node] := by
  simp only [insertNode] at h
  split at h
  · cases h
  · next hid =>
    repeat' split at h
    all_goals cases h
    exact ⟨by simpa using hid, rfl, rfl⟩

/-- The nodes are stored under ids of their own, each with its locator. -/
theorem insertNodes_ok {nodes : List CanonicalNode} {inserted sequence}
    (h : rt.insertNodes documentId db inserted sequence nodes = .ok db') :
    (nodes.map (·.nodeId)).Nodup ∧ (∀ n ∈ db.nodes, ∀ m ∈ nodes, n.id ≠ m.nodeId) ∧
      db'.locators = db.locators ++ nodes.map rt.locatorRow := by
  induction nodes generalizing db inserted sequence with
  | nil =>
    simp only [insertNodes, Except.ok.injEq] at h
    simp [h]
  | cons node nodes ih =>
    simp only [insertNodes] at h
    split at h
    · cases h
    · obtain ⟨db₁, h₁, h⟩ := Except.bind_ok_iff.1 h
      obtain ⟨hfresh, hnodes, hlocators⟩ := insertNode_ok h₁
      obtain ⟨hdup, hnew, hall⟩ := ih h
      rw [hnodes] at hnew
      refine ⟨?_, ?_, ?_⟩
      · refine List.nodup_cons.2 ⟨fun hm => ?_, hdup⟩
        obtain ⟨m, hm, he⟩ := List.mem_map.1 hm
        exact hnew (node.row documentId sequence) (by simp) m hm he.symm
      · intro n hn m hm
        rcases List.mem_cons.1 hm with rfl | hm
        · exact hfresh n hn
        · exact hnew n (by simp [hn]) m hm
      · simp [hall, hlocators]

theorem parentsFirst_of_insertNodes {nodes : List CanonicalNode} {inserted sequence}
    (h : rt.insertNodes documentId db inserted sequence nodes = .ok db') : ParentsFirst inserted nodes := by
  induction nodes generalizing db inserted sequence with
  | nil => trivial
  | cons node nodes ih =>
    simp only [insertNodes] at h
    split at h
    · cases h
    · next hparent =>
      obtain ⟨db₁, -, h⟩ := Except.bind_ok_iff.1 h
      refine ⟨fun p hp => ?_, ih h⟩
      simpa [Option.mem_def.1 hp] using hparent

/-- A new document is stored node by node. -/
theorem persist_new {document : CanonicalDocument} (hnew : ∀ d ∈ db.documents, d.id ≠ document.documentId)
    (h : rt.persist db document = .ok db') : ∃ db₁ : CanonicalDb, ∃ db₂, db₁.nodes = db.nodes ∧ db₁.locators = db.locators ∧
      rt.insertNodes document.documentId db₁ [] 0 document.nodes = .ok db₂ ∧ db'.locators = db₂.locators := by
  have hany : (db.documents.any fun d => decide (d.id = document.documentId)) = false := by simpa using hnew
  simp only [persist, hany, Bool.false_eq_true, if_false] at h
  obtain ⟨db₂, h₂, h⟩ := Except.bind_ok_iff.1 h
  cases h
  exact ⟨{ db with documents := db.documents ++ [_] }, db₂, rfl, rfl, h₂, rfl⟩

/-- The ids of a new document that is stored are all different, and its parents come first. -/
theorem tree_of_persist {document : CanonicalDocument} (hnew : ∀ d ∈ db.documents, d.id ≠ document.documentId)
    (h : rt.persist db document = .ok db') :
    (document.nodes.map (·.nodeId)).Nodup ∧ ParentsFirst [] document.nodes := by
  obtain ⟨_, _, -, -, h, -⟩ := persist_new hnew h
  exact ⟨(insertNodes_ok h).1, parentsFirst_of_insertNodes h⟩

/-- **A document that is stored leaves one locator to each of its nodes, the node's own.** -/
theorem locators_of_node {document : CanonicalDocument} (hnew : ∀ d ∈ db.documents, d.id ≠ document.documentId)
    (h : rt.persist db document = .ok db') (hn : node ∈ document.nodes) (charStart charEnd : Nat) :
    db'.hasValidLocator node.nodeId charStart charEnd = (rt.locatorRow node).covers charStart charEnd := by
  obtain ⟨db₁, db₂, hnodes₁, hlocators₁, h, hlocators₂⟩ := persist_new hnew h
  obtain ⟨hdup, hfresh, hlocators⟩ := insertNodes_ok h
  rw [hnodes₁] at hfresh
  rw [hlocators₁, ← hlocators₂] at hlocators
  simp only [CanonicalDb.hasValidLocator, hlocators, List.any_append, List.any_map]
  have hold : (db.locators.any fun l => l.canonicalNodeId = node.nodeId && l.covers charStart charEnd) = false := by
    simp only [List.any_eq_false, Bool.and_eq_true, decide_eq_true_eq, not_and]
    intro l hl he
    obtain ⟨n, hm, hid⟩ := db.located l hl
    exact absurd (hid.trans he) (hfresh n hm node hn)
  rw [hold, Bool.false_or, Bool.eq_iff_iff]
  simp only [List.any_eq_true, Function.comp, Bool.and_eq_true, decide_eq_true_eq]
  constructor
  · rintro ⟨m, hm, hid, hc⟩
    rwa [← List.inj_on_of_nodup_map hdup hm hn hid]
  · exact fun hc => ⟨node, hn, rfl, hc⟩

end Runtime

end MilpbookLM
