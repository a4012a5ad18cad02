/-
The canonical document, version 1 of its schema: nodes in a tree, each with its
locator, and the ids derived from them. What the interpreter brings along is in a
`Runtime`; nothing is assumed of it.
-/
import MilpbookLM.Base.Json
import MilpbookLM.Base.Text
import MilpbookLM.Base.Uuid

namespace MilpbookLM

/-- What the parsers and the chunker take from Python's library. -/
structure Runtime where
  /-- `uuid.uuid5(namespace, name)`. -/
  uuid5 : Uuid → String → Uuid
  /-- `unicodedata.normalize("NFC", text)`. -/
  nfc : Text → Text
  /-- A character `\d` matches. -/
  isDecimal : Char → Bool
  /-- `hashlib.sha256(text.encode("utf-8")).hexdigest()`. -/
  textSha256 : Text → String
  /-- Major, minor and micro of `sys.version_info`. -/
  version : Nat × Nat × Nat

def schemaVersion : String := "1"

/-- CHUNK_NAMESPACE. -/
def chunkNamespace : Uuid := 0x957b95109cc55ba7b04c068c5e647b50#128

inductive NodeKind
  | document | section | paragraph | heading | list | listItem | quote | code | table | row | cell | image | figure
  | caption | page | slide | sheet | transcriptSegment | speakerTurn | attachment | reference | generic
  deriving DecidableEq

def NodeKind.value : NodeKind → String
  | document => "document"
  | «section» => "section"
  | paragraph => "paragraph"
  | heading => "heading"
  | list => "list"
  | listItem => "list_item"
  | quote => "quote"
  | code => "code"
  | table => "table"
  | row => "row"
  | cell => "cell"
  | image => "image"
  | figure => "figure"
  | caption => "caption"
  | page => "page"
  | slide => "slide"
  | sheet => "sheet"
  | transcriptSegment => "transcript_segment"
  | speakerTurn => "speaker_turn"
  | attachment => "attachment"
  | reference => "reference"
  | generic => "generic"

inductive AuthorityClass
  | sourceAuthored | parserTransformed | ocr | modelDerived | humanAnnotation
  deriving DecidableEq

def AuthorityClass.value : AuthorityClass → String
  | sourceAuthored => "source_authored"
  | parserTransformed => "parser_transformed"
  | ocr => "ocr"
  | modelDerived => "model_derived"
  | humanAnnotation => "human_annotation"

structure ParserDescriptor where
  identity : String
  version : String
  profile : String
  toolVersions : List String
  extraFields : Dict := []

/-- Structural path and optional text or PDF coordinates. -/
structure SourceLocator where
  path : List String
  charStart : Option Nat := none
  charEnd : Option Nat := none
  page : Option Int := none
  bbox : Option (List Rat) := none
  extraFields : Dict := []

structure CanonicalNode where
  nodeId : Uuid
  kind : NodeKind
  structuralIdentity : String
  parentId : Option Uuid
  childOrder : Nat
  text : Option Text
  locator : SourceLocator
  authority : AuthorityClass := .sourceAuthored
  language : Option String := none
  extraFields : Dict := []

structure CanonicalDocument where
  documentId : Uuid
  sourceVersionId : Uuid
  mimeType : String
  parser : ParserDescriptor
  languages : List String
  metadata : Dict
  rootNodeIds : List Uuid
  nodes : List CanonicalNode

/-- The text of a node, the empty one where it has none (`node.text or ""`). -/
def CanonicalNode.textOrEmpty (node : CanonicalNode) : Text := node.text.getD []

namespace Runtime

variable (rt : Runtime)

/-- The `tool_versions` of a parser written in Python alone. -/
def toolVersions : List String :=
  ["python=" ++ toString rt.version.1 ++ "." ++ toString rt.version.2.1 ++ "." ++ toString rt.version.2.2]

def canonicalDocumentId (sourceVersionId : Uuid) (parser : ParserDescriptor) : Uuid :=
  rt.uuid5 sourceVersionId
    ("canonical:" ++ schemaVersion ++ ":" ++ parser.identity ++ ":" ++ parser.version ++ ":" ++ parser.profile)

def canonicalNodeId (documentId : Uuid) (structuralIdentity : String) : Uuid := rt.uuid5 documentId structuralIdentity

def canonicalChunkId (nodeId : Uuid) (chunkerRevision : String) (start stop : Nat) : Uuid :=
  rt.uuid5 chunkNamespace
    (nodeId.str ++ ":" ++ chunkerRevision ++ ":" ++ toString start ++ ":" ++ toString stop)

end Runtime

/-! ## Parents first -/

/-- Every node comes after its parent, or that is among those seen before. -/
def ParentsFirst : List Uuid → List CanonicalNode → Prop
  | _, [] => True
  | seen, node :: nodes => (∀ p ∈ node.parentId, p ∈ seen) ∧ ParentsFirst (node.nodeId :: seen) nodes

theorem ParentsFirst.split {seen : List Uuid} {nodes : List CanonicalNode} {node : CanonicalNode} (h : ParentsFirst seen nodes)
    (hn : node ∈ nodes) : ∃ before after, nodes = before ++ node :: after ∧
      ∀ p ∈ node.parentId, p ∈ seen ∨ p ∈ before.map (·.nodeId) := by
  induction nodes generalizing seen with
  | nil => cases hn
  | cons m nodes ih =>
    rcases List.mem_cons.1 hn with rfl | hn
    · exact ⟨[], nodes, rfl, fun p hp => .inl (h.1 p hp)⟩
    · obtain ⟨before, after, he, hp⟩ := ih h.2 hn
      refine ⟨m :: before, after, by rw [he]; rfl, fun p hmem => ?_⟩
      rcases hp p hmem with hseen | hbefore
      · rcases List.mem_cons.1 hseen with rfl | hseen
        · exact .inr List.mem_cons_self
        · exact .inl hseen
      · exact .inr (List.mem_cons_of_mem _ hbefore)

end MilpbookLM
