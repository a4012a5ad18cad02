/-
The strict decoder of the canonical contract. `documentFromJson_ok`: it returns a document
exactly for an object whose every known field has the value of the document's
(`DocumentReads`), and keeps the other fields.
-/
import MilpbookLM.Contracts.Document
import MilpbookLM.Execution.WireRoundTrip
import MilpbookLM.Lib.Outcomes

namespace MilpbookLM.Contracts

open Execution

variable {F : Type}

/-! ## The decoder -/

/-- What the decoder raises: a CanonicalContractError, a ValueError of `uuid.UUID` or of an enumeration, an
OverflowError of `float`. -/
inductive CodecError
  | contract (detail : String)
  | valueError
  | overflowError
  deriving DecidableEq

/-- `_mapping`. -/
def mapping (value : PyValue F) (fieldName : String) : Except CodecError (PyDict F) :=
  match value with
  | .dict items => .ok items
  | _ => .error (.contract (fieldName ++ " must be an object"))

/-- `_sequence`. -/
def sequence (value : PyValue F) (fieldName : String) : Except CodecError (List (PyValue F)) :=
  match value with
  | .list xs => .ok xs
  | _ => .error (.contract (fieldName ++ " must be an array"))

/-- `_text`. -/
def text (value : PyValue F) (fieldName : String) : Except CodecError PyStr :=
  match value with
  | .str s => .ok s
  | _ => .error (.contract (fieldName ++ " must be text"))

/-- `_optional_text`. -/
def optionalText (value : PyValue F) (fieldName : String) : Except CodecError (Option PyStr) :=
  match value with
  | .none => .ok none
  | value => (text value fieldName).map some

/-- `_integer`. -/
def integer (value : PyValue F) (fieldName : String) : Except CodecError Int :=
  match value with
  | .int n => .ok n
  | _ => .error (.contract (fieldName ++ " must be an integer"))

/-- `_optional_int`. -/
def optionalInt (value : PyValue F) (fieldName : String) : Except CodecError (Option Int) :=
  match value with
  | .none => .ok none
  | value => (integer value fieldName).map some

/-- `_text` of every item of a `_sequence`. -/
def texts (value : PyValue F) (fieldName : String) : Except CodecError (List PyStr) := do
  let items ← sequence value fieldName
  items.mapM fun item => text item (fieldName ++ "[]")

def NodeKind.all : List NodeKind :=
  [.document, .section, .paragraph, .heading, .list, .listItem, .quote, .code, .table, .row, .cell, .image, .figure,
    .caption, .page, .slide, .sheet, .transcriptSegment, .speakerTurn, .attachment, .reference, .generic]

def AuthorityClass.all : List AuthorityClass :=
  [.sourceAuthored, .parserTransformed, .ocr, .modelDerived, AuthorityClass.humanAnnotation]

/-- `Enumeration(_text(value))`. -/
def member {E : Type} (all : List E) (nameOf : E → String) (value : PyValue F) (fieldName : String) :
    Except CodecError E := do
  let s ← text value fieldName
  match all.find? fun e => lit (nameOf e) == s with
  | some e => .ok e
  | none => .error .valueError

def nodeKind (value : PyValue F) (fieldName : String) : Except CodecError NodeKind :=
  member NodeKind.all NodeKind.value value fieldName

def authorityClass (value : PyValue F) (fieldName : String) : Except CodecError AuthorityClass :=
  member AuthorityClass.all AuthorityClass.value value fieldName

section Platform

variable (p : Platform F)

/-- `uuid.UUID(_text(value))`. -/
def uuid (value : PyValue F) (fieldName : String) : Except CodecError Uuid := do
  let s ← text value fieldName
  match uuidOf p s with
  | some u => .ok u
  | none => .error .valueError

def uuids (value : PyValue F) (fieldName : String) : Except CodecError (List Uuid) := do
  let items ← sequence value fieldName
  items.mapM fun item => uuid p item (fieldName ++ "[]")

/-- `float(_number(value))`. -/
def coordinate (value : PyValue F) (fieldName : String) : Except CodecError F :=
  match value with
  | .float x => .ok x
  | .int n =>
    match p.floats.ofInt n with
    | some x => .ok x
    | none => .error .overflowError
  | _ => .error (.contract (fieldName ++ " must be numeric"))

def bboxCoordinateCount : Nat := 4

def bbox (value : PyValue F) : Except CodecError (Option (F × F × F × F)) :=
  match value with
  | .none => .ok none
  | value => do
    match ← sequence value "node.locator.bbox" with
    | [a, b, c, d] =>
      let a ← coordinate p a "node.locator.bbox[]"
      let b ← coordinate p b "node.locator.bbox[]"
      let c ← coordinate p c "node.locator.bbox[]"
      let d ← coordinate p d "node.locator.bbox[]"
      pure (some (a, b, c, d))
    | _ => .error (.contract "node.locator.bbox must have four coordinates")

def locatorFromJson (value : PyDict F) : Except CodecError (SourceLocator F) := do
  let bbox ← bbox p (field value "bbox")
  let path ← texts (field value "path") "node.locator.path"
  let charStart ← optionalInt (field value "char_start") "node.locator.char_start"
  let charEnd ← optionalInt (field value "char_end") "node.locator.char_end"
  let page ← optionalInt (field value "page") "node.locator.page"
  pure { path, charStart, charEnd, page, bbox, extraFields := unknown value locatorFields }

/-- None, or a `uuid.UUID`. -/
def optionalUuid (value : PyValue F) (fieldName : String) : Except CodecError (Option Uuid) :=
  match value with
  | .none => .ok none
  | value => (uuid p value fieldName).map some

/-- `_node`. -/
def nodeFromJson (value : PyDict F) : Except CodecError (CanonicalNode F) := do
  let locatorValue ← mapping (field value "locator") "node.locator"
  let locator ← locatorFromJson p locatorValue
  let nodeId ← uuid p (field value "node_id") "node.node_id"
  let kind ← nodeKind (field value "kind") "node.kind"
  let structuralIdentity ← text (field value "structural_identity") "node.structural_identity"
  let parentId ← optionalUuid p (field value "parent_id") "node.parent_id"
  let childOrder ← integer (field value "child_order") "node.child_order"
  let text ← optionalText (field value "text") "node.text"
  let authority ← authorityClass (field value "authority") "node.authority"
  let language ← optionalText (field value "language") "node.language"
  pure { nodeId, kind, structuralIdentity, parentId, childOrder, text, locator, authority, language,
         extraFields := unknown value nodeFields }

def parserFromJson (value : PyDict F) : Except CodecError (ParserDescriptor F) := do
  let identity ← text (field value "identity") "parser.identity"
  let version ← text (field value "version") "parser.version"
  let profile ← text (field value "profile") "parser.profile"
  let toolVersions ← texts (field value "tool_versions") "parser.tool_versions"
  pure { identity, version, profile, toolVersions, extraFields := unknown value parserFields }

/-- `value == "1"`. -/
def isSchemaVersion : PyValue F → Bool
  | .str s => s == lit MilpbookLM.schemaVersion
  | _ => false

/-- `canonical_document_from_json`. -/
def documentFromJson (value : PyDict F) : Except CodecError (CanonicalDocument F) := do
  if !isSchemaVersion (field value "schema_version") then .error (.contract "unsupported canonical schema version")
  else
    let parserValue ← mapping (field value "parser") "parser"
    let parser ← parserFromJson parserValue
    let documentId ← uuid p (field value "document_id") "document_id"
    let sourceVersionId ← uuid p (field value "source_version_id") "source_version_id"
    let mimeType ← text (field value "mime_type") "mime_type"
    let languages ← texts (field value "languages") "languages"
    let metadata ← mapping (field value "metadata") "metadata"
    let rootNodeIds ← uuids p (field value "root_node_ids") "root_node_ids"
    let nodeValues ← sequence (field value "nodes") "nodes"
    let nodes ← nodeValues.mapM fun item => do nodeFromJson p (← mapping item "nodes[]")
    pure { documentId, sourceVersionId, mimeType, parser, languages, metadata, rootNodeIds, nodes,
           extraFields := unknown value documentFields }

end Platform

/-! ## What each part is read from -/

theorem mapping_ok {value : PyValue F} {n : String} {items : PyDict F} : mapping value n = .ok items ↔ value = .dict items := by
  cases value <;> simp [mapping]

theorem sequence_ok {value : PyValue F} {n : String} {xs : List (PyValue F)} :
    sequence value n = .ok xs ↔ value = .list xs := by
  cases value <;> simp [sequence]

theorem text_ok {value : PyValue F} {n : String} {s : PyStr} : text value n = .ok s ↔ value = .str s := by
  cases value <;> simp [text]

theorem optionalText_ok {value : PyValue F} {n : String} {s : Option PyStr} :
    optionalText value n = .ok s ↔ value = textValue s := by
  cases value <;> cases s <;> simp [optionalText, text, textValue, Except.map]

theorem integer_ok {value : PyValue F} {n : String} {k : Int} : integer value n = .ok k ↔ value = .int k := by
  cases value <;> simp [integer]

/-- An integer, or None. -/
def intValue : Option Int → PyValue F
  | some n => .int n
  | none => .none

theorem optionalInt_ok {value : PyValue F} {n : String} {k : Option Int} :
    optionalInt value n = .ok k ↔ value = intValue k := by
  cases value <;> cases k <;> simp [optionalInt, integer, intValue, Except.map]

theorem texts_ok {value : PyValue F} {n : String} {ss : List PyStr} : texts value n = .ok ss ↔ value = .list (ss.map .str) := by
  simp only [texts, Except.bind_ok_iff, sequence_ok, Except.mapM_ok_iff, text_ok]
  constructor
  · rintro ⟨xs, rfl, h⟩
    rw [← List.forall₂_map_right_iff, List.forall₂_eq_eq_eq] at h
    rw [h]
  · rintro rfl
    refine ⟨_, rfl, ?_⟩
    rw [← List.forall₂_map_right_iff, List.forall₂_eq_eq_eq]

theorem member_ok {E : Type} {all : List E} {nameOf : E → String}
    (hall : ∀ e, (all.find? fun x => lit (nameOf x) == lit (nameOf e)) = some e) {value : PyValue F} {n : String} {e : E} :
    member all nameOf value n = .ok e ↔ value = .str (lit (nameOf e)) := by
  simp only [member, Except.bind_ok_iff, text_ok]
  constructor
  · rintro ⟨s, rfl, h⟩
    split at h
    · next found hfound =>
      cases h
      have heq := List.find?_some hfound
      rw [beq_iff_eq] at heq
      rw [heq]
    · cases h
  · rintro rfl
    exact ⟨_, rfl, by rw [hall e]⟩

theorem nodeKind_ok {value : PyValue F} {n : String} {kind : NodeKind} :
    nodeKind value n = .ok kind ↔ value = .str (lit kind.value) :=
  member_ok fun e => by cases e <;> decide

theorem authorityClass_ok {value : PyValue F} {n : String} {authority : AuthorityClass} :
    authorityClass value n = .ok authority ↔ value = .str (lit authority.value) :=
  member_ok fun e => by cases e <;> decide

section Platform

variable {p : Platform F}

/-- The value is a text of the UUID. -/
def ReadsUuid (p : Platform F) (value : PyValue F) (u : Uuid) : Prop := ∃ s, value = .str s ∧ uuidOf p s = some u

theorem readsUuid_uuidValue (u : Uuid) : ReadsUuid p (uuidValue u) u := ⟨_, rfl, uuidOf_str p u⟩

theorem uuid_ok {value : PyValue F} {n : String} {u : Uuid} : uuid p value n = .ok u ↔ ReadsUuid p value u := by
  simp only [uuid, Except.bind_ok_iff, text_ok, ReadsUuid]
  refine exists_congr fun s => and_congr_right fun _ => ?_
  cases uuidOf p s <;> simp

theorem uuids_ok {value : PyValue F} {n : String} {us : List Uuid} :
    uuids p value n = .ok us ↔ ∃ xs, value = .list xs ∧ List.Forall₂ (ReadsUuid p) xs us := by
  simp only [uuids, Except.bind_ok_iff, sequence_ok, Except.mapM_ok_iff, uuid_ok]

/-- None, or a text of the UUID. -/
def ReadsParent (p : Platform F) (value : PyValue F) : Option Uuid → Prop
  | some u => ReadsUuid p value u
  | none => value = .none

theorem optionalUuid_ok {value : PyValue F} {n : String} {u : Option Uuid} :
    optionalUuid p value n = .ok u ↔ ReadsParent p value u := by
  have hmap : ∀ value : PyValue F, value ≠ .none → ((uuid p value n).map some = .ok u ↔ ReadsParent p value u) := by
    intro value hnone
    cases u with
    | none => cases huuid : uuid p value n <;> simp [Except.map, ReadsParent, hnone]
    | some u =>
      rw [ReadsParent, ← @uuid_ok F p value n u]
      cases uuid p value n <;> simp [Except.map]
  cases value with
  | none => cases u <;> simp [optionalUuid, ReadsParent, ReadsUuid]
  | _ =>
    simp only [optionalUuid]
    exact hmap _ (by simp)

/-- A number that is the coordinate. -/
def ReadsCoordinate (p : Platform F) (value : PyValue F) (x : F) : Prop :=
  value = .float x ∨ ∃ n, value = .int n ∧ p.floats.ofInt n = some x

theorem coordinate_ok {value : PyValue F} {n : String} {x : F} : coordinate p value n = .ok x ↔ ReadsCoordinate p value x := by
  cases value with
  | int k =>
    simp only [coordinate, ReadsCoordinate]
    cases hfloat : p.floats.ofInt k <;> simp [hfloat]
  | _ => simp [coordinate, ReadsCoordinate]

/-- None, or four numbers. -/
def ReadsBbox (p : Platform F) (value : PyValue F) : Option (F × F × F × F) → Prop
  | none => value = .none
  | some (a, b, c, d) => ∃ a' b' c' d', value = .list [a', b', c', d'] ∧ ReadsCoordinate p a' a ∧ ReadsCoordinate p b' b ∧
      ReadsCoordinate p c' c ∧ ReadsCoordinate p d' d

theorem bbox_ok {value : PyValue F} {box : Option (F × F × F × F)} : bbox p value = .ok box ↔ ReadsBbox p value box := by
  constructor
  · intro h
    unfold bbox at h
    split at h
    · cases h
      rfl
    · simp only [Except.bind_ok_iff, sequence_ok] at h
      obtain ⟨xs, rfl, h⟩ := h
      split at h
      · next a b c d _ =>
        simp only [Except.bind_ok_iff, coordinate_ok] at h
        obtain ⟨a', ha, b', hb, c', hc, d', hd, h⟩ := h
        cases h
        exact ⟨a, b, c, d, rfl, ha, hb, hc, hd⟩
      · cases h
  · intro h
    cases box with
    | none =>
      cases h
      rfl
    | some box =>
      obtain ⟨a, b, c, d, rfl, ha, hb, hc, hd⟩ := h
      simp only [bbox, Except.bind_ok_iff, sequence_ok]
      refine ⟨_, rfl, ?_⟩
      simp only [Except.bind_ok_iff, coordinate_ok]
      exact ⟨_, ha, _, hb, _, hc, _, hd, rfl⟩

/-- Where a locator is read from. -/
structure LocatorReads (p : Platform F) (value : PyDict F) (locator : SourceLocator F) : Prop where
  path : field value "path" = .list (locator.path.map .str)
  charStart : field value "char_start" = intValue locator.charStart
  charEnd : field value "char_end" = intValue locator.charEnd
  page : field value "page" = intValue locator.page
  bbox : ReadsBbox p (field value "bbox") locator.bbox
  extraFields : locator.extraFields = unknown value locatorFields

/-- Where a node is read from. -/
structure NodeReads (p : Platform F) (value : PyDict F) (node : CanonicalNode F) : Prop where
  nodeId : ReadsUuid p (field value "node_id") node.nodeId
  kind : field value "kind" = .str (lit node.kind.value)
  structuralIdentity : field value "structural_identity" = .str node.structuralIdentity
  parentId : ReadsParent p (field value "parent_id") node.parentId
  childOrder : field value "child_order" = .int node.childOrder
  text : field value "text" = textValue node.text
  locator : ∃ locatorValue, field value "locator" = .dict locatorValue ∧ LocatorReads p locatorValue node.locator
  authority : field value "authority" = .str (lit node.authority.value)
  language : field value "language" = textValue node.language
  extraFields : node.extraFields = unknown value nodeFields

/-- Where a parser descriptor is read from. -/
structure ParserReads (value : PyDict F) (parser : ParserDescriptor F) : Prop where
  identity : field value "identity" = .str parser.identity
  version : field value "version" = .str parser.version
  profile : field value "profile" = .str parser.profile
  toolVersions : field value "tool_versions" = .list (parser.toolVersions.map .str)
  extraFields : parser.extraFields = unknown value parserFields

/-- Where a document is read from. -/
structure DocumentReads (p : Platform F) (value : PyDict F) (document : CanonicalDocument F) : Prop where
  schemaVersion : field value "schema_version" = .str document.schemaVersion ∧ document.schemaVersion = lit MilpbookLM.schemaVersion
  documentId : ReadsUuid p (field value "document_id") document.documentId
  sourceVersionId : ReadsUuid p (field value "source_version_id") document.sourceVersionId
  mimeType : field value "mime_type" = .str document.mimeType
  parser : ∃ parserValue, field value "parser" = .dict parserValue ∧ ParserReads parserValue document.parser
  languages : field value "languages" = .list (document.languages.map .str)
  metadata : field value "metadata" = .dict document.metadata
  rootNodeIds : ∃ xs, field value "root_node_ids" = .list xs ∧ List.Forall₂ (ReadsUuid p) xs document.rootNodeIds
  nodes : ∃ xs, field value "nodes" = .list xs ∧
    List.Forall₂ (fun x node => ∃ nodeValue, x = .dict nodeValue ∧ NodeReads p nodeValue node) xs document.nodes
  extraFields : document.extraFields = unknown value documentFields

theorem locatorFromJson_ok {value : PyDict F} {locator : SourceLocator F} :
    locatorFromJson p value = .ok locator ↔ LocatorReads p value locator := by
  simp only [locatorFromJson, Except.bind_ok_iff, bbox_ok, texts_ok, optionalInt_ok]
  constructor
  · rintro ⟨box, hbox, path, hpath, charStart, hstart, charEnd, hend, page, hpage, h⟩
    cases h
    exact ⟨hpath, hstart, hend, hpage, hbox, rfl⟩
  · rintro ⟨hpath, hstart, hend, hpage, hbox, hextra⟩
    refine ⟨_, hbox, _, hpath, _, hstart, _, hend, _, hpage, ?_⟩
    rw [← hextra]
    rfl

theorem parserFromJson_ok {value : PyDict F} {parser : ParserDescriptor F} :
    parserFromJson value = .ok parser ↔ ParserReads value parser := by
  simp only [parserFromJson, Except.bind_ok_iff, text_ok, texts_ok]
  constructor
  · rintro ⟨identity, hidentity, version, hversion, profile, hprofile, tools, htools, h⟩
    cases h
    exact ⟨hidentity, hversion, hprofile, htools, rfl⟩
  · rintro ⟨hidentity, hversion, hprofile, htools, hextra⟩
    refine ⟨_, hidentity, _, hversion, _, hprofile, _, htools, ?_⟩
    rw [← hextra]
    rfl

theorem nodeFromJson_ok {value : PyDict F} {node : CanonicalNode F} :
    nodeFromJson p value = .ok node ↔ NodeReads p value node := by
  simp only [nodeFromJson, Except.bind_ok_iff, mapping_ok, locatorFromJson_ok, uuid_ok, nodeKind_ok, text_ok, optionalUuid_ok, integer_ok,
    optionalText_ok, authorityClass_ok]
  constructor
  · rintro ⟨l, hl, locator, hlocator, nodeId, hid, kind, hkind, identity, hidentity, parentId, hparent, childOrder, horder,
      text, htext, authority, hauthority, language, hlanguage, h⟩
    cases h
    exact ⟨hid, hkind, hidentity, hparent, horder, htext, ⟨l, hl, hlocator⟩, hauthority, hlanguage, rfl⟩
  · rintro ⟨hid, hkind, hidentity, hparent, horder, htext, ⟨l, hl, hlocator⟩, hauthority, hlanguage, hextra⟩
    refine ⟨l, hl, _, hlocator, _, hid, _, hkind, _, hidentity, _, hparent, _, horder, _, htext, _, hauthority, _,
      hlanguage, ?_⟩
    rw [← hextra]
    rfl

theorem isSchemaVersion_iff {value : PyValue F} :
    isSchemaVersion value = true ↔ value = .str (lit MilpbookLM.schemaVersion) := by
  cases value <;> simp [isSchemaVersion]

/-- **The decoder returns a document exactly where it reads it.** -/
theorem documentFromJson_ok {value : PyDict F} {document : CanonicalDocument F} :
    documentFromJson p value = .ok document ↔ DocumentReads p value document := by
  cases hversion : isSchemaVersion (field value "schema_version") with
  | false =>
    simp only [documentFromJson, hversion, Bool.not_false, if_true]
    refine ⟨nofun, fun h => ?_⟩
    rw [isSchemaVersion_iff.2 (h.schemaVersion.1.trans (by rw [h.schemaVersion.2]))] at hversion
    cases hversion
  | true =>
    simp only [documentFromJson, hversion, Bool.not_true, Bool.false_eq_true, if_false, Except.bind_ok_iff, mapping_ok,
      parserFromJson_ok, uuid_ok, text_ok, texts_ok, uuids_ok, sequence_ok, Except.mapM_ok_iff, nodeFromJson_ok]
    constructor
    · rintro ⟨pv, hpv, parser, hparser, documentId, hid, versionId, hversionId, mime, hmime, languages, hlanguages, metadata,
        hmetadata, roots, hroots, xs, hxs, nodes, hnodes, h⟩
      cases h
      exact ⟨⟨isSchemaVersion_iff.1 hversion, rfl⟩, hid, hversionId, hmime, ⟨pv, hpv, hparser⟩, hlanguages, hmetadata,
        hroots, ⟨xs, hxs, hnodes⟩, rfl⟩
    · rintro ⟨⟨-, hsame⟩, hid, hversionId, hmime, ⟨pv, hpv, hparser⟩, hlanguages, hmetadata, hroots, ⟨xs, hxs, hnodes⟩,
        hextra⟩
      refine ⟨pv, hpv, _, hparser, _, hid, _, hversionId, _, hmime, _, hlanguages, _, hmetadata, _, hroots, xs, hxs, _,
        hnodes, ?_⟩
      rw [← hextra, ← hsame]
      rfl

end Platform

end MilpbookLM.Contracts
