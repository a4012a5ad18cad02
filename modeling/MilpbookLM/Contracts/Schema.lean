/-
Version 1 of the schema, as conditions on the fields of an object: an object conforms to it
exactly when the decoder returns a document (`conforms_iff`).
-/
import MilpbookLM.Contracts.Codec

namespace MilpbookLM.Contracts

open Execution

variable {F : Type} {p : Platform F}

/-! ## Conditions on a value -/

def IsText (v : PyValue F) : Prop := ∃ s, v = .str s

def IsInteger (v : PyValue F) : Prop := ∃ n, v = .int n

/-- A text that `uuid.UUID` accepts. -/
def IsUuid (p : Platform F) (v : PyValue F) : Prop := ∃ s, v = .str s ∧ (uuidOf p s).isSome = true

/-- A float, or an integer that is in the range of floats. -/
def IsCoordinate (v : PyValue F) : Prop := (∃ x, v = .float x) ∨ ∃ n, v = .int n ∧ n.natAbs < floatOverflow

def IsOneOf (names : List String) (v : PyValue F) : Prop := ∃ name ∈ names, v = .str (lit name)

def IsNullOr (P : PyValue F → Prop) (v : PyValue F) : Prop := v = .none ∨ P v

def IsArrayOf (P : PyValue F → Prop) (v : PyValue F) : Prop := ∃ xs, v = .list xs ∧ ∀ x ∈ xs, P x

def IsObject (P : PyDict F → Prop) (v : PyValue F) : Prop := ∃ d, v = .dict d ∧ P d

def IsBbox (v : PyValue F) : Prop := ∃ a b c d, v = .list [a, b, c, d] ∧ ∀ x ∈ [a, b, c, d], IsCoordinate x

/-! ## The schema -/

structure ConformingParser (d : PyDict F) : Prop where
  identity : IsText (field d "identity")
  version : IsText (field d "version")
  profile : IsText (field d "profile")
  toolVersions : IsArrayOf IsText (field d "tool_versions")

structure ConformingLocator (d : PyDict F) : Prop where
  path : IsArrayOf IsText (field d "path")
  charStart : IsNullOr IsInteger (field d "char_start")
  charEnd : IsNullOr IsInteger (field d "char_end")
  page : IsNullOr IsInteger (field d "page")
  bbox : IsNullOr IsBbox (field d "bbox")

structure ConformingNode (p : Platform F) (d : PyDict F) : Prop where
  nodeId : IsUuid p (field d "node_id")
  kind : IsOneOf (NodeKind.all.map NodeKind.value) (field d "kind")
  structuralIdentity : IsText (field d "structural_identity")
  parentId : IsNullOr (IsUuid p) (field d "parent_id")
  childOrder : IsInteger (field d "child_order")
  text : IsNullOr IsText (field d "text")
  locator : IsObject ConformingLocator (field d "locator")
  authority : IsOneOf (AuthorityClass.all.map AuthorityClass.value) (field d "authority")
  language : IsNullOr IsText (field d "language")

structure Conforming (p : Platform F) (d : PyDict F) : Prop where
  schemaVersion : field d "schema_version" = .str (lit MilpbookLM.schemaVersion)
  documentId : IsUuid p (field d "document_id")
  sourceVersionId : IsUuid p (field d "source_version_id")
  mimeType : IsText (field d "mime_type")
  parser : IsObject ConformingParser (field d "parser")
  languages : IsArrayOf IsText (field d "languages")
  metadata : IsObject (fun _ => True) (field d "metadata")
  rootNodeIds : IsArrayOf (IsUuid p) (field d "root_node_ids")
  nodes : IsArrayOf (IsObject (ConformingNode p)) (field d "nodes")

/-! ## What conforms is read -/

theorem exists_forall₂ {α β : Type} {R : α → β → Prop} {xs : List α} :
    (∃ ys, List.Forall₂ R xs ys) ↔ ∀ x ∈ xs, ∃ y, R x y := by
  induction xs with
  | nil => simp
  | cons x xs ih =>
    rw [List.forall_mem_cons, ← ih]
    constructor
    · rintro ⟨_, _ | ⟨hxy, hrest⟩⟩
      exact ⟨⟨_, hxy⟩, _, hrest⟩
    · rintro ⟨⟨y, hxy⟩, ys, hrest⟩
      exact ⟨y :: ys, .cons hxy hrest⟩

theorem isUuid_iff {v : PyValue F} : IsUuid p v ↔ ∃ u, ReadsUuid p v u := by
  simp only [IsUuid, ReadsUuid, Option.isSome_iff_exists]
  constructor
  · rintro ⟨s, hs, u, hu⟩
    exact ⟨u, s, hs, hu⟩
  · rintro ⟨u, s, hs, hu⟩
    exact ⟨s, hs, u, hu⟩

theorem isNullOr_uuid_iff {v : PyValue F} : IsNullOr (IsUuid p) v ↔ ∃ u, ReadsParent p v u := by
  rw [IsNullOr, isUuid_iff]
  constructor
  · rintro (hnone | ⟨u, hu⟩)
    · exact ⟨none, hnone⟩
    · exact ⟨some u, hu⟩
  · rintro ⟨_ | u, hu⟩
    · exact .inl hu
    · exact .inr ⟨u, hu⟩

theorem isNullOr_text_iff {v : PyValue F} : IsNullOr IsText v ↔ ∃ s, v = textValue s := by
  constructor
  · rintro (hnone | ⟨s, hs⟩)
    · exact ⟨none, hnone⟩
    · exact ⟨some s, hs⟩
  · rintro ⟨_ | s, hs⟩
    · exact .inl hs
    · exact .inr ⟨s, hs⟩

theorem isNullOr_integer_iff {v : PyValue F} : IsNullOr IsInteger v ↔ ∃ n, v = intValue n := by
  constructor
  · rintro (hnone | ⟨n, hn⟩)
    · exact ⟨none, hnone⟩
    · exact ⟨some n, hn⟩
  · rintro ⟨_ | n, hn⟩
    · exact .inl hn
    · exact .inr ⟨n, hn⟩

theorem isTexts_iff {v : PyValue F} : IsArrayOf IsText v ↔ ∃ ss : List PyStr, v = .list (ss.map .str) := by
  constructor
  · rintro ⟨xs, rfl, hxs⟩
    obtain ⟨ss, hss⟩ := exists_forall₂.2 hxs
    rw [← List.forall₂_map_right_iff, List.forall₂_eq_eq_eq] at hss
    exact ⟨ss, by rw [hss]⟩
  · rintro ⟨ss, rfl⟩
    refine ⟨_, rfl, fun x hx => ?_⟩
    obtain ⟨s, -, rfl⟩ := List.mem_map.1 hx
    exact ⟨s, rfl⟩

theorem isOneOf_iff {E : Type} {all : List E} {nameOf : E → String} (hall : ∀ e, e ∈ all) {v : PyValue F} :
    IsOneOf (all.map nameOf) v ↔ ∃ e, v = .str (lit (nameOf e)) := by
  constructor
  · rintro ⟨name, hname, hv⟩
    obtain ⟨e, -, rfl⟩ := List.mem_map.1 hname
    exact ⟨e, hv⟩
  · rintro ⟨e, hv⟩
    exact ⟨_, List.mem_map_of_mem (hall e), hv⟩

theorem isCoordinate_iff {v : PyValue F} : IsCoordinate v ↔ ∃ x, ReadsCoordinate p v x := by
  constructor
  · rintro (⟨x, hx⟩ | ⟨n, hn, hlt⟩)
    · exact ⟨x, .inl hx⟩
    · obtain ⟨x, hx⟩ := Option.ne_none_iff_exists'.1 fun hnone =>
        Nat.not_le.2 hlt ((p.floats.ofInt_none n).1 hnone)
      exact ⟨x, .inr ⟨n, hn, hx⟩⟩
  · rintro ⟨x, hx | ⟨n, hn, hx⟩⟩
    · exact .inl ⟨x, hx⟩
    · refine .inr ⟨n, hn, Nat.lt_of_not_le fun hle => ?_⟩
      rw [(p.floats.ofInt_none n).2 hle] at hx
      cases hx

theorem isBbox_iff {v : PyValue F} : IsNullOr IsBbox v ↔ ∃ box, ReadsBbox p v box := by
  simp only [IsNullOr, IsBbox, List.forall_mem_cons, List.not_mem_nil, IsEmpty.forall_iff, implies_true, and_true,
    @isCoordinate_iff F p]
  constructor
  · rintro (hnone | ⟨a, b, c, d, hv, ⟨x, hx⟩, ⟨y, hy⟩, ⟨z, hz⟩, ⟨w, hw⟩⟩)
    · exact ⟨none, hnone⟩
    · exact ⟨some (x, y, z, w), a, b, c, d, hv, hx, hy, hz, hw⟩
  · rintro ⟨_ | ⟨x, y, z, w⟩, hbox⟩
    · exact .inl hbox
    · obtain ⟨a, b, c, d, hv, hx, hy, hz, hw⟩ := hbox
      exact .inr ⟨a, b, c, d, hv, ⟨x, hx⟩, ⟨y, hy⟩, ⟨z, hz⟩, ⟨w, hw⟩⟩

theorem conformingParser_iff {d : PyDict F} : ConformingParser d ↔ ∃ parser, ParserReads d parser := by
  constructor
  · rintro ⟨⟨identity, hidentity⟩, ⟨version, hversion⟩, ⟨profile, hprofile⟩, htools⟩
    obtain ⟨tools, htools⟩ := isTexts_iff.1 htools
    exact ⟨⟨identity, version, profile, tools, _⟩, hidentity, hversion, hprofile, htools, rfl⟩
  · rintro ⟨parser, h⟩
    exact ⟨⟨_, h.identity⟩, ⟨_, h.version⟩, ⟨_, h.profile⟩, isTexts_iff.2 ⟨_, h.toolVersions⟩⟩

theorem conformingLocator_iff {d : PyDict F} : ConformingLocator d ↔ ∃ locator, LocatorReads p d locator := by
  constructor
  · rintro ⟨hpath, hstart, hend, hpage, hbox⟩
    obtain ⟨path, hpath⟩ := isTexts_iff.1 hpath
    obtain ⟨charStart, hstart⟩ := isNullOr_integer_iff.1 hstart
    obtain ⟨charEnd, hend⟩ := isNullOr_integer_iff.1 hend
    obtain ⟨page, hpage⟩ := isNullOr_integer_iff.1 hpage
    obtain ⟨box, hbox⟩ := (@isBbox_iff F p _).1 hbox
    exact ⟨⟨path, charStart, charEnd, page, box, _⟩, hpath, hstart, hend, hpage, hbox, rfl⟩
  · rintro ⟨locator, h⟩
    exact ⟨isTexts_iff.2 ⟨_, h.path⟩, isNullOr_integer_iff.2 ⟨_, h.charStart⟩, isNullOr_integer_iff.2 ⟨_, h.charEnd⟩,
      isNullOr_integer_iff.2 ⟨_, h.page⟩, isBbox_iff.2 ⟨_, h.bbox⟩⟩

theorem mem_nodeKind (kind : NodeKind) : kind ∈ NodeKind.all := by cases kind <;> decide

theorem mem_authorityClass (authority : AuthorityClass) : authority ∈ AuthorityClass.all := by
  cases authority <;> decide

theorem conformingNode_iff {d : PyDict F} : ConformingNode p d ↔ ∃ node, NodeReads p d node := by
  constructor
  · rintro ⟨hid, hkind, ⟨identity, hidentity⟩, hparent, ⟨order, horder⟩, htext, ⟨l, hl, hlocator⟩, hauthority, hlanguage⟩
    obtain ⟨nodeId, hid⟩ := isUuid_iff.1 hid
    obtain ⟨kind, hkind⟩ := (isOneOf_iff mem_nodeKind).1 hkind
    obtain ⟨parentId, hparent⟩ := isNullOr_uuid_iff.1 hparent
    obtain ⟨text, htext⟩ := isNullOr_text_iff.1 htext
    obtain ⟨locator, hlocator⟩ := (@conformingLocator_iff F p _).1 hlocator
    obtain ⟨authority, hauthority⟩ := (isOneOf_iff mem_authorityClass).1 hauthority
    obtain ⟨language, hlanguage⟩ := isNullOr_text_iff.1 hlanguage
    exact ⟨⟨nodeId, kind, identity, parentId, order, text, locator, authority, language, _⟩, hid, hkind, hidentity, hparent,
      horder, htext, ⟨l, hl, hlocator⟩, hauthority, hlanguage, rfl⟩
  · rintro ⟨node, h⟩
    obtain ⟨l, hl, hlocator⟩ := h.locator
    exact ⟨isUuid_iff.2 ⟨_, h.nodeId⟩, (isOneOf_iff mem_nodeKind).2 ⟨_, h.kind⟩, ⟨_, h.structuralIdentity⟩,
      isNullOr_uuid_iff.2 ⟨_, h.parentId⟩, ⟨_, h.childOrder⟩, isNullOr_text_iff.2 ⟨_, h.text⟩,
      ⟨l, hl, conformingLocator_iff.2 ⟨_, hlocator⟩⟩, (isOneOf_iff mem_authorityClass).2 ⟨_, h.authority⟩,
      isNullOr_text_iff.2 ⟨_, h.language⟩⟩

/-- **An object conforms exactly when it is decoded.** -/
theorem conforms_iff {d : PyDict F} : Conforming p d ↔ ∃ document, documentFromJson p d = .ok document := by
  simp only [documentFromJson_ok]
  constructor
  · rintro ⟨hschema, hid, hversion, ⟨mime, hmime⟩, ⟨pv, hpv, hparser⟩, hlanguages, ⟨metadata, hmetadata, -⟩,
      ⟨roots, hroots, hrootIds⟩, ⟨xs, hxs, hnodes⟩⟩
    obtain ⟨documentId, hid⟩ := isUuid_iff.1 hid
    obtain ⟨versionId, hversion⟩ := isUuid_iff.1 hversion
    obtain ⟨parser, hparser⟩ := conformingParser_iff.1 hparser
    obtain ⟨languages, hlanguages⟩ := isTexts_iff.1 hlanguages
    obtain ⟨rootIds, hrootIds⟩ := exists_forall₂.2 fun x hx => isUuid_iff.1 (hrootIds x hx)
    obtain ⟨nodes, hnodes⟩ := (@exists_forall₂ _ _
      (fun (x : PyValue F) node => ∃ nodeValue, x = .dict nodeValue ∧ NodeReads p nodeValue node) xs).2 fun x hx => by
        obtain ⟨nodeValue, hx, hnode⟩ := hnodes x hx
        obtain ⟨node, hnode⟩ := conformingNode_iff.1 hnode
        exact ⟨node, nodeValue, hx, hnode⟩
    exact ⟨⟨documentId, versionId, mime, parser, languages, metadata, rootIds, nodes, lit MilpbookLM.schemaVersion, _⟩,
      ⟨hschema, rfl⟩, hid, hversion, hmime, ⟨pv, hpv, hparser⟩, hlanguages, hmetadata, ⟨roots, hroots, hrootIds⟩,
      ⟨xs, hxs, hnodes⟩, rfl⟩
  · rintro ⟨document, h⟩
    obtain ⟨pv, hpv, hparser⟩ := h.parser
    obtain ⟨roots, hroots, hrootIds⟩ := h.rootNodeIds
    obtain ⟨xs, hxs, hnodes⟩ := h.nodes
    refine ⟨h.schemaVersion.1.trans (by rw [h.schemaVersion.2]), isUuid_iff.2 ⟨_, h.documentId⟩,
      isUuid_iff.2 ⟨_, h.sourceVersionId⟩, ⟨_, h.mimeType⟩, ⟨pv, hpv, conformingParser_iff.2 ⟨_, hparser⟩⟩,
      isTexts_iff.2 ⟨_, h.languages⟩, ⟨_, h.metadata, trivial⟩,
      ⟨roots, hroots, fun x hx => isUuid_iff.2 (exists_forall₂.1 ⟨_, hrootIds⟩ x hx)⟩, ⟨xs, hxs, fun x hx => ?_⟩⟩
    obtain ⟨node, nodeValue, hx, hnode⟩ := exists_forall₂.1 ⟨_, hnodes⟩ x hx
    exact ⟨nodeValue, hx, conformingNode_iff.2 ⟨node, hnode⟩⟩

end MilpbookLM.Contracts
