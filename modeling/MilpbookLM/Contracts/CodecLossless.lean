/-
The codec loses nothing. A document that is written and read is the same document, and an
object that is read and written says the same (`codec_lossless`): both objects are read as
one document. They may differ in how a UUID is spelled, in nulls of optional fields that are
written or left out, and in coordinates, which are written as the floats they were read as.
-/
import MilpbookLM.Contracts.Codec
import MilpbookLM.Execution.WireStrict

namespace MilpbookLM.Contracts

open Execution

variable {F : Type} {p : Platform F}

/-! ## What is written -/

theorem update_append (d : PyDict F) (items items' : List (String × PyValue F)) :
    update d (items ++ items') = update (update d items) items' := List.foldl_append ..

/-- A field that is written if there is a value. -/
theorem field?_optional {α : Type} (d : PyDict F) (o : Option α) (key key' : String) (f : α → PyValue F) :
    field? (update d (o.map fun a => (key, f a)).toList) key' =
      if key = key' then (o.map f).or (field? d key') else field? d key' := by
  cases o with
  | none => simp [update]
  | some a =>
    simp only [Option.map_some, Option.toList_some, update, List.foldl_cons, List.foldl_nil, field?_setItem]
    rfl

theorem mem_optionalFields {locator : SourceLocator F} : ∀ item ∈ locator.optionalFields, item.1 ∈ locatorFields := by
  intro item hmem
  simp only [SourceLocator.optionalFields, List.mem_append, Option.mem_toList, Option.map_eq_some_iff] at hmem
  rcases hmem with ⟨_, _, rfl⟩ | ⟨_, _, rfl⟩ | ⟨_, _, rfl⟩ | ⟨_, _, rfl⟩ <;> simp [locatorFields]

theorem allUnknown_unknown (d : PyDict F) (known : List String) : AllUnknown (unknown d known) known := by
  intro key hkey hmem
  obtain ⟨item, hitem, he⟩ := List.mem_map.1 hmem
  have hnot := (List.mem_filter.1 hitem).2
  rw [Bool.not_eq_true', List.any_eq_false] at hnot
  exact hnot key hkey (by rw [he]; exact beq_self_eq_true _)

/-- No extra field has the name of a known one. -/
structure CanonicalDocument.ExtrasUnknown (document : CanonicalDocument F) : Prop where
  extras : AllUnknown document.extraFields documentFields
  parser : AllUnknown document.parser.extraFields parserFields
  nodes : ∀ node ∈ document.nodes, AllUnknown node.extraFields nodeFields ∧ AllUnknown node.locator.extraFields locatorFields

theorem reads_parser_fields {parser : ParserDescriptor F} (h : AllUnknown parser.extraFields parserFields) :
    ParserReads parser.toJson parser := by
  refine ⟨?_, ?_, ?_, ?_, ?_⟩
  · simp [ParserDescriptor.toJson, field, field?_update]
  · simp [ParserDescriptor.toJson, field, field?_update]
  · simp [ParserDescriptor.toJson, field, field?_update]
  · simp [ParserDescriptor.toJson, field, field?_update]
  · rw [ParserDescriptor.toJson, unknown_update (by simp [parserFields]), unknown_eq_self h]

theorem reads_locator {locator : SourceLocator F} (h : AllUnknown locator.extraFields locatorFields) :
    LocatorReads p locator.toJson locator := by
  have hnone : ∀ key ∈ locatorFields, field? locator.extraFields key = none := fun key hkey => field?_allUnknown h hkey
  have hstart := hnone "char_start" (by simp [locatorFields])
  have hend := hnone "char_end" (by simp [locatorFields])
  have hpage := hnone "page" (by simp [locatorFields])
  have hbox := hnone "bbox" (by simp [locatorFields])
  refine ⟨?_, ?_, ?_, ?_, ?_, ?_⟩
  · simp [SourceLocator.toJson, SourceLocator.optionalFields, update_append, field, field?_optional, field?_setItem]
  · simp only [SourceLocator.toJson, SourceLocator.optionalFields, update_append, field, field?_optional, field?_setItem,
      hstart]
    cases locator.charStart <;> simp [intValue]
  · simp only [SourceLocator.toJson, SourceLocator.optionalFields, update_append, field, field?_optional, field?_setItem,
      hend]
    cases locator.charEnd <;> simp [intValue]
  · simp only [SourceLocator.toJson, SourceLocator.optionalFields, update_append, field, field?_optional, field?_setItem,
      hpage]
    cases locator.page <;> simp [intValue]
  · simp only [SourceLocator.toJson, SourceLocator.optionalFields, update_append, field, field?_optional, field?_setItem,
      hbox]
    cases locator.bbox with
    | none => simp [ReadsBbox]
    | some box => exact ⟨_, _, _, _, rfl, .inl rfl, .inl rfl, .inl rfl, .inl rfl⟩
  · rw [SourceLocator.toJson, unknown_update mem_optionalFields, unknown_setItem (by simp [locatorFields]), unknown_eq_self h]

theorem reads_node {node : CanonicalNode F} (h : AllUnknown node.extraFields nodeFields)
    (hlocator : AllUnknown node.locator.extraFields locatorFields) : NodeReads p node.toJson node := by
  refine ⟨?_, ?_, ?_, ?_, ?_, ?_, ⟨node.locator.toJson, ?_, reads_locator hlocator⟩, ?_, ?_, ?_⟩
  · simp [CanonicalNode.toJson, field, field?_update, readsUuid_uuidValue]
  · simp [CanonicalNode.toJson, field, field?_update]
  · simp [CanonicalNode.toJson, field, field?_update]
  · simp only [CanonicalNode.toJson, field, field?_update]
    cases node.parentId with
    | none => rfl
    | some u => exact readsUuid_uuidValue u
  · simp [CanonicalNode.toJson, field, field?_update]
  · simp [CanonicalNode.toJson, field, field?_update]
  · simp [CanonicalNode.toJson, field, field?_update]
  · simp [CanonicalNode.toJson, field, field?_update]
  · simp [CanonicalNode.toJson, field, field?_update]
  · rw [CanonicalNode.toJson, unknown_update (by simp [nodeFields]), unknown_eq_self h]

/-- **A written document is read as itself.** -/
theorem reads_toJson {document : CanonicalDocument F} (hversion : document.schemaVersion = lit MilpbookLM.schemaVersion)
    (h : document.ExtrasUnknown) : DocumentReads p document.toJson document := by
  refine ⟨⟨?_, hversion⟩, ?_, ?_, ?_, ⟨document.parser.toJson, ?_, reads_parser_fields h.parser⟩, ?_, ?_,
    ⟨document.rootNodeIds.map uuidValue, ?_, ?_⟩, ⟨document.nodes.map fun node => .dict node.toJson, ?_, ?_⟩, ?_⟩
  · simp [CanonicalDocument.toJson, field, field?_update]
  · simp [CanonicalDocument.toJson, field, field?_update, readsUuid_uuidValue]
  · simp [CanonicalDocument.toJson, field, field?_update, readsUuid_uuidValue]
  · simp [CanonicalDocument.toJson, field, field?_update]
  · simp [CanonicalDocument.toJson, field, field?_update]
  · simp [CanonicalDocument.toJson, field, field?_update]
  · simp [CanonicalDocument.toJson, field, field?_update]
  · simp [CanonicalDocument.toJson, field, field?_update]
  · rw [List.forall₂_map_left_iff, List.forall₂_same]
    exact fun u _ => readsUuid_uuidValue u
  · simp [CanonicalDocument.toJson, field, field?_update]
  · rw [List.forall₂_map_left_iff, List.forall₂_same]
    exact fun node hn => ⟨node.toJson, rfl, reads_node (h.nodes node hn).1 (h.nodes node hn).2⟩
  · rw [CanonicalDocument.toJson, unknown_update (by simp [documentFields]), unknown_eq_self h.extras]

theorem exists_of_forall₂ {α β : Type} {R : α → β → Prop} {xs : List α} {ys : List β} (h : List.Forall₂ R xs ys) {y : β}
    (hy : y ∈ ys) : ∃ x ∈ xs, R x y := by
  induction h with
  | nil => cases hy
  | cons hxy _ ih =>
    rcases List.mem_cons.1 hy with rfl | hy
    · exact ⟨_, List.mem_cons_self, hxy⟩
    · obtain ⟨x, hx, hxy⟩ := ih hy
      exact ⟨x, List.mem_cons_of_mem _ hx, hxy⟩

/-- The extra fields of a document that was read are unknown ones. -/
theorem DocumentReads.extrasUnknown {value : PyDict F} {document : CanonicalDocument F}
    (h : DocumentReads p value document) : document.ExtrasUnknown := by
  obtain ⟨parserValue, -, hparser⟩ := h.parser
  obtain ⟨xs, -, hnodes⟩ := h.nodes
  refine ⟨?_, ?_, fun node hn => ?_⟩
  · rw [h.extraFields]
    exact allUnknown_unknown _ _
  · rw [hparser.extraFields]
    exact allUnknown_unknown _ _
  · obtain ⟨x, -, nodeValue, -, hnode⟩ := exists_of_forall₂ hnodes hn
    obtain ⟨locatorValue, -, hlocator⟩ := hnode.locator
    rw [hnode.extraFields, hlocator.extraFields]
    exact ⟨allUnknown_unknown _ _, allUnknown_unknown _ _⟩

/-! ## Objects that say the same -/

/-- The same values under these keys; a null is a missing value. -/
def SameFields (keys : List String) (x y : PyDict F) : Prop := ∀ key ∈ keys, field x key = field y key

/-- The same coordinate, as a float. -/
def SameCoordinate (p : Platform F) (x y : PyValue F) : Prop := ∃ c, ReadsCoordinate p x c ∧ ReadsCoordinate p y c

/-- No boxes, or the same one. -/
def SameBbox (p : Platform F) (x y : PyValue F) : Prop :=
  x = .none ∧ y = .none ∨ ∃ xs ys, x = .list xs ∧ y = .list ys ∧ List.Forall₂ (SameCoordinate p) xs ys

structure SameLocator (p : Platform F) (x y : PyDict F) : Prop where
  fields : SameFields ["path", "char_start", "char_end", "page"] x y
  bbox : SameBbox p (field x "bbox") (field y "bbox")
  unknown : unknown x locatorFields = unknown y locatorFields

structure SameNode (p : Platform F) (x y : PyDict F) : Prop where
  nodeId : SameUuid p (field x "node_id") (field y "node_id")
  parentId : field x "parent_id" = .none ∧ field y "parent_id" = .none ∨
    SameUuid p (field x "parent_id") (field y "parent_id")
  fields : SameFields ["kind", "structural_identity", "child_order", "text", "authority", "language"] x y
  locator : ∃ l l', field x "locator" = .dict l ∧ field y "locator" = .dict l' ∧ SameLocator p l l'
  unknown : unknown x nodeFields = unknown y nodeFields

structure SameParser (x y : PyDict F) : Prop where
  fields : SameFields parserFields x y
  unknown : unknown x parserFields = unknown y parserFields

/-- The objects are equal up to the spelling of UUIDs, nulls of optional fields of nodes and locators, and the numeric
type of coordinates; their unknown fields are the same ones in the same order. -/
structure SameDocument (p : Platform F) (x y : PyDict F) : Prop where
  documentId : SameUuid p (field x "document_id") (field y "document_id")
  sourceVersionId : SameUuid p (field x "source_version_id") (field y "source_version_id")
  fields : SameFields ["schema_version", "mime_type", "languages", "metadata"] x y
  parser : ∃ d d', field x "parser" = .dict d ∧ field y "parser" = .dict d' ∧ SameParser d d'
  rootNodeIds : ∃ xs ys, field x "root_node_ids" = .list xs ∧ field y "root_node_ids" = .list ys ∧
    List.Forall₂ (SameUuid p) xs ys
  nodes : ∃ xs ys, field x "nodes" = .list xs ∧ field y "nodes" = .list ys ∧
    List.Forall₂ (fun a b => ∃ d d', a = .dict d ∧ b = .dict d' ∧ SameNode p d d') xs ys
  unknown : unknown x documentFields = unknown y documentFields

theorem sameUuid_of_reads {x y : PyValue F} {u : Uuid} (hx : ReadsUuid p x u) (hy : ReadsUuid p y u) : SameUuid p x y := by
  obtain ⟨s, hs, hsu⟩ := hx
  obtain ⟨t, ht, htu⟩ := hy
  exact ⟨s, t, u, hs, ht, hsu, htu⟩

/-- Two lists that are read as one. -/
theorem forall₂_both {α β γ : Type} {R : α → γ → Prop} {S : β → γ → Prop} {T : α → β → Prop}
    (h : ∀ a b c, R a c → S b c → T a b) {as : List α} {bs : List β} {cs : List γ} (hr : List.Forall₂ R as cs)
    (hs : List.Forall₂ S bs cs) : List.Forall₂ T as bs := by
  induction hr generalizing bs with
  | nil =>
    cases hs
    exact .nil
  | cons hac _ ih =>
    cases hs with
    | cons hbc hs => exact .cons (h _ _ _ hac hbc) (ih hs)

theorem sameBbox_of_reads {x y : PyValue F} {box : Option (F × F × F × F)} (hx : ReadsBbox p x box) (hy : ReadsBbox p y box) :
    SameBbox p x y := by
  cases box with
  | none => exact .inl ⟨hx, hy⟩
  | some box =>
    obtain ⟨a, b, c, d, hx, ha, hb, hc, hd⟩ := hx
    obtain ⟨a', b', c', d', hy, ha', hb', hc', hd'⟩ := hy
    exact .inr ⟨_, _, hx, hy, .cons ⟨_, ha, ha'⟩ (.cons ⟨_, hb, hb'⟩ (.cons ⟨_, hc, hc'⟩ (.cons ⟨_, hd, hd'⟩ .nil)))⟩

theorem sameLocator_of_reads {x y : PyDict F} {locator : SourceLocator F} (hx : LocatorReads p x locator)
    (hy : LocatorReads p y locator) : SameLocator p x y := by
  refine ⟨?_, sameBbox_of_reads hx.bbox hy.bbox, hx.extraFields.symm.trans hy.extraFields⟩
  simp only [SameFields, List.forall_mem_cons, List.not_mem_nil, IsEmpty.forall_iff, implies_true,
    and_true]
  exact ⟨hx.path.trans hy.path.symm, hx.charStart.trans hy.charStart.symm, hx.charEnd.trans hy.charEnd.symm,
    hx.page.trans hy.page.symm⟩

theorem sameNode_of_reads {x y : PyDict F} {node : CanonicalNode F} (hx : NodeReads p x node) (hy : NodeReads p y node) :
    SameNode p x y := by
  obtain ⟨l, hl, hlocator⟩ := hx.locator
  obtain ⟨l', hl', hlocator'⟩ := hy.locator
  refine ⟨sameUuid_of_reads hx.nodeId hy.nodeId, ?_, ?_, ⟨l, l', hl, hl', sameLocator_of_reads hlocator hlocator'⟩,
    hx.extraFields.symm.trans hy.extraFields⟩
  · have hparent := hx.parentId
    have hparent' := hy.parentId
    cases hp : node.parentId with
    | none =>
      rw [hp] at hparent hparent'
      exact .inl ⟨hparent, hparent'⟩
    | some u =>
      rw [hp] at hparent hparent'
      exact .inr (sameUuid_of_reads hparent hparent')
  · simp only [SameFields, List.forall_mem_cons, List.not_mem_nil, IsEmpty.forall_iff, implies_true,
    and_true]
    exact ⟨hx.kind.trans hy.kind.symm, hx.structuralIdentity.trans hy.structuralIdentity.symm,
      hx.childOrder.trans hy.childOrder.symm, hx.text.trans hy.text.symm, hx.authority.trans hy.authority.symm,
      hx.language.trans hy.language.symm⟩

theorem sameParser_of_reads {x y : PyDict F} {parser : ParserDescriptor F} (hx : ParserReads x parser)
    (hy : ParserReads y parser) : SameParser x y := by
  refine ⟨?_, hx.extraFields.symm.trans hy.extraFields⟩
  simp only [SameFields, parserFields, List.forall_mem_cons, List.not_mem_nil, IsEmpty.forall_iff, implies_true,
    and_true]
  exact ⟨hx.identity.trans hy.identity.symm, hx.version.trans hy.version.symm, hx.profile.trans hy.profile.symm,
    hx.toolVersions.trans hy.toolVersions.symm⟩

/-- **Objects that are read as one document say the same.** -/
theorem sameDocument_of_reads {x y : PyDict F} {document : CanonicalDocument F} (hx : DocumentReads p x document)
    (hy : DocumentReads p y document) : SameDocument p x y := by
  obtain ⟨d, hd, hparser⟩ := hx.parser
  obtain ⟨d', hd', hparser'⟩ := hy.parser
  obtain ⟨roots, hroots, hrootIds⟩ := hx.rootNodeIds
  obtain ⟨roots', hroots', hrootIds'⟩ := hy.rootNodeIds
  obtain ⟨xs, hxs, hnodes⟩ := hx.nodes
  obtain ⟨ys, hys, hnodes'⟩ := hy.nodes
  refine ⟨sameUuid_of_reads hx.documentId hy.documentId, sameUuid_of_reads hx.sourceVersionId hy.sourceVersionId, ?_,
    ⟨d, d', hd, hd', sameParser_of_reads hparser hparser'⟩,
    ⟨roots, roots', hroots, hroots', forall₂_both ?_ hrootIds hrootIds'⟩,
    ⟨xs, ys, hxs, hys, forall₂_both ?_ hnodes hnodes'⟩, hx.extraFields.symm.trans hy.extraFields⟩
  · simp only [SameFields, List.forall_mem_cons, List.not_mem_nil, IsEmpty.forall_iff, implies_true,
    and_true]
    exact ⟨hx.schemaVersion.1.trans hy.schemaVersion.1.symm, hx.mimeType.trans hy.mimeType.symm,
      hx.languages.trans hy.languages.symm, hx.metadata.trans hy.metadata.symm⟩
  · exact fun _ _ _ => sameUuid_of_reads
  · rintro a b node ⟨v, hv, hnode⟩ ⟨w, hw, hnode'⟩
    exact ⟨v, w, hv, hw, sameNode_of_reads hnode hnode'⟩

/-- **The codec loses nothing**, either way round. -/
theorem codec_lossless (p : Platform F) :
    (∀ document : CanonicalDocument F, document.schemaVersion = lit MilpbookLM.schemaVersion → document.ExtrasUnknown →
      documentFromJson p document.toJson = .ok document) ∧
    ∀ (value : PyDict F) (document : CanonicalDocument F), documentFromJson p value = .ok document →
      SameDocument p document.toJson value := by
  refine ⟨fun document hversion h => documentFromJson_ok.2 (reads_toJson hversion h), fun value document h => ?_⟩
  have hreads := documentFromJson_ok.1 h
  exact sameDocument_of_reads (reads_toJson hreads.schemaVersion.2 hreads.extrasUnknown) hreads

/-- A paragraph without a text, a parent or a language. -/
def bareNode : PyDict Int :=
  [(lit "node_id", .str (lit "00000000-0000-0000-0000-00000000000a")), (lit "kind", .str (lit "paragraph")),
    (lit "structural_identity", .str (lit "paragraph:1")), (lit "child_order", .int 1),
    (lit "locator", .dict [(lit "path", .list [.str (lit "document")])]), (lit "authority", .str (lit "source_authored"))]

/-- A document of one such node, with its ids in capitals. -/
def capitalDocument : PyDict Int :=
  [(lit "schema_version", .str (lit "1")),
    (lit "parser", .dict [(lit "identity", .str []), (lit "version", .str []), (lit "profile", .str []),
      (lit "tool_versions", .list [])]),
    (lit "document_id", .str (lit "00000000-0000-0000-0000-00000000000A")),
    (lit "source_version_id", .str (lit "00000000-0000-0000-0000-00000000000B")),
    (lit "mime_type", .str (lit "text/plain")), (lit "languages", .list []), (lit "metadata", .dict []),
    (lit "root_node_ids", .list []), (lit "nodes", .list [.dict bareNode])]

/-- It is accepted, and written with another spelling of its id, and with nulls for the text, the parent and the
language of its node. -/
theorem respelled :
    ∃ document, documentFromJson wirePlatform capitalDocument = .ok document ∧
      (field document.toJson "document_id").str? ≠ (field capitalDocument "document_id").str? ∧
      ∃ node ∈ document.nodes, ∀ key ∈ ["text", "parent_id", "language"],
        (field? node.toJson key).isSome = true ∧ (field? bareNode key).isSome = false := by
  refine ⟨_, rfl, ?_, _, List.mem_cons_self, ?_⟩
  · decide +kernel
  · decide +kernel

end MilpbookLM.Contracts
