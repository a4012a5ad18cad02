/-
The canonical document contract, version 1: its records with the fields unknown to this
reader, and how they are written as JSON objects. A written object has the unknown
fields it was given (`unknown_update`), and at every known name what was written there
last (`field?_update`).
-/
import MilpbookLM.Documents.Canonical
import MilpbookLM.Execution.Values

namespace MilpbookLM.Contracts

open Execution

variable {F : Type}

/-! ## Records -/

structure ParserDescriptor (F : Type) where
  identity : PyStr
  version : PyStr
  profile : PyStr
  toolVersions : List PyStr
  extraFields : PyDict F := []

/-- Structural path and optional text or PDF coordinates. -/
structure SourceLocator (F : Type) where
  path : List PyStr
  charStart : Option Int := none
  charEnd : Option Int := none
  page : Option Int := none
  bbox : Option (F × F × F × F) := none
  extraFields : PyDict F := []

/-- One immutable structural unit and its source locator. -/
structure CanonicalNode (F : Type) where
  nodeId : Uuid
  kind : NodeKind
  structuralIdentity : PyStr
  parentId : Option Uuid
  childOrder : Int
  text : Option PyStr
  locator : SourceLocator F
  authority : AuthorityClass := .sourceAuthored
  language : Option PyStr := none
  extraFields : PyDict F := []

/-- Immutable canonical representation of one source version. -/
structure CanonicalDocument (F : Type) where
  documentId : Uuid
  sourceVersionId : Uuid
  mimeType : PyStr
  parser : ParserDescriptor F
  languages : List PyStr
  metadata : PyDict F
  rootNodeIds : List Uuid
  nodes : List (CanonicalNode F)
  schemaVersion : PyStr := lit MilpbookLM.schemaVersion
  extraFields : PyDict F := []

/-! ## Objects -/

/-- `value[key] = item`. -/
def setItem (d : PyDict F) (key : String) (item : PyValue F) : PyDict F :=
  if d.any (·.1 == lit key) then d.map fun old => if old.1 == lit key then (lit key, item) else old
  else d ++ [(lit key, item)]

/-- `value.update(items)`. -/
def update (d : PyDict F) (items : List (String × PyValue F)) : PyDict F :=
  items.foldl (fun d item => setItem d item.1 item.2) d

/-- `_unknown`. -/
def unknown (d : PyDict F) (known : List String) : PyDict F := d.filter fun item => !(known.any fun key => item.1 == lit key)

def uuidValue (u : Uuid) : PyValue F := .str (lit u.str)

def textValue : Option PyStr → PyValue F
  | some s => .str s
  | none => .none

/-! ## to_json -/

def parserFields : List String := ["identity", "version", "profile", "tool_versions"]

def locatorFields : List String := ["path", "char_start", "char_end", "page", "bbox"]

def nodeFields : List String :=
  ["node_id", "kind", "structural_identity", "parent_id", "child_order", "text", "locator", "authority", "language"]

def documentFields : List String :=
  ["schema_version", "document_id", "source_version_id", "mime_type", "parser", "languages", "metadata", "root_node_ids",
    "nodes"]

def ParserDescriptor.toJson (parser : ParserDescriptor F) : PyDict F :=
  update parser.extraFields
    [("identity", .str parser.identity),
      ("version", .str parser.version),
      ("profile", .str parser.profile),
      ("tool_versions", .list (parser.toolVersions.map .str))]

/-- `[bbox[0], bbox[1], bbox[2], bbox[3]]`. -/
def bboxValue (bbox : F × F × F × F) : PyValue F :=
  .list [.float bbox.1, .float bbox.2.1, .float bbox.2.2.1, .float bbox.2.2.2]

/-- The optional fields that are there. -/
def SourceLocator.optionalFields (locator : SourceLocator F) : List (String × PyValue F) :=
  (locator.charStart.map fun n => ("char_start", .int n)).toList ++
    ((locator.charEnd.map fun n => ("char_end", .int n)).toList ++
      ((locator.page.map fun n => ("page", .int n)).toList ++
        (locator.bbox.map fun bbox => ("bbox", bboxValue bbox)).toList))

def SourceLocator.toJson (locator : SourceLocator F) : PyDict F :=
  update (setItem locator.extraFields "path" (.list (locator.path.map .str))) locator.optionalFields

def CanonicalNode.toJson (node : CanonicalNode F) : PyDict F :=
  update node.extraFields
    [("node_id", uuidValue node.nodeId),
      ("kind", .str (lit node.kind.value)),
      ("structural_identity", .str node.structuralIdentity),
      ("parent_id", (node.parentId.map uuidValue).getD .none),
      ("child_order", .int node.childOrder),
      ("text", textValue node.text),
      ("locator", .dict node.locator.toJson),
      ("authority", .str (lit node.authority.value)),
      ("language", textValue node.language)]

def CanonicalDocument.toJson (document : CanonicalDocument F) : PyDict F :=
  update document.extraFields
    [("schema_version", .str document.schemaVersion),
      ("document_id", uuidValue document.documentId),
      ("source_version_id", uuidValue document.sourceVersionId),
      ("mime_type", .str document.mimeType),
      ("parser", .dict document.parser.toJson),
      ("languages", .list (document.languages.map .str)),
      ("metadata", .dict document.metadata),
      ("root_node_ids", .list (document.rootNodeIds.map uuidValue)),
      ("nodes", .list (document.nodes.map fun node => .dict node.toJson))]

/-! ## What is read of a written object -/

theorem lit_inj {s t : String} (h : lit s = lit t) : s = t :=
  String.toList_injective ((List.map_injective_iff.2 fun _ _ => Char.toNat_inj.1) h)

theorem lit_beq (s t : String) : (lit s == lit t) = (s == t) := by
  rw [Bool.eq_iff_iff, beq_iff_eq, beq_iff_eq]
  exact ⟨lit_inj, congrArg lit⟩

theorem field?_append (d : PyDict F) (items : PyDict F) (key : String) :
    field? (d ++ items) key = (field? d key).or (field? items key) := by
  rw [field?, field?, field?, List.find?_append, Option.map_or]

theorem field?_eq_none {d : PyDict F} {key : String} : field? d key = none ↔ d.any (·.1 == lit key) = false := by
  rw [field?, Option.map_eq_none_iff, List.find?_eq_none, List.any_eq_false]

theorem field?_cons (item : PyStr × PyValue F) (d : PyDict F) (key : String) :
    field? (item :: d) key = if item.1 == lit key then some item.2 else field? d key := by
  rw [field?, List.find?_cons]
  cases item.1 == lit key <;> rfl

theorem field?_replace (d : PyDict F) (key key' : String) (item : PyValue F) :
    field? (d.map fun old => if old.1 == lit key then (lit key, item) else old) key' =
      if key = key' then (field? d key').map fun _ => item else field? d key' := by
  induction d with
  | nil => simp [field?]
  | cons old d ih =>
    rw [List.map_cons, field?_cons, field?_cons, ih]
    by_cases hold : old.1 = lit key
    · by_cases hkey : key = key'
      · simp [hold, hkey]
      · have hne : (lit key == lit key') = false := by
          rw [lit_beq, beq_eq_false_iff_ne]
          exact hkey
        simp [hold, hkey, hne]
    · have hne : (old.1 == lit key) = false := beq_eq_false_iff_ne.2 hold
      by_cases hkey : key = key'
      · subst hkey
        simp [hne]
      · simp [hne, hkey]

theorem field?_setItem (d : PyDict F) (key key' : String) (item : PyValue F) :
    field? (setItem d key item) key' = if key = key' then some item else field? d key' := by
  rw [setItem]
  split
  · next hany =>
    rw [field?_replace]
    by_cases hkey : key = key'
    · subst hkey
      obtain ⟨old, hold⟩ := Option.ne_none_iff_exists'.1 fun hnone => by
        rw [field?_eq_none.1 hnone] at hany
        cases hany
      rw [if_pos rfl, if_pos rfl, hold]
      rfl
    · rw [if_neg hkey, if_neg hkey]
  · next hany =>
    rw [Bool.not_eq_true] at hany
    rw [field?_append]
    by_cases hkey : key = key'
    · subst hkey
      rw [field?_eq_none.2 hany, if_pos rfl]
      simp [field?]
    · rw [if_neg hkey]
      have hbeq : (lit key == lit key') = false := by
        rw [lit_beq, beq_eq_false_iff_ne]
        exact hkey
      simp [field?, hbeq]

/-- **At a key, what was written there last, else what was there.** -/
theorem field?_update (d : PyDict F) (items : List (String × PyValue F)) (key : String) :
    field? (update d items) key = ((items.reverse.find? (·.1 = key)).map (·.2)).or (field? d key) := by
  rw [update]
  induction items generalizing d with
  | nil => rfl
  | cons item items ih =>
    rw [List.foldl_cons, ih, List.reverse_cons, List.find?_append, field?_setItem]
    cases (items.reverse.find? (·.1 = key)) with
    | some found => rfl
    | none =>
      by_cases hkey : item.1 = key
      · simp [hkey]
      · simp [hkey]

theorem unknown_setItem {d : PyDict F} {key : String} {item : PyValue F} {known : List String} (h : key ∈ known) :
    unknown (setItem d key item) known = unknown d known := by
  have hknown : (known.any fun k => lit key == lit k) = true := List.any_eq_true.2 ⟨key, h, beq_self_eq_true _⟩
  rw [setItem]
  split
  · rw [unknown, List.filter_map, unknown]
    have hsame : ∀ old : PyStr × PyValue F,
        (!(known.any fun k => (if old.1 == lit key then (lit key, item) else old).1 == lit k)) =
          !(known.any fun k => old.1 == lit k) := by
      intro old
      by_cases hold : old.1 = lit key
      · simp only [hold, beq_self_eq_true, if_true]
      · rw [if_neg (by simpa using hold)]
    simp only [Function.comp_def, hsame]
    refine (List.map_congr_left fun old hmem => ?_).trans (List.map_id _)
    have hnot := (List.mem_filter.1 hmem).2
    have hne : ¬ (old.1 == lit key) = true := by
      intro hold
      rw [beq_iff_eq.1 hold, hknown] at hnot
      cases hnot
    rw [if_neg hne]
    rfl
  · rw [unknown, List.filter_append, List.filter_cons_of_neg (by simpa using hknown), List.filter_nil, List.append_nil,
      unknown]

/-- **Known fields do not touch the unknown ones.** -/
theorem unknown_update {d : PyDict F} {items : List (String × PyValue F)} {known : List String}
    (h : ∀ item ∈ items, item.1 ∈ known) : unknown (update d items) known = unknown d known := by
  rw [update]
  induction items generalizing d with
  | nil => rfl
  | cons item items ih =>
    rw [List.foldl_cons, ih fun item hmem => h item (List.mem_cons_of_mem _ hmem),
      unknown_setItem (h item List.mem_cons_self)]

/-- No field has a known name. -/
def AllUnknown (d : PyDict F) (known : List String) : Prop := ∀ key ∈ known, lit key ∉ d.map (·.1)

theorem unknown_eq_self {d : PyDict F} {known : List String} (h : AllUnknown d known) : unknown d known = d := by
  refine List.filter_eq_self.2 fun item hmem => ?_
  rw [Bool.not_eq_true', List.any_eq_false]
  intro key hkey heq
  exact h key hkey (List.mem_map.2 ⟨item, hmem, beq_iff_eq.1 heq⟩)

theorem field?_allUnknown {d : PyDict F} {known : List String} (h : AllUnknown d known) {key : String}
    (hkey : key ∈ known) : field? d key = none := by
  rw [field?_eq_none, List.any_eq_false]
  intro item hmem heq
  exact h key hkey (List.mem_map.2 ⟨item, hmem, beq_iff_eq.1 heq⟩)

end MilpbookLM.Contracts
