/-
The blocks of a note as the editor holds them: what is read off a content, and what is
saved again. A block that is understood keeps the object it was read from beside its own
fields, and every other one is kept as it is.
-/
import Mathlib.Data.List.Basic

namespace MilpbookLM.Web

/-! ## Values -/

/-- A string, by its code units. -/
abbrev JsString := List UInt16

/-- A literal; all of them are ASCII. -/
def js (s : String) : JsString := s.toList.map fun c => UInt16.ofNat c.toNat

/-- What `JSON.parse` gives; a number by the text that `JSON.stringify` gives it. -/
inductive JsValue
  | null
  | bool (b : Bool)
  | number (text : String)
  | string (s : JsString)
  | array (items : List JsValue)
  | object (fields : List (JsString × JsValue))

/-- The own properties of an object, in their order. -/
abbrev Fields := List (JsString × JsValue)

namespace Fields

/-- `o[key]`, none for undefined. -/
def get (o : Fields) (key : JsString) : Option JsValue := (o.find? (·.1 = key)).map (·.2)

/-- `{ ...o, [key]: value }`: a property that is there keeps its place. -/
def set (key : JsString) (value : JsValue) : Fields → Fields
  | [] => [(key, value)]
  | (k, v) :: o => if k = key then (k, value) :: o else (k, v) :: set key value o

/-- The properties but one. -/
def without (o : Fields) (key : JsString) : Fields := o.filter (·.1 ≠ key)

@[simp] theorem get_cons (k : JsString) (v : JsValue) (o : Fields) (key : JsString) :
    get ((k, v) :: o) key = if k = key then some v else get o key := by
  by_cases h : k = key <;> simp [get, h]

@[simp] theorem get_set_self (o : Fields) (key : JsString) (value : JsValue) :
    (set key value o).get key = some value := by
  induction o with
  | nil => simp [set]
  | cons kv o ih =>
    obtain ⟨k, v⟩ := kv
    simp only [set]
    split
    · next hk => simp [hk]
    · next hk => simp [hk, ih]

theorem get_set_of_ne {key key' : JsString} (h : key ≠ key') (o : Fields) (value : JsValue) :
    (set key value o).get key' = o.get key' := by
  induction o with
  | nil => simp [set, get, h]
  | cons kv o ih =>
    obtain ⟨k, v⟩ := kv
    simp only [set]
    split
    · next hk => simp [hk, h]
    · next hk => simp [ih]

/-- Setting a property to what it is. -/
theorem set_of_get {o : Fields} {key : JsString} {value : JsValue} (h : o.get key = some value) :
    set key value o = o := by
  induction o with
  | nil => cases h
  | cons kv o ih =>
    obtain ⟨k, v⟩ := kv
    rw [get_cons] at h
    simp only [set]
    split at h
    · next hk =>
      cases h
      rw [if_pos hk]
    · next hk => rw [if_neg hk, ih h]

theorem get_without_of_ne {key key' : JsString} (h : key' ≠ key) (o : Fields) :
    (o.without key).get key' = o.get key' := by
  induction o with
  | nil => rfl
  | cons kv o ih =>
    obtain ⟨k, v⟩ := kv
    rw [without] at ih ⊢
    by_cases hk : k = key
    · rw [List.filter_cons_of_neg (by simp [hk]), ih, get_cons, if_neg fun he => h (he.symm.trans hk)]
    · rw [List.filter_cons_of_pos (by simp [hk]), get_cons, get_cons, ih]

end Fields

namespace JsValue

/-- `typeof value === "string" ? value : undefined`. -/
def string? : JsValue → Option JsString
  | .string s => some s
  | _ => none

theorem string?_eq_some {value : JsValue} {s : JsString} : value.string? = some s ↔ value = .string s := by
  cases value <;> simp [string?]

end JsValue

/-! ## Blocks -/

inductive HeadingLevel
  | two | three
  deriving DecidableEq

def HeadingLevel.value : HeadingLevel → JsValue
  | .two => .number "2"
  | .three => .number "3"

/-- A block with the object it was read from, or a value that is no block the editor knows. -/
inductive EditorBlock
  | paragraph (text : JsString) (preserved : Fields)
  | heading (level : HeadingLevel) (text : JsString) (preserved : Fields)
  | orderedList (items : List JsString) (preserved : Fields)
  | unorderedList (items : List JsString) (preserved : Fields)
  | preserved (content : JsValue)

structure EditorDocument where
  baseContent : Fields
  blocks : List EditorBlock

inductive NewBlockKind
  | paragraph | heading | orderedList | unorderedList
  deriving DecidableEq

/-- `isHeadingLevel(value) ? value : undefined`. -/
def headingLevel? : JsValue → Option HeadingLevel
  | .number text => if text = "2" then some .two else if text = "3" then some .three else none
  | _ => none

/-- `stringItems`. -/
def stringItems : JsValue → Option (List JsString)
  | .array items => items.mapM JsValue.string?
  | _ => none

def newParagraphBlock (text : JsString) : EditorBlock := .paragraph text []

def newEditorBlock : NewBlockKind → EditorBlock
  | .paragraph => newParagraphBlock []
  | .heading => .heading .two [] []
  | .orderedList => .orderedList [[]] []
  | .unorderedList => .unorderedList [[]] []

/-- `block["type"] === type`. -/
def hasType (block : Fields) (type : String) : Bool := (block.get (js "type")).bind JsValue.string? = some (js type)

def asParagraph (block : Fields) : Option EditorBlock := do
  guard (hasType block "paragraph")
  let text ← (block.get (js "text")).bind JsValue.string?
  return .paragraph text block

def asHeading (block : Fields) : Option EditorBlock := do
  guard (hasType block "heading")
  let level ← (block.get (js "level")).bind headingLevel?
  let text ← (block.get (js "text")).bind JsValue.string?
  return .heading level text block

def asList (type : String) (list : List JsString → Fields → EditorBlock) (block : Fields) : Option EditorBlock := do
  guard (hasType block type)
  let items ← (block.get (js "items")).bind stringItems
  return list items block

/-- `parseBlock`. -/
def parseBlock : JsValue → EditorBlock
  | .object block =>
    (asParagraph block <|> asHeading block <|> asList "ordered_list" .orderedList block <|>
      asList "unordered_list" .unorderedList block).getD (.preserved (.object block))
  | block => .preserved block

/-- `editorDocumentFromContent`. -/
def editorDocumentFromContent (content : Fields) : EditorDocument :=
  let baseContent := content.without (js "blocks")
  match content.get (js "blocks") with
  | some (.array rawBlocks) => ⟨baseContent, rawBlocks.map parseBlock⟩
  | _ => ⟨baseContent, [newParagraphBlock (((content.get (js "text")).bind JsValue.string?).getD [])]⟩

/-- `serializeBlock`. -/
def serializeBlock : EditorBlock → JsValue
  | .paragraph text preserved =>
    .object (((preserved.set (js "type") (.string (js "paragraph"))).set (js "text") (.string text)))
  | .heading level text preserved =>
    .object (((preserved.set (js "type") (.string (js "heading"))).set (js "level") level.value).set (js "text")
      (.string text))
  | .orderedList items preserved =>
    .object ((preserved.set (js "type") (.string (js "ordered_list"))).set (js "items") (.array (items.map .string)))
  | .unorderedList items preserved =>
    .object ((preserved.set (js "type") (.string (js "unordered_list"))).set (js "items") (.array (items.map .string)))
  | .preserved content => content

/-- `serializeEditorDocument`. -/
def serializeEditorDocument (document : EditorDocument) : Fields :=
  document.baseContent.set (js "blocks") (.array (document.blocks.map serializeBlock))

end MilpbookLM.Web
