/-
The signature of an editor document, by which a change of the content is noticed: the text
of the document with its blocks trimmed. Contents that are saved alike open as documents that
no operation and no signature tells apart (`SameNote.saved`, `SameNote.signature`).
-/
import MilpbookLM.Web.Editing

namespace MilpbookLM.Web

/-! ## `JSON.stringify` -/

/-- A digit below 16, in lower case. -/
def hexUnit (n : Nat) : UInt16 := UInt16.ofNat (if n < 10 then 48 + n else 87 + n)

/-- `\uXXXX`. -/
def unicodeEscape (c : UInt16) : JsString :=
  js "\\u" ++ [hexUnit (c.toNat / 4096), hexUnit (c.toNat / 256 % 16), hexUnit (c.toNat / 16 % 16),
    hexUnit (c.toNat % 16)]

def isHighSurrogate (c : UInt16) : Bool := 0xD800 ≤ c && c ≤ 0xDBFF

def isLowSurrogate (c : UInt16) : Bool := 0xDC00 ≤ c && c ≤ 0xDFFF

/-- A unit that is no part of a surrogate pair. -/
def escapeUnit (c : UInt16) : JsString :=
  if c = 0x08 then js "\\b"
  else if c = 0x09 then js "\\t"
  else if c = 0x0A then js "\\n"
  else if c = 0x0C then js "\\f"
  else if c = 0x0D then js "\\r"
  else if c = 0x22 then js "\\\""
  else if c = 0x5C then js "\\\\"
  else if c < 0x20 || isHighSurrogate c || isLowSurrogate c then unicodeEscape c
  else [c]

/-- The units between the quotes. -/
def escape : JsString → JsString
  | c :: d :: cs =>
    if isHighSurrogate c && isLowSurrogate d then c :: d :: escape cs else escapeUnit c ++ escape (d :: cs)
  | [c] => escapeUnit c
  | [] => []

def quote (s : JsString) : JsString := js "\"" ++ escape s ++ js "\""

mutual

/-- `JSON.stringify(value)`. -/
def stringify : JsValue → JsString
  | .null => js "null"
  | .bool b => js (if b then "true" else "false")
  | .number text => js text
  | .string s => quote s
  | .array items => js "[" ++ stringifyItems items ++ js "]"
  | .object fields => js "\x7b" ++ stringifyFields fields ++ js "\x7d"

def stringifyItems : List JsValue → JsString
  | [] => []
  | [item] => stringify item
  | item :: items => stringify item ++ js "," ++ stringifyItems items

def stringifyFields : List (JsString × JsValue) → JsString
  | [] => []
  | [(key, value)] => quote key ++ js ":" ++ stringify value
  | (key, value) :: fields => quote key ++ js ":" ++ stringify value ++ js "," ++ stringifyFields fields

end

/-! ## Signatures -/

/-- What `trim` takes off: white space and line terminators. -/
def isJsSpace (c : UInt16) : Bool :=
  0x09 ≤ c && c ≤ 0x0D || c = 0x20 || c = 0xA0 || c = 0x1680 || 0x2000 ≤ c && c ≤ 0x200A || c = 0x2028 ||
    c = 0x2029 || c = 0x202F || c = 0x205F || c = 0x3000 || c = 0xFEFF

/-- `s.trim()`. -/
def trim (s : JsString) : JsString := ((s.dropWhile isJsSpace).reverse.dropWhile isJsSpace).reverse

/-- `trimBlockText`. -/
def trimBlockText : EditorBlock → EditorBlock
  | .paragraph text o => .paragraph (trim text) o
  | .heading level text o => .heading level (trim text) o
  | .orderedList items o => .orderedList (items.map trim) o
  | .unorderedList items o => .unorderedList (items.map trim) o
  | .preserved content => .preserved content

/-- `editorDocumentSignature`. -/
def editorDocumentSignature (document : EditorDocument) : JsString :=
  stringify (.object (serializeEditorDocument
    { document with blocks := document.blocks.map trimBlockText }))

/-! ## Documents that are saved alike -/

namespace Fields

theorem set_set (o : Fields) (key : JsString) (v w : JsValue) : set key w (set key v o) = set key w o := by
  induction o with
  | nil => simp [set]
  | cons kv o ih =>
    obtain ⟨k, u⟩ := kv
    by_cases hk : k = key <;> simp [set, hk, ih]

/-- A property that was set is set again in its place. -/
theorem set_set_of_ne {key key' : JsString} (h : key ≠ key') (o : Fields) (u v w : JsValue) :
    set key w (set key' v (set key u o)) = set key' v (set key w o) := by
  induction o with
  | nil => simp [set, h]
  | cons kv o ih =>
    obtain ⟨k, x⟩ := kv
    by_cases hk : k = key
    · simp [set, hk, h]
    · by_cases hk' : k = key'
      · subst hk'
        simp [set, hk, set_set]
      · simp [set, hk, hk', ih]

theorem set_of_absent {o : Fields} {key : JsString} (h : ∀ kv ∈ o, kv.1 ≠ key) (value : JsValue) :
    set key value o = o ++ [(key, value)] := by
  induction o with
  | nil => rfl
  | cons kv o ih =>
    obtain ⟨k, v⟩ := kv
    have hk : k ≠ key := h _ List.mem_cons_self
    simp only [set, if_neg hk, ih fun kv hkv => h kv (List.mem_cons_of_mem _ hkv), List.cons_append]

end Fields

/-- The object that a paragraph is saved as. -/
def paragraphFields (text : JsString) (o : Fields) : Fields :=
  (o.set (js "type") (.string (js "paragraph"))).set (js "text") (.string text)

def headingFields (level : HeadingLevel) (text : JsString) (o : Fields) : Fields :=
  ((o.set (js "type") (.string (js "heading"))).set (js "level") level.value).set (js "text") (.string text)

def listFields (type : String) (items : List JsString) (o : Fields) : Fields :=
  (o.set (js "type") (.string (js type))).set (js "items") (.array (items.map .string))

/-- A block beside the object that it is saved as. -/
def EditorBlock.rebase : EditorBlock → EditorBlock
  | .paragraph text o => .paragraph text (paragraphFields text o)
  | .heading level text o => .heading level text (headingFields level text o)
  | .orderedList items o => .orderedList items (listFields "ordered_list" items o)
  | .unorderedList items o => .unorderedList items (listFields "unordered_list" items o)
  | .preserved content => .preserved content

theorem paragraphFields_again (text text' : JsString) (o : Fields) :
    paragraphFields text' (paragraphFields text o) = paragraphFields text' o := by
  have htype : (paragraphFields text o).get (js "type") = some (.string (js "paragraph")) := by
    rw [paragraphFields, Fields.get_set_of_ne (by decide), Fields.get_set_self]
  rw [paragraphFields, Fields.set_of_get htype, paragraphFields, Fields.set_set, paragraphFields]

theorem headingFields_again (level level' : HeadingLevel) (text text' : JsString) (o : Fields) :
    headingFields level' text' (headingFields level text o) = headingFields level' text' o := by
  have htype : (headingFields level text o).get (js "type") = some (.string (js "heading")) := by
    rw [headingFields, Fields.get_set_of_ne (by decide), Fields.get_set_of_ne (by decide), Fields.get_set_self]
  rw [headingFields, Fields.set_of_get htype, headingFields, Fields.set_set_of_ne (by decide),
    Fields.set_set_of_ne (by decide), headingFields]

theorem listFields_again (type : String) (items items' : List JsString) (o : Fields) :
    listFields type items' (listFields type items o) = listFields type items' o := by
  have htype : (listFields type items o).get (js "type") = some (.string (js type)) := by
    rw [listFields, Fields.get_set_of_ne (by decide), Fields.get_set_self]
  rw [listFields, Fields.set_of_get htype, listFields, Fields.set_set, listFields]

namespace EditorBlock

theorem rebase_rebase (block : EditorBlock) : block.rebase.rebase = block.rebase := by
  cases block <;> simp [rebase, paragraphFields_again, headingFields_again, listFields_again]

theorem rebase_withText (block : EditorBlock) (text : JsString) :
    (block.rebase.withText text).rebase = (block.withText text).rebase := by
  cases block <;> simp [rebase, withText, paragraphFields_again, headingFields_again, listFields_again]

theorem rebase_withLevel (block : EditorBlock) (level : HeadingLevel) :
    (block.rebase.withLevel level).rebase = (block.withLevel level).rebase := by
  cases block <;> simp [rebase, withLevel, paragraphFields_again, headingFields_again, listFields_again]

theorem rebase_withItems (block : EditorBlock) (items : List JsString) :
    (block.rebase.withItems items).rebase = (block.withItems items).rebase := by
  cases block <;> simp [rebase, withItems, paragraphFields_again, headingFields_again, listFields_again]

theorem rebase_trim (block : EditorBlock) : (trimBlockText block.rebase).rebase = (trimBlockText block).rebase := by
  cases block <;> simp [rebase, trimBlockText, paragraphFields_again, headingFields_again, listFields_again]

theorem items?_rebase (block : EditorBlock) : block.rebase.items? = block.items? := by cases block <;> rfl

/-- What is saved of a block. -/
theorem serialize_rebase (block : EditorBlock) : serializeBlock block.rebase = serializeBlock block := by
  cases block with
  | paragraph text o => exact congrArg JsValue.object (paragraphFields_again text text o)
  | heading level text o => exact congrArg JsValue.object (headingFields_again level level text text o)
  | orderedList items o => exact congrArg JsValue.object (listFields_again _ items items o)
  | unorderedList items o => exact congrArg JsValue.object (listFields_again _ items items o)
  | preserved content => rfl

end EditorBlock

/-! ## Operations on them -/

/-- **No operation looks at what a block was read from.** -/
theorem rebase_applyOp (blocks : List EditorBlock) (op : EditorOp) :
    (applyOp (blocks.map .rebase) op).map .rebase = (applyOp blocks op).map EditorBlock.rebase := by
  have hkept : (blocks.map EditorBlock.rebase).map .rebase = blocks.map EditorBlock.rebase := by
    simp [EditorBlock.rebase_rebase]
  cases op with
  | updateText index text =>
    simp only [applyOp, updateText, updateAt_eq, List.getElem?_map]
    cases blocks[index]? with
    | none => exact hkept
    | some block => simp only [Option.map_some, List.map_set, hkept, EditorBlock.rebase_withText]
  | updateHeadingLevel index level =>
    simp only [applyOp, updateHeadingLevel, updateAt_eq, List.getElem?_map]
    cases blocks[index]? with
    | none => exact hkept
    | some block => simp only [Option.map_some, List.map_set, hkept, EditorBlock.rebase_withLevel]
  | updateListItem index item text =>
    simp only [applyOp, updateListItem, updateAt_eq, List.getElem?_map]
    cases blocks[index]? with
    | none => exact hkept
    | some block =>
      simp only [Option.map_some, EditorBlock.items?_rebase]
      cases block.items? with
      | none => exact hkept
      | some items => simp only [List.map_set, hkept, EditorBlock.rebase_withItems]
  | enter index item =>
    simp only [applyOp, onEnter, updateAt_eq, List.getElem?_map]
    cases blocks[index]? with
    | none => exact hkept
    | some block =>
      simp only [Option.map_some, EditorBlock.items?_rebase]
      cases block.items? with
      | none => exact hkept
      | some items => simp only [List.map_set, hkept, EditorBlock.rebase_withItems]
  | backspace index item =>
    simp only [applyOp, onBackspace, removeBlock, filterIndex_eq, updateAt_eq, List.getElem?_map]
    cases blocks[index]? with
    | none => exact hkept
    | some block =>
      simp only [Option.map_some, EditorBlock.items?_rebase]
      cases block.items? with
      | none => exact hkept
      | some items =>
        simp only
        split
        · exact hkept
        · split
          · simp only [← List.eraseIdx_map, hkept]
          · simp only [List.map_set, hkept, EditorBlock.rebase_withItems]
  | removeBlock index => simp only [applyOp, removeBlock, filterIndex_eq, ← List.eraseIdx_map, hkept]
  | moveBlock index direction =>
    simp only [applyOp, moveBlock, List.getElem?_map, List.length_map]
    cases blocks[index]? with
    | none => exact hkept
    | some block =>
      cases direction <;>
      · simp only [Option.map_some]
        split
        · exact hkept
        · simp only [List.map_insertIdx, ← List.eraseIdx_map, hkept, EditorBlock.rebase_rebase]
  | addBlock kind => simp only [applyOp, addBlock, List.map_append, hkept]

theorem rebase_foldl (blocks : List EditorBlock) (ops : List EditorOp) :
    (ops.foldl applyOp (blocks.map .rebase)).map .rebase = (ops.foldl applyOp blocks).map EditorBlock.rebase := by
  induction ops generalizing blocks with
  | nil => simp [EditorBlock.rebase_rebase]
  | cons op ops ih =>
    rw [List.foldl_cons, List.foldl_cons, ← ih, rebase_applyOp, ih]

/-! ## Contents that are saved alike -/

/-- Contents that the editor saves alike, if nothing is done. -/
def SameNote (content content' : Fields) : Prop := saved content [] = saved content' []

theorem ReadFrom.rebase {block : EditorBlock} {value : JsValue} (h : ReadFrom block value) : block.rebase = block := by
  cases h with
  | paragraph type htext =>
    rw [EditorBlock.rebase, paragraphFields, Fields.set_of_get type, Fields.set_of_get htext]
  | heading type hlevel htext =>
    rw [EditorBlock.rebase, headingFields, Fields.set_of_get type, Fields.set_of_get hlevel, Fields.set_of_get htext]
  | orderedList type hitems =>
    rw [EditorBlock.rebase, listFields, Fields.set_of_get type, Fields.set_of_get hitems]
  | unorderedList type hitems =>
    rw [EditorBlock.rebase, listFields, Fields.set_of_get type, Fields.set_of_get hitems]
  | preserved => rfl

/-- A block of an opened content is what is read from what it is saved as. -/
theorem rebase_open (content : Fields) : (editorDocumentFromContent content).blocks.map .rebase =
    ((editorDocumentFromContent content).blocks.map serializeBlock).map parseBlock := by
  cases hblocks : blocksOf content with
  | some values =>
    rw [open_blocks hblocks, List.map_map, List.map_map, List.map_map]
    refine List.map_congr_left fun value _ => ?_
    simp only [Function.comp_apply, serializeBlock_parseBlock, (readFrom_parseBlock value).rebase]
  | none =>
    rw [open_legacy hblocks]
    rfl

theorem saved_nil (content : Fields) : saved content [] = content.without (js "blocks") ++
    [(js "blocks", .array ((editorDocumentFromContent content).blocks.map serializeBlock))] := by
  rw [saved, serializeEditorDocument, EditorDocument.edit, List.foldl_nil, open_baseContent]
  refine Fields.set_of_absent (fun kv hkv => ?_) _
  have hkey := (List.mem_filter.1 hkv).2
  simpa using hkey

/-- **Contents that are saved alike open alike.** -/
theorem SameNote.opens {content content' : Fields} (h : SameNote content content') :
    (editorDocumentFromContent content).baseContent = (editorDocumentFromContent content').baseContent ∧
      (editorDocumentFromContent content).blocks.map .rebase =
        (editorDocumentFromContent content').blocks.map EditorBlock.rebase := by
  rw [SameNote, saved_nil, saved_nil] at h
  obtain ⟨hbase, hblocks⟩ := List.append_inj' h rfl
  simp only [List.cons.injEq, Prod.mk.injEq, JsValue.array.injEq, true_and, and_true] at hblocks
  rw [open_baseContent, open_baseContent, rebase_open, rebase_open, hblocks]
  exact ⟨hbase, rfl⟩

theorem serialize_map_rebase (blocks : List EditorBlock) :
    (blocks.map .rebase).map serializeBlock = blocks.map serializeBlock := by
  simp [EditorBlock.serialize_rebase]

/-- **They are saved alike whatever is done.** -/
theorem SameNote.saved {content content' : Fields} (h : SameNote content content') (ops : List EditorOp) :
    saved content ops = saved content' ops := by
  obtain ⟨hbase, hblocks⟩ := h.opens
  have hrun := (rebase_foldl (editorDocumentFromContent content).blocks ops).symm.trans
    ((congrArg (fun blocks => (ops.foldl applyOp blocks).map EditorBlock.rebase) hblocks).trans
      (rebase_foldl (editorDocumentFromContent content').blocks ops))
  simp only [MilpbookLM.Web.saved, serializeEditorDocument, EditorDocument.edit]
  rw [hbase, ← serialize_map_rebase, hrun, serialize_map_rebase]

/-- **No signature tells them apart.** -/
theorem SameNote.signature {content content' : Fields} (h : SameNote content content') :
    editorDocumentSignature (editorDocumentFromContent content) =
      editorDocumentSignature (editorDocumentFromContent content') := by
  obtain ⟨hbase, hblocks⟩ := h.opens
  have htrim : ∀ blocks : List EditorBlock, (blocks.map trimBlockText).map serializeBlock =
      ((blocks.map EditorBlock.rebase).map trimBlockText).map serializeBlock := fun blocks => by
    rw [List.map_map, List.map_map, List.map_map]
    refine List.map_congr_left fun block _ => ?_
    simp only [Function.comp_apply]
    rw [← EditorBlock.serialize_rebase (trimBlockText block), ← EditorBlock.rebase_trim, EditorBlock.serialize_rebase]
  simp only [editorDocumentSignature, serializeEditorDocument]
  rw [hbase, htrim, hblocks, ← htrim]

end MilpbookLM.Web
