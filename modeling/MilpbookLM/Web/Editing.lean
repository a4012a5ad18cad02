/-
Notes under the block editor, whatever is done in it. A layout follows what the operations
do to the places of the blocks, and says of each where it comes from and what was written in
it: what is saved is the layout, filled from the content the editor was opened on
(`held_from`). A block that was not written in is saved as it was, and a written one differs
in the fields that were written. One thing is not taken along: the text of a legacy note is
opened as a paragraph and stays in the content beside it (`preserves_iff`).
-/
import Mathlib.Data.List.Count
import Mathlib.Data.List.Forall2
import Mathlib.Data.List.Nodup
import Mathlib.Data.List.Perm.Basic
import Mathlib.Data.Option.Basic
import MilpbookLM.Web.NoteBlocks

namespace MilpbookLM.Web

inductive Direction
  | up | down
  deriving DecidableEq

/-- What the user does in the editor: typing in a field, a key in a list item, a button at a block. -/
inductive EditorOp
  | updateText (block : Nat) (text : JsString)
  | updateHeadingLevel (block : Nat) (level : HeadingLevel)
  | updateListItem (block item : Nat) (text : JsString)
  | enter (block item : Nat)
  | backspace (block item : Nat)
  | removeBlock (block : Nat)
  | moveBlock (block : Nat) (direction : Direction)
  | addBlock (kind : NewBlockKind)

/-- `updateAt`. -/
def updateAt {α : Type} (items : List α) (index : Nat) (next : α) : List α :=
  items.mapIdx fun currentIndex item => if currentIndex = index then next else item

/-- `items.filter((_, index) => index !== at)`. -/
def filterIndex {α : Type} (items : List α) (at' : Nat) : List α := (items.zipIdx.filter (·.2 ≠ at')).map (·.1)

/-- `isListBlock(block) ? block.items : undefined`. -/
def EditorBlock.items? : EditorBlock → Option (List JsString)
  | .orderedList items _ | .unorderedList items _ => some items
  | _ => none

/-- `{ ...block, items }`, of a list. -/
def EditorBlock.withItems (items : List JsString) : EditorBlock → EditorBlock
  | .orderedList _ o => .orderedList items o
  | .unorderedList _ o => .unorderedList items o
  | block => block

/-- `{ ...block, text }`, of a paragraph or a heading. -/
def EditorBlock.withText (text : JsString) : EditorBlock → EditorBlock
  | .paragraph _ o => .paragraph text o
  | .heading level _ o => .heading level text o
  | block => block

/-- `{ ...block, level }`, of a heading. -/
def EditorBlock.withLevel (level : HeadingLevel) : EditorBlock → EditorBlock
  | .heading _ text o => .heading level text o
  | block => block

variable (blocks : List EditorBlock)

def updateText (blockIndex : Nat) (text : JsString) : List EditorBlock :=
  match blocks[blockIndex]? with
  | some block => updateAt blocks blockIndex (block.withText text)
  | none => blocks

def updateHeadingLevel (blockIndex : Nat) (level : HeadingLevel) : List EditorBlock :=
  match blocks[blockIndex]? with
  | some block => updateAt blocks blockIndex (block.withLevel level)
  | none => blocks

def updateListItem (blockIndex itemIndex : Nat) (text : JsString) : List EditorBlock :=
  match blocks[blockIndex]? with
  | none => blocks
  | some block =>
    match block.items? with
    | none => blocks
    | some items =>
      let items := if items[itemIndex]? = none then items ++ [text] else updateAt items itemIndex text
      updateAt blocks blockIndex (block.withItems items)

/-- The value of the field of a list item; an empty list shows one empty field. -/
def fieldValue (items : List JsString) (itemIndex : Nat) : Option JsString :=
  (if items = [] then [[]] else items)[itemIndex]?

def removeBlock (blockIndex : Nat) : List EditorBlock := filterIndex blocks blockIndex

/-- `onListItemKeyDown` with Enter; a splice behind the end is one at the end. -/
def onEnter (blockIndex itemIndex : Nat) : List EditorBlock :=
  match blocks[blockIndex]? with
  | none => blocks
  | some block =>
    match block.items? with
    | none => blocks
    | some items =>
      let items := if items = [] then [[]] else items
      updateAt blocks blockIndex (block.withItems (items.insertIdx (min (itemIndex + 1) items.length) []))

/-- `onListItemKeyDown` with Backspace. -/
def onBackspace (blockIndex itemIndex : Nat) : List EditorBlock :=
  match blocks[blockIndex]? with
  | none => blocks
  | some block =>
    match block.items? with
    | none => blocks
    | some items =>
      if fieldValue items itemIndex ≠ some [] then blocks
      else if items.length ≤ 1 then removeBlock blocks blockIndex
      else updateAt blocks blockIndex (block.withItems (filterIndex items itemIndex))

/-- `moveBlock`. -/
def moveBlock (blockIndex : Nat) (direction : Direction) : List EditorBlock :=
  let destination : Int := match direction with
    | .up => blockIndex - 1
    | .down => blockIndex + 1
  match blocks[blockIndex]? with
  | none => blocks
  | some block =>
    if destination < 0 ∨ (blocks.length : Int) ≤ destination then blocks
    else (blocks.eraseIdx blockIndex).insertIdx destination.toNat block

def addBlock (kind : NewBlockKind) : List EditorBlock := blocks ++ [newEditorBlock kind]

/-- What `onChange` is called with; the blocks themselves where it is not. -/
def applyOp : EditorOp → List EditorBlock
  | .updateText block text => updateText blocks block text
  | .updateHeadingLevel block level => updateHeadingLevel blocks block level
  | .updateListItem block item text => updateListItem blocks block item text
  | .enter block item => onEnter blocks block item
  | .backspace block item => onBackspace blocks block item
  | .removeBlock block => removeBlock blocks block
  | .moveBlock block direction => moveBlock blocks block direction
  | .addBlock kind => addBlock blocks kind

/-- What operations, one after the other, make of a document. -/
def EditorDocument.edit (document : EditorDocument) (ops : List EditorOp) : EditorDocument :=
  { document with blocks := ops.foldl applyOp document.blocks }

/-! ## Fields of a block -/

inductive BlockField
  | text | level | items
  deriving DecidableEq

def BlockField.key : BlockField → JsString
  | .text => js "text"
  | .level => js "level"
  | .items => js "items"

/-- What is saved differs from a value in the written fields at most; it is the value where nothing was written. -/
structure Keeps (edited : List BlockField) (value saved : JsValue) : Prop where
  unwritten : edited = [] → saved = value
  written : edited ≠ [] → ∃ o o' : Fields, value = .object o ∧ saved = .object o' ∧
    ∀ key, (∀ field ∈ edited, key ≠ field.key) → o'.get key = o.get key

/-- A block and what it was when nothing had been written in it. -/
def Differs (edited : List BlockField) : EditorBlock → EditorBlock → Prop
  | .paragraph text o, .paragraph text' o' => o' = o ∧ (.text ∉ edited → text' = text)
  | .heading level text o, .heading level' text' o' =>
    o' = o ∧ (.level ∉ edited → level' = level) ∧ (.text ∉ edited → text' = text)
  | .orderedList items o, .orderedList items' o' | .unorderedList items o, .unorderedList items' o' =>
    o' = o ∧ (.items ∉ edited → items' = items)
  | .preserved content, .preserved content' => content' = content ∧ edited = []
  | _, _ => False

theorem Differs.refl (block : EditorBlock) : Differs [] block block := by
  cases block <;> simp [Differs]

/-- What a block is read from. -/
inductive ReadFrom : EditorBlock → JsValue → Prop
  | paragraph {o : Fields} {text : JsString} (type : o.get (js "type") = some (.string (js "paragraph")))
      (htext : o.get (js "text") = some (.string text)) : ReadFrom (.paragraph text o) (.object o)
  | heading {o : Fields} {level : HeadingLevel} {text : JsString}
      (type : o.get (js "type") = some (.string (js "heading"))) (hlevel : o.get (js "level") = some level.value)
      (htext : o.get (js "text") = some (.string text)) : ReadFrom (.heading level text o) (.object o)
  | orderedList {o : Fields} {items : List JsString}
      (type : o.get (js "type") = some (.string (js "ordered_list")))
      (hitems : o.get (js "items") = some (.array (items.map .string))) : ReadFrom (.orderedList items o) (.object o)
  | unorderedList {o : Fields} {items : List JsString}
      (type : o.get (js "type") = some (.string (js "unordered_list")))
      (hitems : o.get (js "items") = some (.array (items.map .string))) : ReadFrom (.unorderedList items o) (.object o)
  | preserved (value : JsValue) : ReadFrom (.preserved value) value

theorem hasType_iff {block : Fields} {type : String} :
    hasType block type = true ↔ block.get (js "type") = some (.string (js type)) := by
  simp [hasType, Option.bind_eq_some_iff, JsValue.string?_eq_some]

theorem headingLevel?_eq_some {value : JsValue} {level : HeadingLevel} (h : headingLevel? value = some level) :
    value = level.value := by
  cases value with
  | number text =>
    simp only [headingLevel?] at h
    split at h
    · next htwo =>
      cases h
      rw [htwo, HeadingLevel.value]
    · split at h
      · next hthree =>
        cases h
        rw [hthree, HeadingLevel.value]
      · cases h
  | _ => cases h

theorem stringItems_eq_some {value : JsValue} {items : List JsString} (h : stringItems value = some items) :
    value = .array (items.map .string) := by
  cases value with
  | array values =>
    simp only [stringItems] at h
    congr 1
    induction values generalizing items with
    | nil =>
      cases h
      rfl
    | cons value values ih =>
      simp only [List.mapM_cons, Option.bind_eq_bind, Option.bind_eq_some_iff] at h
      obtain ⟨item, hitem, rest, hrest, hitems⟩ := h
      cases hitems
      rw [JsValue.string?_eq_some.1 hitem, ih hrest, List.map_cons]
  | _ => cases h

theorem asParagraph_eq_some {o : Fields} {block : EditorBlock} (h : asParagraph o = some block) :
    ReadFrom block (.object o) := by
  simp only [asParagraph, Option.bind_eq_bind, Option.bind_eq_some_iff, Option.guard_eq_some', hasType_iff,
    Option.pure_def, Option.some.injEq, JsValue.string?_eq_some] at h
  obtain ⟨-, type, text, ⟨value, hvalue, rfl⟩, rfl⟩ := h
  exact .paragraph type hvalue

theorem asHeading_eq_some {o : Fields} {block : EditorBlock} (h : asHeading o = some block) :
    ReadFrom block (.object o) := by
  simp only [asHeading, Option.bind_eq_bind, Option.bind_eq_some_iff, Option.guard_eq_some', hasType_iff,
    Option.pure_def, Option.some.injEq, JsValue.string?_eq_some] at h
  obtain ⟨-, type, level, ⟨value, hvalue, hlevel⟩, text, ⟨value', hvalue', rfl⟩, rfl⟩ := h
  rw [headingLevel?_eq_some hlevel] at hvalue
  exact .heading type hvalue hvalue'

theorem asList_eq_some {type : String} {list : List JsString → Fields → EditorBlock} {o : Fields} {block : EditorBlock}
    (h : asList type list o = some block) :
    ∃ items, block = list items o ∧ o.get (js "type") = some (.string (js type)) ∧
      o.get (js "items") = some (.array (items.map .string)) := by
  simp only [asList, Option.bind_eq_bind, Option.bind_eq_some_iff, Option.guard_eq_some', hasType_iff,
    Option.pure_def, Option.some.injEq] at h
  obtain ⟨-, htype, items, ⟨value, hvalue, hitems⟩, rfl⟩ := h
  rw [stringItems_eq_some hitems] at hvalue
  exact ⟨items, rfl, htype, hvalue⟩

theorem readFrom_parseBlock (value : JsValue) : ReadFrom (parseBlock value) value := by
  cases value with
  | object o =>
    simp only [parseBlock]
    cases hparagraph : asParagraph o with
    | some block => exact asParagraph_eq_some hparagraph
    | none =>
      cases hheading : asHeading o with
      | some block => exact asHeading_eq_some hheading
      | none =>
        cases hordered : asList "ordered_list" .orderedList o with
        | some block =>
          obtain ⟨items, rfl, htype, hitems⟩ := asList_eq_some hordered
          exact .orderedList htype hitems
        | none =>
          cases hunordered : asList "unordered_list" .unorderedList o with
          | some block =>
            obtain ⟨items, rfl, htype, hitems⟩ := asList_eq_some hunordered
            exact .unorderedList htype hitems
          | none => exact .preserved _
  | _ => exact .preserved _

/-- Objects that agree but in the written fields. -/
structure Agrees (edited : List BlockField) (o o' : Fields) : Prop where
  unwritten : edited = [] → o' = o
  others : ∀ key, (∀ field ∈ edited, key ≠ field.key) → o'.get key = o.get key

theorem Agrees.refl (edited : List BlockField) (o : Fields) : Agrees edited o o :=
  ⟨fun _ => rfl, fun _ _ => rfl⟩

theorem Agrees.set {edited : List BlockField} {o o' : Fields} (h : Agrees edited o o') (field : BlockField)
    {value : JsValue} (hvalue : field ∉ edited → o'.get field.key = some value) :
    Agrees edited o (o'.set field.key value) where
  unwritten := by
    intro hnone
    rw [Fields.set_of_get (hvalue (by simp [hnone]))]
    exact h.unwritten hnone
  others := by
    intro key hkey
    by_cases hfield : field ∈ edited
    · rw [Fields.get_set_of_ne (hkey field hfield).symm]
      exact h.others key hkey
    · rw [Fields.set_of_get (hvalue hfield)]
      exact h.others key hkey

theorem Agrees.keeps {edited : List BlockField} {o o' : Fields} (h : Agrees edited o o') :
    Keeps edited (.object o) (.object o') :=
  ⟨fun hnone => by rw [h.unwritten hnone], fun _ => ⟨o, o', rfl, rfl, h.others⟩⟩

/-- **What is saved of a block**, beside what it was read from. -/
theorem ReadFrom.keeps {block block' : EditorBlock} {value : JsValue} {edited : List BlockField}
    (h : ReadFrom block value) (hdiffers : Differs edited block block') :
    Keeps edited value (serializeBlock block') := by
  cases h with
  | @paragraph o text type htext =>
    cases block' <;> simp only [Differs] at hdiffers
    obtain ⟨rfl, hsame⟩ := hdiffers
    rw [serializeBlock, Fields.set_of_get type]
    refine Agrees.keeps ((Agrees.refl ..).set .text fun hout => ?_)
    rw [hsame hout]
    exact htext
  | @heading o level text type hlevel htext =>
    cases block' <;> simp only [Differs] at hdiffers
    obtain ⟨rfl, hlevel', htext'⟩ := hdiffers
    rw [serializeBlock, Fields.set_of_get type]
    refine Agrees.keeps (Agrees.set (Agrees.set (Agrees.refl ..) .level fun hout => ?_) .text fun hout => ?_)
    · rw [hlevel' hout]
      exact hlevel
    · rw [htext' hout, Fields.get_set_of_ne (by decide)]
      exact htext
  | @orderedList o items type hitems =>
    cases block' <;> simp only [Differs] at hdiffers
    obtain ⟨rfl, hsame⟩ := hdiffers
    rw [serializeBlock, Fields.set_of_get type]
    refine Agrees.keeps ((Agrees.refl ..).set .items fun hout => ?_)
    rw [hsame hout]
    exact hitems
  | @unorderedList o items type hitems =>
    cases block' <;> simp only [Differs] at hdiffers
    obtain ⟨rfl, hsame⟩ := hdiffers
    rw [serializeBlock, Fields.set_of_get type]
    refine Agrees.keeps ((Agrees.refl ..).set .items fun hout => ?_)
    rw [hsame hout]
    exact hitems
  | preserved =>
    cases block' <;> simp only [Differs] at hdiffers
    obtain ⟨rfl, rfl⟩ := hdiffers
    exact ⟨fun _ => rfl, fun hne => absurd rfl hne⟩

/-! ## Layouts -/

/-- Where a block comes from: from the blocks of the content, from its text, or from the user. -/
inductive Origin
  | original (index : Nat)
  | legacy
  | added
  deriving DecidableEq

/-- The place of a block: the fields that were written in it, and the text written last. -/
structure Slot where
  origin : Origin
  edited : List BlockField := []
  text : Option JsString := none

/-- The places of a note under the editor, in order, and the blocks that are gone. -/
structure Layout where
  slots : List Slot
  deleted : List Origin := []

/-- What an operation does to the places. -/
inductive Effect
  | none
  | write (position : Nat) (field : BlockField) (text : Option JsString)
  | remove (position : Nat)
  /-- The block at the position and the one behind it change places. -/
  | exchange (position : Nat)
  | append

/-- The element at a position and the one behind it change places. -/
def exchangeAt {α : Type} : Nat → List α → List α
  | 0, a :: b :: l => b :: a :: l
  | n + 1, a :: l => a :: exchangeAt n l
  | _, l => l

def Effect.apply (layout : Layout) : Effect → Layout
  | .none => layout
  | .write position field text => { layout with
      slots := layout.slots.modify position fun slot => { slot with
        edited := field :: slot.edited
        text := text <|> slot.text } }
  | .remove position => {
      slots := layout.slots.eraseIdx position
      deleted := layout.deleted ++ (layout.slots[position]?.map (·.origin)).toList }
  | .exchange position => { layout with slots := exchangeAt position layout.slots }
  | .append => { layout with slots := layout.slots ++ [⟨.added, [], Option.none⟩] }

/-- What an operation comes to on these blocks: a field is written where the block has it, and a list goes with its
last item. -/
def EditorOp.effect (blocks : List EditorBlock) : EditorOp → Effect
  | .updateText block text =>
    match blocks[block]? with
    | some (.paragraph ..) | some (.heading ..) => .write block .text text
    | _ => .none
  | .updateHeadingLevel block _ =>
    match blocks[block]? with
    | some (.heading ..) => .write block .level none
    | _ => .none
  | .updateListItem block _ _ | .enter block _ =>
    match blocks[block]?.bind EditorBlock.items? with
    | some _ => .write block .items none
    | _ => .none
  | .backspace block item =>
    match blocks[block]?.bind EditorBlock.items? with
    | some items =>
      if fieldValue items item ≠ some [] then .none
      else if items.length ≤ 1 then .remove block
      else .write block .items none
    | _ => .none
  | .removeBlock block => .remove block
  | .moveBlock 0 .up => .none
  | .moveBlock (block + 1) .up => .exchange block
  | .moveBlock block .down => .exchange block
  | .addBlock _ => .append

/-- The layout after operations on these blocks. -/
def layoutFrom : List EditorBlock → Layout → List EditorOp → Layout
  | _, layout, [] => layout
  | blocks, layout, op :: ops => layoutFrom (applyOp blocks op) ((op.effect blocks).apply layout) ops

/-- The blocks of a content, none where it has no array of them. -/
def blocksOf (content : Fields) : Option (List JsValue) :=
  match content.get (js "blocks") with
  | some (.array blocks) => some blocks
  | _ => none

/-- The text of a content without blocks. -/
def legacyText (content : Fields) : Option JsString :=
  match blocksOf content with
  | some _ => none
  | none => (content.get (js "text")).bind JsValue.string?

/-- The layout that a content is opened with. -/
def openLayout (content : Fields) : Layout where
  slots := match blocksOf content with
    | some blocks => (List.range blocks.length).map fun index => ⟨.original index, [], none⟩
    | none => [⟨if (legacyText content).isSome then .legacy else .added, [], none⟩]

def layout (content : Fields) (ops : List EditorOp) : Layout :=
  layoutFrom (editorDocumentFromContent content).blocks (openLayout content) ops

/-- What is saved after the operations. -/
def saved (content : Fields) (ops : List EditorOp) : Fields :=
  serializeEditorDocument ((editorDocumentFromContent content).edit ops)

/-! ## One operation -/

theorem updateAt_eq {α : Type} (items : List α) (index : Nat) (next : α) :
    updateAt items index next = items.set index next := by
  refine List.ext_getElem? fun i => ?_
  simp only [updateAt, List.getElem?_mapIdx, List.getElem?_set]
  by_cases hi : i = index
  · subst hi
    cases hget : items[i]? with
    | none => simp [List.getElem?_eq_none_iff.1 hget]
    | some item => simp [(List.getElem?_eq_some_iff.1 hget).1]
  · cases items[i]? <;> simp [hi, Ne.symm hi]

theorem filterIndex_eq {α : Type} (items : List α) (index : Nat) : filterIndex items index = items.eraseIdx index := by
  have hfrom : ∀ (items : List α) (start index : Nat),
      ((items.zipIdx start).filter (·.2 ≠ start + index)).map (·.1) = items.eraseIdx index := by
    intro items
    induction items with
    | nil => simp
    | cons item items ih =>
      intro start index
      rw [List.zipIdx_cons]
      cases index with
      | zero =>
        have hall : (items.zipIdx (start + 1)).filter (·.2 ≠ start) = items.zipIdx (start + 1) := by
          refine List.filter_eq_self.2 fun x hx => decide_eq_true fun he => ?_
          have := List.le_snd_of_mem_zipIdx hx
          omega
        simp only [Nat.add_zero]
        rw [List.filter_cons_of_neg (by simp), hall]
        simp
      | succ index =>
        rw [List.filter_cons_of_pos (by simp), List.map_cons, List.eraseIdx_cons_succ, ← ih (start + 1) index]
        rw [Nat.add_right_comm, Nat.add_assoc]
  have hzero := hfrom items 0 index
  rwa [Nat.zero_add] at hzero

theorem exchangeAt_of_le {α : Type} {index : Nat} {l : List α} (h : l.length ≤ index + 1) : exchangeAt index l = l := by
  induction index generalizing l with
  | zero =>
    match l with
    | [] | [_] => rfl
    | _ :: _ :: _ => simp at h
  | succ index ih =>
    cases l with
    | nil => rfl
    | cons a l => rw [exchangeAt, ih (by simpa using h)]

/-- Moving a block up is one exchange. -/
theorem insertIdx_eraseIdx_succ {α : Type} {index : Nat} {l : List α} {a : α} (h : l[index + 1]? = some a) :
    (l.eraseIdx (index + 1)).insertIdx index a = exchangeAt index l := by
  induction index generalizing l with
  | zero =>
    match l with
    | [] | [_] => simp at h
    | b :: c :: l =>
      cases h
      rfl
  | succ index ih =>
    cases l with
    | nil => simp at h
    | cons b l => rw [List.eraseIdx_cons_succ, List.insertIdx_succ_cons, ih (by simpa using h), exchangeAt]

/-- Moving a block down is one exchange. -/
theorem insertIdx_succ_eraseIdx {α : Type} {index : Nat} {l : List α} {a : α} (h : l[index]? = some a)
    (hlength : index + 1 < l.length) : (l.eraseIdx index).insertIdx (index + 1) a = exchangeAt index l := by
  induction index generalizing l with
  | zero =>
    match l with
    | [] | [_] => simp at hlength
    | b :: c :: l =>
      cases h
      rfl
  | succ index ih =>
    cases l with
    | nil => simp at h
    | cons b l =>
      rw [List.eraseIdx_cons_succ, List.insertIdx_succ_cons, ih (by simpa using h) (by simpa using hlength), exchangeAt]

/-- A block with another value in a field it has. -/
inductive Writes : BlockField → Option JsString → EditorBlock → EditorBlock → Prop
  | paragraph (old text : JsString) (o : Fields) : Writes .text (some text) (.paragraph old o) (.paragraph text o)
  | heading (level : HeadingLevel) (old text : JsString) (o : Fields) :
      Writes .text (some text) (.heading level old o) (.heading level text o)
  | level (old level : HeadingLevel) (text : JsString) (o : Fields) :
      Writes .level none (.heading old text o) (.heading level text o)
  | orderedList (old items : List JsString) (o : Fields) :
      Writes .items none (.orderedList old o) (.orderedList items o)
  | unorderedList (old items : List JsString) (o : Fields) :
      Writes .items none (.unorderedList old o) (.unorderedList items o)

/-- What becomes of the blocks by an effect. -/
inductive Does (blocks : List EditorBlock) : Effect → List EditorBlock → Prop
  | none : Does blocks .none blocks
  | write {position : Nat} {field : BlockField} {text : Option JsString} {block block' : EditorBlock}
      (hget : blocks[position]? = some block) (h : Writes field text block block') :
      Does blocks (.write position field text) (blocks.set position block')
  | remove (position : Nat) : Does blocks (.remove position) (blocks.eraseIdx position)
  | exchange (position : Nat) : Does blocks (.exchange position) (exchangeAt position blocks)
  | append (block : EditorBlock) : Does blocks .append (blocks ++ [block])

theorem writes_items {block : EditorBlock} {items : List JsString} (h : block.items? = some items)
    (items' : List JsString) : Writes .items none block (block.withItems items') := by
  cases block with
  | orderedList old o => exact .orderedList old items' o
  | unorderedList old o => exact .unorderedList old items' o
  | _ => cases h

/-- A write of what is there already does nothing. -/
theorem set_of_getElem? {α : Type} {l : List α} {index : Nat} {a : α} (h : l[index]? = some a) : l.set index a = l := by
  obtain ⟨hlt, rfl⟩ := List.getElem?_eq_some_iff.1 h
  exact List.set_getElem_self hlt

theorem does_moveUp (blocks : List EditorBlock) (index : Nat) :
    Does blocks ((EditorOp.moveBlock index .up).effect blocks) (moveBlock blocks index .up) := by
  cases index with
  | zero =>
    have hsame : moveBlock blocks 0 .up = blocks := by cases blocks <;> rfl
    rw [hsame]
    exact .none
  | succ index =>
    have hdoes := @Does.exchange blocks index
    cases hget : blocks[index + 1]? with
    | none =>
      rw [exchangeAt_of_le (List.getElem?_eq_none_iff.1 hget)] at hdoes
      simp only [moveBlock, hget]
      exact hdoes
    | some block =>
      have hlength := (List.getElem?_eq_some_iff.1 hget).1
      rw [← insertIdx_eraseIdx_succ hget] at hdoes
      simp only [moveBlock, hget]
      rw [if_neg (by omega), show ((index + 1 : Nat) - 1 : Int).toNat = index by omega]
      exact hdoes

theorem does_moveDown (blocks : List EditorBlock) (index : Nat) :
    Does blocks ((EditorOp.moveBlock index .down).effect blocks) (moveBlock blocks index .down) := by
  have hdoes := @Does.exchange blocks index
  have heffect : (EditorOp.moveBlock index .down).effect blocks = .exchange index := by cases index <;> rfl
  rw [heffect]
  cases hget : blocks[index]? with
  | none =>
    rw [exchangeAt_of_le (Nat.le_succ_of_le (List.getElem?_eq_none_iff.1 hget))] at hdoes
    simp only [moveBlock, hget]
    exact hdoes
  | some block =>
    simp only [moveBlock, hget]
    by_cases hlast : blocks.length ≤ index + 1
    · rw [exchangeAt_of_le hlast] at hdoes
      rwa [if_pos (.inr (by omega))]
    · rw [← insertIdx_succ_eraseIdx hget (by omega)] at hdoes
      rwa [if_neg (by omega), show ((index : Int) + 1).toNat = index + 1 by omega]

/-- **What one operation does.** -/
theorem does_applyOp (blocks : List EditorBlock) (op : EditorOp) :
    Does blocks (op.effect blocks) (applyOp blocks op) := by
  cases op with
  | updateText index text =>
    simp only [EditorOp.effect, applyOp, updateText, updateAt_eq]
    cases hget : blocks[index]? with
    | none => exact .none
    | some block =>
      cases block with
      | paragraph old o => exact .write hget (.paragraph old text o)
      | heading level old o => exact .write hget (.heading level old text o)
      | _ =>
        simp only [EditorBlock.withText, set_of_getElem? hget]
        exact .none
  | updateHeadingLevel index level =>
    simp only [EditorOp.effect, applyOp, updateHeadingLevel, updateAt_eq]
    cases hget : blocks[index]? with
    | none => exact .none
    | some block =>
      cases block with
      | heading old text o => exact .write hget (.level old level text o)
      | _ =>
        simp only [EditorBlock.withLevel, set_of_getElem? hget]
        exact .none
  | updateListItem index item text =>
    simp only [EditorOp.effect, applyOp, updateListItem, updateAt_eq]
    cases hget : blocks[index]? with
    | none => exact .none
    | some block =>
      simp only [Option.bind_some]
      cases hitems : block.items? with
      | none => exact .none
      | some items => exact .write hget (writes_items hitems _)
  | enter index item =>
    simp only [EditorOp.effect, applyOp, onEnter, updateAt_eq]
    cases hget : blocks[index]? with
    | none => exact .none
    | some block =>
      simp only [Option.bind_some]
      cases hitems : block.items? with
      | none => exact .none
      | some items => exact .write hget (writes_items hitems _)
  | backspace index item =>
    simp only [EditorOp.effect, applyOp, onBackspace, removeBlock, filterIndex_eq blocks, updateAt_eq]
    cases hget : blocks[index]? with
    | none => exact .none
    | some block =>
      simp only [Option.bind_some]
      cases hitems : block.items? with
      | none => exact .none
      | some items =>
        simp only
        split
        · exact .none
        · split
          · exact .remove index
          · exact .write hget (writes_items hitems _)
  | removeBlock index =>
    simp only [applyOp, removeBlock, filterIndex_eq]
    exact .remove index
  | moveBlock index direction =>
    cases direction with
    | up => exact does_moveUp blocks index
    | down => exact does_moveDown blocks index
  | addBlock kind => exact .append _

/-! ## Runs -/

/-- The block of a place is what the layout says. -/
def Held (content : Fields) (slot : Slot) (block : EditorBlock) : Prop :=
  match slot.origin with
  | .original index => ∃ value base, (blocksOf content).bind (·[index]?) = some value ∧ ReadFrom base value ∧
      Differs slot.edited base block
  | .legacy => ∃ text, legacyText content = some text ∧ block = .paragraph (slot.text.getD text) []
  | .added => True

theorem Differs.write {edited : List BlockField} {base block block' : EditorBlock} {field : BlockField}
    {text : Option JsString} (h : Differs edited base block) (hwrites : Writes field text block block') :
    Differs (field :: edited) base block' := by
  cases hwrites <;> cases base <;> simp only [Differs] at h ⊢ <;> simp_all

theorem Held.write {content : Fields} {slot : Slot} {block block' : EditorBlock} {field : BlockField}
    {text : Option JsString} (h : Held content slot block) (hwrites : Writes field text block block') :
    Held content { slot with edited := field :: slot.edited, text := text <|> slot.text } block' := by
  obtain ⟨origin, edited, last⟩ := slot
  cases origin with
  | original index =>
    obtain ⟨value, base, hvalue, hread, hdiffers⟩ := h
    exact ⟨value, base, hvalue, hread, hdiffers.write hwrites⟩
  | legacy =>
    obtain ⟨old, hold, rfl⟩ := h
    cases hwrites
    exact ⟨old, hold, rfl⟩
  | added => trivial

section Pointwise

variable {α β : Type} {R : α → β → Prop} {l : List α} {l' : List β}

theorem forall₂_modify_set {index : Nat} {b b' : β} {f : α → α} (h : List.Forall₂ R l l') (hget : l'[index]? = some b)
    (hf : ∀ a, R a b → R (f a) b') : List.Forall₂ R (l.modify index f) (l'.set index b') := by
  induction h generalizing index with
  | nil => simp at hget
  | cons hab _ ih =>
    cases index with
    | zero =>
      cases hget
      exact .cons (hf _ hab) ‹_›
    | succ index => exact .cons hab (ih (by simpa using hget))

theorem forall₂_eraseIdx (h : List.Forall₂ R l l') (index : Nat) :
    List.Forall₂ R (l.eraseIdx index) (l'.eraseIdx index) := by
  induction h generalizing index with
  | nil => simp
  | cons hab htail ih =>
    cases index with
    | zero => exact htail
    | succ index => exact .cons hab (ih index)

theorem forall₂_exchangeAt (h : List.Forall₂ R l l') (index : Nat) :
    List.Forall₂ R (exchangeAt index l) (exchangeAt index l') := by
  induction index generalizing l l' with
  | zero =>
    cases h with
    | nil => exact .nil
    | cons hab htail =>
      cases htail with
      | nil => exact .cons hab .nil
      | cons hcd htail => exact .cons hcd (.cons hab htail)
  | succ index ih =>
    cases h with
    | nil => exact .nil
    | cons hab htail => exact .cons hab (ih htail)

end Pointwise

/-- One operation, on a layout of the blocks. -/
theorem held_step {content : Fields} {blocks blocks' : List EditorBlock} {layout : Layout} {effect : Effect}
    (h : List.Forall₂ (Held content) layout.slots blocks) (hdoes : Does blocks effect blocks') :
    List.Forall₂ (Held content) (effect.apply layout).slots blocks' := by
  cases hdoes with
  | none => exact h
  | write hget hwrites => exact forall₂_modify_set h hget fun slot hheld => hheld.write hwrites
  | remove position => exact forall₂_eraseIdx h position
  | exchange position => exact forall₂_exchangeAt h position
  | append block => exact List.rel_append h (.cons trivial .nil)

theorem held_from {content : Fields} {blocks : List EditorBlock} {layout : Layout}
    (h : List.Forall₂ (Held content) layout.slots blocks) (ops : List EditorOp) :
    List.Forall₂ (Held content) (layoutFrom blocks layout ops).slots (ops.foldl applyOp blocks) := by
  induction ops generalizing blocks layout with
  | nil => exact h
  | cons op ops ih => exact ih (held_step h (does_applyOp blocks op))

theorem open_baseContent (content : Fields) :
    (editorDocumentFromContent content).baseContent = content.without (js "blocks") := by
  simp only [editorDocumentFromContent]
  split <;> rfl

theorem open_blocks {content : Fields} {values : List JsValue} (h : blocksOf content = some values) :
    (editorDocumentFromContent content).blocks = values.map parseBlock := by
  simp only [blocksOf] at h
  split at h
  · next hget =>
    cases h
    simp only [editorDocumentFromContent, hget]
  · cases h

theorem open_legacy {content : Fields} (h : blocksOf content = none) :
    (editorDocumentFromContent content).blocks =
      [newParagraphBlock (((content.get (js "text")).bind JsValue.string?).getD [])] := by
  simp only [editorDocumentFromContent]
  split
  · next hget =>
    rw [blocksOf, hget] at h
    cases h
  · rfl

theorem forall₂_range {content : Fields} {values : List JsValue} (h : blocksOf content = some values) :
    List.Forall₂ (Held content) ((List.range values.length).map fun index => ⟨.original index, [], none⟩)
      (values.map parseBlock) := by
  refine List.forall₂_iff_get.2 ⟨by simp, fun index hindex _ => ?_⟩
  have hlt : index < values.length := by simpa using hindex
  simp only [List.get_eq_getElem, List.getElem_map, List.getElem_range]
  exact ⟨values[index], _, by simp [h, hlt], readFrom_parseBlock _, Differs.refl _⟩

theorem held_open (content : Fields) :
    List.Forall₂ (Held content) (openLayout content).slots (editorDocumentFromContent content).blocks := by
  cases hblocks : blocksOf content with
  | some values =>
    rw [open_blocks hblocks]
    simp only [openLayout, hblocks]
    exact forall₂_range hblocks
  | none =>
    rw [open_legacy hblocks]
    simp only [openLayout, hblocks]
    refine .cons ?_ .nil
    cases htext : legacyText content with
    | none => trivial
    | some text =>
      refine ⟨text, htext, ?_⟩
      rw [legacyText, hblocks] at htext
      simp only at htext
      rw [htext]
      rfl

/-! ## Every block is somewhere -/

/-- The blocks that are there and those that are gone. -/
def Layout.places (layout : Layout) : List Origin := layout.slots.map (·.origin) ++ layout.deleted

theorem exchangeAt_perm {α : Type} (index : Nat) (l : List α) : (exchangeAt index l).Perm l := by
  induction index generalizing l with
  | zero =>
    match l with
    | [] | [_] => exact .refl _
    | a :: b :: l => exact .swap ..
  | succ index ih =>
    cases l with
    | nil => exact .refl _
    | cons a l => exact (ih l).cons a

theorem eraseIdx_perm {α : Type} (l : List α) (index : Nat) : (l.eraseIdx index ++ l[index]?.toList).Perm l := by
  by_cases h : index < l.length
  · rw [List.getElem?_eq_getElem h]
    exact List.perm_append_comm.trans (List.getElem_cons_eraseIdx_perm h)
  · rw [List.getElem?_eq_none (by omega), List.eraseIdx_of_length_le (by omega), Option.toList_none, List.append_nil]

theorem map_modify_origin {f : Slot → Slot} (hf : ∀ slot, (f slot).origin = slot.origin) (slots : List Slot)
    (position : Nat) : (slots.modify position f).map (·.origin) = slots.map (·.origin) := by
  induction slots generalizing position with
  | nil => simp
  | cons slot slots ih => cases position <;> simp [hf, ih]

/-- No operation loses a block or has it twice. -/
theorem count_places {layout : Layout} (effect : Effect) {origin : Origin} (h : origin ≠ .added) :
    (effect.apply layout).places.count origin = layout.places.count origin := by
  cases effect with
  | none => rfl
  | write position field text =>
    have horigins : ((Effect.write position field text).apply layout).slots.map (·.origin) =
        layout.slots.map (·.origin) := by
      refine map_modify_origin ?_ layout.slots position
      exact fun _ => rfl
    rw [Layout.places, horigins]
    rfl
  | remove position =>
    have hperm := ((eraseIdx_perm layout.slots position).map (·.origin)).append_right layout.deleted
    refine List.Perm.count_eq (List.Perm.trans ?_ hperm) _
    rw [List.map_append, List.append_assoc, ← Option.toList_map]
    exact (List.perm_append_comm).append_left _
  | exchange position => exact (((exchangeAt_perm position layout.slots).map _).append_right _).count_eq _
  | append => simp [Layout.places, Effect.apply, h.symm]

theorem count_layoutFrom {blocks : List EditorBlock} {layout : Layout} (ops : List EditorOp) {origin : Origin}
    (h : origin ≠ .added) : (layoutFrom blocks layout ops).places.count origin = layout.places.count origin := by
  induction ops generalizing blocks layout with
  | nil => rfl
  | cons op ops ih => rw [layoutFrom, ih, count_places _ h]

/-! ## What is promised -/

/-- What is saved at a place. -/
def SavedAs (content : Fields) (slot : Slot) (value : JsValue) : Prop :=
  match slot.origin with
  | .original index => ∃ original, (blocksOf content).bind (·[index]?) = some original ∧
      Keeps slot.edited original value
  | .legacy => ∃ text, legacyText content = some text ∧
      value = .object [(js "type", .string (js "paragraph")), (js "text", .string (slot.text.getD text))]
  | .added => True

/-- The text of a legacy note is gone from its paragraph, or the paragraph itself. -/
def Replaced (content : Fields) (ops : List EditorOp) (text : JsString) : Prop :=
  ∀ slot ∈ (layout content ops).slots, slot.origin = .legacy → ∃ text', slot.text = some text' ∧ text' ≠ text

/-- What is promised of editing a note. -/
structure Preserves (content : Fields) (ops : List EditorOp) : Prop where
  untouched : ops = [] → blocksOf content ≠ none → ∀ key, (saved content ops).get key = content.get key
  fields : ∀ key, key ≠ js "blocks" → (key = js "text" → legacyText content = none) →
    (saved content ops).get key = content.get key
  blocks : ∃ values, (saved content ops).get (js "blocks") = some (.array values) ∧
    List.Forall₂ (SavedAs content) (layout content ops).slots values
  once : ∀ values, blocksOf content = some values → ∀ index < values.length,
    (layout content ops).places.count (.original index) = 1
  legacy : ∀ text, legacyText content = some text → Replaced content ops text →
    (saved content ops).get (js "text") ≠ some (.string text)

theorem Held.saved {content : Fields} {slot : Slot} {block : EditorBlock} (h : Held content slot block) :
    SavedAs content slot (serializeBlock block) := by
  obtain ⟨origin, edited, last⟩ := slot
  cases origin with
  | original index =>
    obtain ⟨value, base, hvalue, hread, hdiffers⟩ := h
    exact ⟨value, hvalue, hread.keeps hdiffers⟩
  | legacy =>
    obtain ⟨text, htext, rfl⟩ := h
    exact ⟨text, htext, rfl⟩
  | added => trivial

theorem get_saved_blocks (content : Fields) (ops : List EditorOp) : (saved content ops).get (js "blocks") =
    some (.array ((ops.foldl applyOp (editorDocumentFromContent content).blocks).map serializeBlock)) := by
  rw [saved, serializeEditorDocument, Fields.get_set_self, EditorDocument.edit]

theorem get_saved {content : Fields} {key : JsString} (h : key ≠ js "blocks") (ops : List EditorOp) :
    (saved content ops).get key = content.get key := by
  rw [saved, serializeEditorDocument, Fields.get_set_of_ne h.symm, EditorDocument.edit, open_baseContent,
    Fields.get_without_of_ne h]

theorem serializeBlock_parseBlock (value : JsValue) : serializeBlock (parseBlock value) = value :=
  ((readFrom_parseBlock value).keeps (Differs.refl _)).unwritten rfl

/-- **Saving what was opened gives the content back.** -/
theorem save_open {content : Fields} (h : blocksOf content ≠ none) (key : JsString) :
    (saved content []).get key = content.get key := by
  by_cases hkey : key = js "blocks"
  · obtain ⟨values, hvalues⟩ := Option.ne_none_iff_exists'.1 h
    rw [hkey, get_saved_blocks, List.foldl_nil, open_blocks hvalues, List.map_map]
    have hid : serializeBlock ∘ parseBlock = id := funext serializeBlock_parseBlock
    rw [hid, List.map_id]
    simp only [blocksOf] at hvalues
    split at hvalues
    · next hget =>
      cases hvalues
      exact hget.symm
    · cases hvalues
  · exact get_saved hkey []

theorem legacyText_eq_some {content : Fields} {text : JsString} (h : legacyText content = some text) :
    content.get (js "text") = some (.string text) := by
  simp only [legacyText] at h
  split at h
  · cases h
  · obtain ⟨value, hvalue, hs⟩ := Option.bind_eq_some_iff.1 h
    rw [hvalue, JsValue.string?_eq_some.1 hs]

theorem count_openLayout {content : Fields} {values : List JsValue} (h : blocksOf content = some values) {index : Nat}
    (hindex : index < values.length) : (openLayout content).places.count (.original index) = 1 := by
  have hplaces : (openLayout content).places = (List.range values.length).map Origin.original := by
    simp [Layout.places, openLayout, h, Function.comp_def]
  rw [hplaces, List.count_map_of_injective _ _ fun _ _ he => Origin.original.inj he]
  exact List.count_eq_one_of_mem List.nodup_range (List.mem_range.2 hindex)

/-- **Editing keeps its promise** exactly where no legacy text is replaced or removed: a legacy text is opened as a
paragraph, and stays in the content as well. -/
theorem preserves_iff (content : Fields) (ops : List EditorOp) :
    Preserves content ops ↔ ∀ text, legacyText content = some text → ¬ Replaced content ops text := by
  constructor
  · intro h text htext hreplaced
    refine h.legacy text htext hreplaced ?_
    rw [get_saved (by decide)]
    exact legacyText_eq_some htext
  · intro h
    refine {
      untouched := ?_
      fields := fun key hkey _ => get_saved hkey ops
      blocks := ⟨_, get_saved_blocks content ops, ?_⟩
      once := fun values hvalues index hindex => ?_
      legacy := fun text htext hreplaced => absurd hreplaced (h text htext) }
    · intro hops hblocks key
      rw [hops]
      exact save_open hblocks key
    · refine List.forall₂_map_right_iff.2 ?_
      exact (held_from (held_open content) ops).imp fun _ _ hheld => hheld.saved
    · rw [layout, count_layoutFrom ops (by simp), count_openLayout hvalues hindex]

/-- **A legacy text that is replaced** stays in the content. -/
theorem legacy_text_stays :
    saved [(js "text", .string (js "old"))] [.updateText 0 (js "new")] =
        [(js "text", .string (js "old")),
          (js "blocks", .array [.object [(js "type", .string (js "paragraph")), (js "text", .string (js "new"))]])] ∧
      ¬ Preserves [(js "text", .string (js "old"))] [.updateText 0 (js "new")] := by
  refine ⟨rfl, fun h => ?_⟩
  refine h.legacy (js "old") rfl (fun slot hslot _ => ?_) rfl
  cases List.mem_singleton.1 hslot
  exact ⟨js "new", rfl, by decide⟩

end MilpbookLM.Web
