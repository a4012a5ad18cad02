/-
JSON text over UTF-16 code units. `write` puts a value down as ASCII, every other code unit as an
escape; `parse` reads with a machine that has a mode for each place in the grammar and a stack of
what is open. What is written is read back (`parse_write`), and no proper prefix of the text of
an object or an array is JSON (`parse_cut`).
-/
import Mathlib.Data.List.Basic
import Mathlib.Tactic.Common

namespace MilpbookLM.JsonText

abbrev CodeUnit := Fin 0x10000

instance neZero_codeUnits : @NeZero Nat Zero.ofOfNat0 0x10000 := ⟨by decide⟩

abbrev Utf16 := List CodeUnit

/-- The code units of an ASCII text. -/
def units (s : String) : Utf16 := s.toList.map fun c => Fin.ofNat 0x10000 c.toNat

/-! ## Numbers -/

def isDigit (c : CodeUnit) : Bool := 0x30 ≤ c && c ≤ 0x39

def isDigits (text : Utf16) : Bool := text ≠ [] && text.all isDigit

def isExponentMark (c : CodeUnit) : Bool := c = 0x65 || c = 0x45

/-- What a number is made of. -/
def isNumberUnit (c : CodeUnit) : Bool := isDigit c || isExponentMark c || c = 0x2D || c = 0x2B || c = 0x2E

/-- The text without a sign in front. -/
def unsigned (signs text : Utf16) : Utf16 := if text.head?.any (· ∈ signs) then text.tail else text

/-- The text is a number: an integer without leading zeros, a fraction and an exponent. -/
def isNumber (text : Utf16) : Bool :=
  let (mantissa, exponent) := (unsigned [0x2D] text).span (!isExponentMark ·)
  let (int, fraction) := mantissa.span (· ≠ 0x2E)
  text ≠ [] && text.all isNumberUnit && isDigits int && (int.length = 1 || int.head? ≠ some 0x30) &&
    (fraction = [] || isDigits fraction.tail) && (exponent = [] || isDigits (unsigned [0x2B, 0x2D] exponent.tail))

structure NumberText where
  text : Utf16
  valid : isNumber text = true

/-! ## Values -/

/-- A value; a number is its text. -/
inductive JsonValue
  | null
  | bool (b : Bool)
  | number (literal : NumberText)
  | text (units : Utf16)
  | array (items : List JsonValue)
  | object (members : List (Utf16 × JsonValue))

/-- What is written without quotes or brackets. -/
def word? (text : Utf16) : Option JsonValue :=
  if text = units "null" then some .null
  else if text = units "true" then some (.bool true)
  else if text = units "false" then some (.bool false)
  else if h : isNumber text = true then some (.number ⟨text, h⟩)
  else none

/-- What a word is made of. -/
def isWordUnit (c : CodeUnit) : Bool := isNumberUnit c || 0x61 ≤ c && c ≤ 0x7A

/-- The value under a name; of several, the last. -/
def member? (members : List (Utf16 × JsonValue)) (name : Utf16) : Option JsonValue :=
  (members.reverse.find? (·.1 = name)).map (·.2)

/-- A lower-case hex digit. -/
def hexDigit (n : Nat) : CodeUnit := Fin.ofNat 0x10000 (if n < 10 then 0x30 + n else 0x57 + n)

/-- What is escaped, and by what. -/
def shortEscapes : List (CodeUnit × CodeUnit) :=
  [(0x22, 0x22), (0x5C, 0x5C), (0x0A, 0x6E), (0x0D, 0x72), (0x09, 0x74), (0x0C, 0x66), (0x08, 0x62)]

/-- A code unit between quotes. -/
def escapeUnit (u : CodeUnit) : Utf16 :=
  match shortEscapes.find? (·.1 = u) with
  | some short => [0x5C, short.2]
  | none =>
    if 0x20 ≤ u ∧ u ≤ 0x7E then [u]
    else [0x5C, 0x75, hexDigit (u.val / 0x1000), hexDigit (u.val / 0x100 % 0x10), hexDigit (u.val / 0x10 % 0x10),
      hexDigit (u.val % 0x10)]

def quoted (text : Utf16) : Utf16 := 0x22 :: (text.flatMap escapeUnit ++ [0x22])

mutual

/-- A value as ASCII, with a blank after each comma and colon. -/
def write : JsonValue → Utf16
  | .null => units "null"
  | .bool true => units "true"
  | .bool false => units "false"
  | .number literal => literal.text
  | .text text => quoted text
  | .array [] => [0x5B, 0x5D]
  | .array (v :: items) => 0x5B :: (write v ++ writeItems items)
  | .object [] => [0x7B, 0x7D]
  | .object ((name, v) :: members) => 0x7B :: (quoted name ++ (0x3A :: 0x20 :: (write v ++ writeMembers members)))

/-- The items that are left, and the end of the array. -/
def writeItems : List JsonValue → Utf16
  | [] => [0x5D]
  | v :: items => 0x2C :: 0x20 :: (write v ++ writeItems items)

def writeMembers : List (Utf16 × JsonValue) → Utf16
  | [] => [0x7D]
  | (name, v) :: members => 0x2C :: 0x20 :: (quoted name ++ (0x3A :: 0x20 :: (write v ++ writeMembers members)))

end

/-! ## Reading -/

/-- What is open, with what it holds so far. -/
inductive Frame
  | array (items : List JsonValue)
  /-- The name is that of the member that is read. -/
  | object (members : List (Utf16 × JsonValue)) (name : Utf16)

/-- What may come. -/
inductive Mode
  | value
  /-- An item, or the end of the array. -/
  | firstItem
  /-- A name, or the end of the object. -/
  | firstName
  | name
  | colon
  /-- A comma or an end. -/
  | next
  | text (isName : Bool) (read : Utf16)
  | escape (isName : Bool) (read : Utf16)
  | hex (isName : Bool) (read : Utf16) (left code : Nat)
  | word (read : Utf16)
  | done (v : JsonValue)

structure State where
  mode : Mode
  stack : List Frame

def isBlank (c : CodeUnit) : Bool := c = 0x20 || c = 0x09 || c = 0x0A || c = 0x0D

/-- A value is complete. -/
def deliver (v : JsonValue) : List Frame → State
  | [] => ⟨.done v, []⟩
  | .array items :: stack => ⟨.next, .array (items ++ [v]) :: stack⟩
  | .object members name :: stack => ⟨.next, .object (members ++ [(name, v)]) name :: stack⟩

/-- A text is complete. -/
def deliverText (isName : Bool) (read : Utf16) (stack : List Frame) : Option State :=
  if isName then
    match stack with
    | .object members _ :: stack => some ⟨.colon, .object members read :: stack⟩
    | _ => none
  else some (deliver (.text read) stack)

def startValue (c : CodeUnit) (stack : List Frame) : Option State :=
  if c = 0x7B then some ⟨.firstName, .object [] [] :: stack⟩
  else if c = 0x5B then some ⟨.firstItem, .array [] :: stack⟩
  else if c = 0x22 then some ⟨.text false [], stack⟩
  else if isWordUnit c then some ⟨.word [c], stack⟩
  else none

/-- The end of what is open. -/
def close (c : CodeUnit) : List Frame → Option State
  | .array items :: stack => if c = 0x5D then some (deliver (.array items) stack) else none
  | .object members _ :: stack => if c = 0x7D then some (deliver (.object members) stack) else none
  | [] => none

/-- After a value. -/
def afterValue (s : State) (c : CodeUnit) : Option State :=
  if isBlank c then some s
  else match s.stack with
    | [] => none
    | .array items :: stack => if c = 0x2C then some ⟨.value, .array items :: stack⟩ else close c s.stack
    | .object members name :: stack => if c = 0x2C then some ⟨.name, .object members name :: stack⟩ else close c s.stack

/-- The code unit that an escape stands for. -/
def unescape (c : CodeUnit) : Option CodeUnit :=
  if c = 0x2F then some c else (shortEscapes.find? (·.2 = c)).map (·.1)

def hexValue (c : CodeUnit) : Option Nat :=
  if 0x30 ≤ c ∧ c ≤ 0x39 then some (c.val - 0x30)
  else if 0x61 ≤ c ∧ c ≤ 0x66 then some (c.val - 0x57)
  else if 0x41 ≤ c ∧ c ≤ 0x46 then some (c.val - 0x37)
  else none

def step (s : State) (c : CodeUnit) : Option State :=
  match s.mode with
  | .value => if isBlank c then some s else startValue c s.stack
  | .firstItem => if isBlank c then some s else if c = 0x5D then close c s.stack else startValue c s.stack
  | .firstName =>
    if isBlank c then some s else if c = 0x22 then some ⟨.text true [], s.stack⟩ else close c s.stack
  | .name => if isBlank c then some s else if c = 0x22 then some ⟨.text true [], s.stack⟩ else none
  | .colon => if isBlank c then some s else if c = 0x3A then some ⟨.value, s.stack⟩ else none
  | .next | .done _ => afterValue s c
  | .text isName read =>
    if c = 0x22 then deliverText isName read s.stack
    else if c = 0x5C then some ⟨.escape isName read, s.stack⟩
    else if c < 0x20 then none
    else some ⟨.text isName (read ++ [c]), s.stack⟩
  | .escape isName read =>
    if c = 0x75 then some ⟨.hex isName read 4 0, s.stack⟩
    else (unescape c).map fun u => ⟨.text isName (read ++ [u]), s.stack⟩
  | .hex isName read left code =>
    (hexValue c).map fun digit =>
      if left = 1 then ⟨.text isName (read ++ [Fin.ofNat 0x10000 (0x10 * code + digit)]), s.stack⟩
      else ⟨.hex isName read (left - 1) (0x10 * code + digit), s.stack⟩
  | .word read =>
    if isWordUnit c then some ⟨.word (read ++ [c]), s.stack⟩
    else (word? read).bind fun v => afterValue (deliver v s.stack) c

def run (s : State) (text : Utf16) : Option State := text.foldlM step s

/-- The value, where the text may end. -/
def finish : State → Option JsonValue
  | ⟨.done v, []⟩ => some v
  | ⟨.word read, []⟩ => word? read
  | _ => none

/-- `JSON.parse(text)`; none for a `SyntaxError`. -/
def parse (text : Utf16) : Option JsonValue := (run ⟨.value, []⟩ text).bind finish

/-! ## What is written is read back -/

@[simp] theorem run_nil (s : State) : run s [] = some s := rfl

theorem run_append (s : State) (x y : Utf16) : run s (x ++ y) = (run s x).bind fun s' => run s' y := by
  simp [run, List.foldlM_append]

theorem run_cons (s : State) (c : CodeUnit) (text : Utf16) :
    run s (c :: text) = (step s c).bind fun s' => run s' text := rfl

theorem run_step {s s' : State} {c : CodeUnit} (h : step s c = some s') (text : Utf16) :
    run s (c :: text) = run s' text := by
  rw [run_cons, h, Option.bind_some]

theorem run_through {s s' : State} {x : Utf16} (h : run s x = some s') (y : Utf16) :
    run s (x ++ y) = run s' y := by
  rw [run_append, h, Option.bind_some]

/-- Neither a control character nor outside ASCII. -/
def Printable (c : CodeUnit) : Prop := 0x20 ≤ c ∧ c ≤ 0x7E

theorem shortEscapes_spec :
    ∀ short ∈ shortEscapes, short.2 ≠ 0x75 ∧ unescape short.2 = some short.1 ∧ Printable short.2 := by
  simp only [shortEscapes, List.forall_mem_cons, List.not_mem_nil, false_imp_iff, implies_true, and_true, Printable]
  decide

theorem hexValue_hexDigit : ∀ n < 16, hexValue (hexDigit n) = some n := by decide

section Texts

variable (isName : Bool) (read : Utf16) (stack : List Frame)

theorem step_hexDigit {left digit : Nat} (code : Nat) (h : digit < 16) :
    step ⟨.hex isName read (left + 2) code, stack⟩ (hexDigit digit) =
      some ⟨.hex isName read (left + 1) (0x10 * code + digit), stack⟩ := by
  simp [step, hexValue_hexDigit digit h]

theorem step_lastDigit {digit : Nat} (code : Nat) (h : digit < 16) :
    step ⟨.hex isName read 1 code, stack⟩ (hexDigit digit) =
      some ⟨.text isName (read ++ [Fin.ofNat 0x10000 (0x10 * code + digit)]), stack⟩ := by
  simp [step, hexValue_hexDigit digit h]

/-- The four digits of a code unit. -/
theorem run_digits (u : CodeUnit) :
    run ⟨.hex isName read 4 0, stack⟩ [hexDigit (u.val / 0x1000), hexDigit (u.val / 0x100 % 0x10),
      hexDigit (u.val / 0x10 % 0x10), hexDigit (u.val % 0x10)] = some ⟨.text isName (read ++ [u]), stack⟩ := by
  have hu := u.isLt
  rw [run_step (step_hexDigit isName read stack 0 (by omega)), run_step (step_hexDigit isName read stack _ (by omega)),
    run_step (step_hexDigit isName read stack _ (by omega)), run_step (step_lastDigit isName read stack _ (by omega))]
  have hcode : Fin.ofNat 0x10000 (0x10 * (0x10 * (0x10 * (0x10 * 0 + u.val / 0x1000) + u.val / 0x100 % 0x10) +
      u.val / 0x10 % 0x10) + u.val % 0x10) = u := by
    apply Fin.ext
    simp only [Fin.ofNat]
    omega
  rw [hcode, run_nil]

/-- A code unit that is not escaped. -/
theorem step_plain {u : CodeUnit} (hquote : ¬(u = 0x22 ∨ u = 0x5C)) (h : 0x20 ≤ u) :
    step ⟨.text isName read, stack⟩ u = some ⟨.text isName (read ++ [u]), stack⟩ := by
  rw [not_or] at hquote
  simp [step, hquote.1, hquote.2, Fin.not_lt.2 h]

theorem run_escapeUnit (u : CodeUnit) :
    run ⟨.text isName read, stack⟩ (escapeUnit u) = some ⟨.text isName (read ++ [u]), stack⟩ := by
  unfold escapeUnit
  split
  · next short h =>
    obtain rfl : short.1 = u := by simpa using List.find?_some h
    obtain ⟨hne, hback, -⟩ := shortEscapes_spec short (List.mem_of_find?_eq_some h)
    have hslash : step ⟨.text isName read, stack⟩ 0x5C = some ⟨.escape isName read, stack⟩ := rfl
    have hlast : step ⟨.escape isName read, stack⟩ short.2 = some ⟨.text isName (read ++ [short.1]), stack⟩ := by
      simp only [step, if_neg hne, hback, Option.map_some]
    rw [run_step hslash, run_step hlast, run_nil]
  next hshort =>
  split
  · next h =>
    have hquote : ¬(u = 0x22 ∨ u = 0x5C) := by
      rintro (rfl | rfl) <;> exact absurd hshort (by decide)
    rw [run_step (step_plain isName read stack hquote h.1), run_nil]
  · exact run_digits isName read stack u

theorem run_text (text : Utf16) :
    run ⟨.text isName read, stack⟩ (text.flatMap escapeUnit) = some ⟨.text isName (read ++ text), stack⟩ := by
  induction text generalizing read with
  | nil => simp
  | cons u text ih =>
    rw [List.flatMap_cons, run_through (run_escapeUnit isName read stack u), ih, List.append_assoc,
      List.singleton_append]

end Texts

/-- A value is read, or it is a word that the next code unit will end. -/
def Settled (v : JsonValue) (stack : List Frame) (s : State) : Prop :=
  s = deliver v stack ∨ ∃ read, word? read = some v ∧ s = ⟨.word read, stack⟩

/-- A comma, or the end of an array or an object. -/
def isDelimiter (c : CodeUnit) : Prop := c = 0x2C ∨ c = 0x5D ∨ c = 0x7D

theorem delimiter_ends {c : CodeUnit} (h : isDelimiter c) : isWordUnit c = false := by
  rcases h with rfl | rfl | rfl <;> rfl

theorem step_deliver (v : JsonValue) (stack : List Frame) (c : CodeUnit) :
    step (deliver v stack) c = afterValue (deliver v stack) c := by
  rcases stack with _ | ⟨_ | _, stack⟩ <;> rfl

/-- After a value a comma or an end is taken as one. -/
theorem Settled.step {v : JsonValue} {stack : List Frame} {s : State} (h : Settled v stack s) {c : CodeUnit}
    (hc : isDelimiter c) : step s c = afterValue (deliver v stack) c := by
  rcases h with rfl | ⟨read, hread, rfl⟩
  · exact step_deliver v stack c
  · simp only [JsonText.step, delimiter_ends hc, Bool.false_eq_true, if_false, hread, Option.bind_some]

/-! ### Values -/

/-- A text of a word. -/
def IsWord (text : Utf16) : Prop := text ≠ [] ∧ text.all isWordUnit = true

theorem NumberText.isWord (literal : NumberText) : IsWord literal.text := by
  have hvalid := literal.valid
  simp only [isNumber, Bool.and_eq_true, decide_eq_true_eq] at hvalid
  refine ⟨hvalid.1.1.1.1.1, List.all_eq_true.2 fun c hc => ?_⟩
  rw [isWordUnit, List.all_eq_true.1 hvalid.1.1.1.1.2 c hc, Bool.true_or]

theorem NumberText.word (literal : NumberText) : word? literal.text = some (.number literal) := by
  have hne : ∀ text, isNumber text = false → literal.text ≠ text := by
    rintro text h rfl
    rw [literal.valid] at h
    cases h
  rw [word?, if_neg (hne _ (by decide)), if_neg (hne _ (by decide)), if_neg (hne _ (by decide)), dif_pos literal.valid]

/-- What a word starts with is no blank and no end, and starts nothing else. -/
theorem head_word {c : CodeUnit} (h : isWordUnit c = true) :
    isBlank c = false ∧ c ≠ 0x5D ∧ c ≠ 0x7B ∧ c ≠ 0x5B ∧ c ≠ 0x22 := by
  simp only [isBlank, Bool.or_eq_false_iff, decide_eq_false_iff_not, ne_eq]
  refine ⟨⟨⟨⟨?_, ?_⟩, ?_⟩, ?_⟩, ?_, ?_, ?_, ?_⟩ <;> rintro rfl <;> revert h <;> decide

theorem run_letters (read : Utf16) (stack : List Frame) {text : Utf16} (h : text.all isWordUnit = true) :
    run ⟨.word read, stack⟩ text = some ⟨.word (read ++ text), stack⟩ := by
  induction text generalizing read with
  | nil => simp
  | cons c text ih =>
    rw [List.all_cons, Bool.and_eq_true] at h
    have hone : step ⟨.word read, stack⟩ c = some ⟨.word (read ++ [c]), stack⟩ := if_pos h.1
    rw [run_step hone, ih _ h.2, List.append_assoc, List.singleton_append]

theorem run_word (stack : List Frame) {text : Utf16} (h : IsWord text) :
    run ⟨.value, stack⟩ text = some ⟨.word text, stack⟩ := by
  obtain ⟨hne, h⟩ := h
  obtain ⟨c, rest, rfl⟩ := List.exists_cons_of_ne_nil hne
  rw [List.all_cons, Bool.and_eq_true] at h
  have hone : step ⟨.value, stack⟩ c = some ⟨.word [c], stack⟩ := by
    simp only [step, head_word h.1, Bool.false_eq_true, if_false, startValue, h.1, if_true]
  rw [run_step hone, run_letters _ _ h.2, List.singleton_append]

/-- The first code unit of a value. -/
theorem write_cons (v : JsonValue) : ∃ c rest, write v = c :: rest ∧ isBlank c = false ∧ c ≠ 0x5D := by
  rcases v with _ | (_ | _) | literal | text | (_ | ⟨v, items⟩) | (_ | ⟨⟨name, v⟩, members⟩)
  case number =>
    obtain ⟨hne, h⟩ := literal.isWord
    obtain ⟨c, rest, htext⟩ := List.exists_cons_of_ne_nil hne
    rw [htext, List.all_cons, Bool.and_eq_true] at h
    exact ⟨c, rest, htext, (head_word h.1).1, (head_word h.1).2.1⟩
  all_goals
    simp only [write, quoted]
    exact ⟨_, _, rfl, by decide, by decide⟩

theorem run_firstItem (v : JsonValue) (stack : List Frame) (text : Utf16) :
    run ⟨.firstItem, stack⟩ (write v ++ text) = run ⟨.value, stack⟩ (write v ++ text) := by
  obtain ⟨c, rest, hw, hblank, hne⟩ := write_cons v
  rw [hw, List.cons_append, run_cons, run_cons]
  simp only [step, hblank, Bool.false_eq_true, if_false, if_neg hne]

/-- A name, up to the value that follows it. -/
theorem run_name {mode : Mode} (hmode : mode = .firstName ∨ mode = .name) (members : List (Utf16 × JsonValue))
    (before name : Utf16) (stack : List Frame) (text : Utf16) :
    run ⟨mode, .object members before :: stack⟩ (quoted name ++ (0x3A :: 0x20 :: text)) =
      run ⟨.value, .object members name :: stack⟩ text := by
  have hopen : step ⟨mode, .object members before :: stack⟩ 0x22 =
      some ⟨.text true [], .object members before :: stack⟩ := by
    rcases hmode with rfl | rfl <;> rfl
  rw [quoted, List.cons_append, run_step hopen, List.append_assoc, run_through (run_text true [] _ name)]
  rfl

mutual

/-- A value that was written is read, whatever is open. -/
theorem run_value (v : JsonValue) (stack : List Frame) :
    ∃ s, run ⟨.value, stack⟩ (write v) = some s ∧ Settled v stack s := by
  match v with
  | .null => exact ⟨_, run_word stack ⟨by decide, by decide⟩, .inr ⟨_, rfl, rfl⟩⟩
  | .bool true => exact ⟨_, run_word stack ⟨by decide, by decide⟩, .inr ⟨_, rfl, rfl⟩⟩
  | .bool false => exact ⟨_, run_word stack ⟨by decide, by decide⟩, .inr ⟨_, rfl, rfl⟩⟩
  | .number literal => exact ⟨_, run_word stack literal.isWord, .inr ⟨_, literal.word, rfl⟩⟩
  | .text text =>
    refine ⟨deliver (.text text) stack, ?_, .inl rfl⟩
    have hopen : step ⟨.value, stack⟩ 0x22 = some ⟨.text false [], stack⟩ := rfl
    simp only [write, quoted]
    rw [run_step hopen, run_through (run_text false [] stack text)]
    rfl
  | .array [] => exact ⟨_, rfl, .inl rfl⟩
  | .array (v :: items) =>
    obtain ⟨s, hs, hsettled⟩ := run_value v (.array [] :: stack)
    have hopen : step ⟨.value, stack⟩ 0x5B = some ⟨.firstItem, .array [] :: stack⟩ := rfl
    refine ⟨_, ?_, .inl rfl⟩
    simp only [write]
    rw [run_step hopen, run_firstItem, run_through hs, run_items items hsettled, List.nil_append]
  | .object [] => exact ⟨_, rfl, .inl rfl⟩
  | .object ((name, v) :: members) =>
    obtain ⟨s, hs, hsettled⟩ := run_value v (.object [] name :: stack)
    have hopen : step ⟨.value, stack⟩ 0x7B = some ⟨.firstName, .object [] [] :: stack⟩ := rfl
    refine ⟨_, ?_, .inl rfl⟩
    simp only [write]
    rw [run_step hopen, run_name (.inl rfl), run_through hs, run_members members hsettled, List.nil_append]

theorem run_items (items : List JsonValue) {v : JsonValue} {read : List JsonValue} {stack : List Frame} {s : State}
    (h : Settled v (.array read :: stack) s) :
    run s (writeItems items) = some (deliver (.array (read ++ v :: items)) stack) := by
  match items with
  | [] =>
    have hend : step s 0x5D = some (deliver (.array (read ++ [v])) stack) := h.step (.inr (.inl rfl))
    rw [writeItems, run_step hend, run_nil]
  | w :: items =>
    have hcomma : step s 0x2C = some ⟨.value, .array (read ++ [v]) :: stack⟩ := h.step (.inl rfl)
    have hblank : step ⟨.value, .array (read ++ [v]) :: stack⟩ 0x20 =
      some ⟨.value, .array (read ++ [v]) :: stack⟩ := rfl
    obtain ⟨s', hs, hsettled⟩ := run_value w (.array (read ++ [v]) :: stack)
    rw [writeItems, run_step hcomma, run_step hblank, run_through hs, run_items items hsettled, List.append_assoc,
      List.singleton_append]

theorem run_members (members : List (Utf16 × JsonValue)) {v : JsonValue} {name : Utf16}
    {read : List (Utf16 × JsonValue)} {stack : List Frame} {s : State} (h : Settled v (.object read name :: stack) s) :
    run s (writeMembers members) = some (deliver (.object (read ++ (name, v) :: members)) stack) := by
  match members with
  | [] =>
    have hend : step s 0x7D = some (deliver (.object (read ++ [(name, v)])) stack) := h.step (.inr (.inr rfl))
    rw [writeMembers, run_step hend, run_nil]
  | (next, w) :: members =>
    have hcomma : step s 0x2C = some ⟨.name, .object (read ++ [(name, v)]) name :: stack⟩ := h.step (.inl rfl)
    have hblank : step ⟨.name, .object (read ++ [(name, v)]) name :: stack⟩ 0x20 =
      some ⟨.name, .object (read ++ [(name, v)]) name :: stack⟩ := rfl
    obtain ⟨s', hs, hsettled⟩ := run_value w (.object (read ++ [(name, v)]) next :: stack)
    rw [writeMembers, run_step hcomma, run_step hblank, run_name (.inr rfl), run_through hs, run_members members hsettled,
      List.append_assoc, List.singleton_append]

end

/-- **What was written is read back.** -/
theorem parse_write (v : JsonValue) : parse (write v) = some v := by
  obtain ⟨s, hs, h⟩ := run_value v []
  rw [parse, hs, Option.bind_some]
  rcases h with rfl | ⟨read, hread, rfl⟩
  · rfl
  · exact hread

/-! ## What is cut short is not JSON -/

/-- Nothing is open, and a value is there or may end. -/
def Ended (s : State) : Prop := (∃ v, s = ⟨.done v, []⟩) ∨ ∃ read, s = ⟨.word read, []⟩

theorem ended_of_finish {s : State} {v : JsonValue} (h : finish s = some v) : Ended s := by
  unfold finish at h
  split at h
  · exact .inl ⟨_, rfl⟩
  · exact .inr ⟨_, rfl⟩
  · cases h

/-- From there only blanks and more of the word are read. -/
theorem Ended.step {s s' : State} {c : CodeUnit} (h : Ended s) (hs : step s c = some s') :
    Ended s' ∧ ¬isDelimiter c := by
  have hafter : ∀ v, afterValue ⟨.done v, []⟩ c = some s' → Ended s' ∧ ¬isDelimiter c := by
    intro v hv
    simp only [afterValue] at hv
    split at hv
    · next hblank =>
      cases hv
      exact ⟨.inl ⟨v, rfl⟩, by rintro (rfl | rfl | rfl) <;> exact absurd hblank (by decide)⟩
    · cases hv
  rcases h with ⟨v, rfl⟩ | ⟨read, rfl⟩
  · exact hafter v hs
  · simp only [JsonText.step] at hs
    split at hs
    · next hunit =>
      cases hs
      exact ⟨.inr ⟨_, rfl⟩, fun hc => by simp [delimiter_ends hc] at hunit⟩
    · obtain ⟨v, -, hs⟩ := Option.bind_eq_some_iff.1 hs
      exact hafter v hs

theorem Ended.run {s s' : State} {text : Utf16} (h : Ended s) (hs : JsonText.run s text = some s') : Ended s' := by
  induction text generalizing s with
  | nil =>
    cases hs
    exact h
  | cons c text ih =>
    rw [run_cons, Option.bind_eq_some_iff] at hs
    obtain ⟨mid, hmid, hs⟩ := hs
    exact ih (h.step hmid).1 hs

/-- An array or an object. -/
def JsonValue.isContainer : JsonValue → Bool
  | .array _ | .object _ => true
  | _ => false

theorem writeItems_last (items : List JsonValue) : (writeItems items).getLast? = some 0x5D := by
  induction items with
  | nil => rfl
  | cons v items ih => simp [writeItems, List.getLast?_cons, List.getLast?_append, ih]

theorem writeMembers_last (members : List (Utf16 × JsonValue)) : (writeMembers members).getLast? = some 0x7D := by
  induction members with
  | nil => rfl
  | cons member members ih => simp [writeMembers, List.getLast?_cons, List.getLast?_append, ih]

theorem write_last {v : JsonValue} (hv : v.isContainer = true) : ∃ c, (write v).getLast? = some c ∧ isDelimiter c := by
  match v with
  | .array [] => exact ⟨0x5D, rfl, .inr (.inl rfl)⟩
  | .array (v :: items) => exact ⟨0x5D, by simp [write, List.getLast?_cons, List.getLast?_append, writeItems_last],
      .inr (.inl rfl)⟩
  | .object [] => exact ⟨0x7D, rfl, .inr (.inr rfl)⟩
  | .object (member :: members) =>
    exact ⟨0x7D, by simp [write, List.getLast?_cons, List.getLast?_append, writeMembers_last], .inr (.inr rfl)⟩

/-- **An array or an object that was cut short is no JSON.** -/
theorem parse_cut {v : JsonValue} (hv : v.isContainer = true) {text rest : Utf16} (h : write v = text ++ rest)
    (hne : rest ≠ []) : parse text = none := by
  obtain ⟨c, hlast, hc⟩ := write_last hv
  obtain ⟨s, hs, -⟩ := run_value v []
  by_contra hsome
  obtain ⟨w, hw⟩ := Option.ne_none_iff_exists'.1 hsome
  rw [parse, Option.bind_eq_some_iff] at hw
  obtain ⟨s₁, hs₁, hfinish⟩ := hw
  obtain ⟨middle, rfl⟩ : ∃ middle, rest = middle ++ [c] := by
    rw [h, List.getLast?_append_of_ne_nil _ hne, List.getLast?_eq_some_iff] at hlast
    exact hlast
  rw [h, run_through hs₁, run_append, Option.bind_eq_some_iff] at hs
  obtain ⟨s₂, hs₂, hs⟩ := hs
  rw [run_cons, Option.bind_eq_some_iff] at hs
  obtain ⟨s₃, hs₃, -⟩ := hs
  exact (((ended_of_finish hfinish).run hs₂).step hs₃).2 hc

/-! ## What is written is printable ASCII -/

theorem printable_hexDigit : ∀ n < 16, Printable (hexDigit n) := by unfold Printable; decide

theorem printable_escapeUnit (u : CodeUnit) : ∀ c ∈ escapeUnit u, Printable c := by
  have hu := u.isLt
  have hslash : Printable 0x5C := ⟨by decide, by decide⟩
  unfold escapeUnit
  split
  · next short h =>
    exact List.forall_mem_cons.2 ⟨hslash, List.forall_mem_singleton.2
      (shortEscapes_spec _ (List.mem_of_find?_eq_some h)).2.2⟩
  split
  · next h => exact List.forall_mem_singleton.2 h
  · simp only [List.forall_mem_cons]
    exact ⟨hslash, ⟨by decide, by decide⟩, printable_hexDigit _ (by omega), printable_hexDigit _ (by omega),
      printable_hexDigit _ (by omega), printable_hexDigit _ (by omega), List.forall_mem_nil _⟩

theorem printable_quoted {text : Utf16} {c : CodeUnit} (h : c ∈ quoted text) : Printable c := by
  simp only [quoted, List.mem_cons, List.mem_append, List.mem_flatMap, List.not_mem_nil, or_false] at h
  rcases h with rfl | ⟨u, -, hu⟩ | rfl
  · exact ⟨by decide, by decide⟩
  · exact printable_escapeUnit u c hu
  · exact ⟨by decide, by decide⟩

theorem printable_word {text : Utf16} (h : IsWord text) : ∀ c ∈ text, Printable c := by
  intro c hc
  have hunit := List.all_eq_true.1 h.2 c hc
  simp only [isWordUnit, isNumberUnit, isDigit, isExponentMark, Bool.or_eq_true, Bool.and_eq_true,
    decide_eq_true_eq] at hunit
  rcases hunit with ((((h | (rfl | rfl)) | rfl) | rfl) | rfl) | h
  · exact ⟨Fin.le_trans (by decide) h.1, Fin.le_trans h.2 (by decide)⟩
  · exact ⟨by decide, by decide⟩
  · exact ⟨by decide, by decide⟩
  · exact ⟨by decide, by decide⟩
  · exact ⟨by decide, by decide⟩
  · exact ⟨by decide, by decide⟩
  · exact ⟨Fin.le_trans (by decide) h.1, Fin.le_trans h.2 (by decide)⟩

theorem printable_of_all {text : Utf16} (h : text.all (fun c => 0x20 ≤ c && c ≤ 0x7E) = true) :
    ∀ c ∈ text, Printable c := by
  intro c hc
  simpa [Printable] using List.all_eq_true.1 h c hc

mutual

/-- **What is written is printable ASCII**, in one line. -/
theorem write_printable (v : JsonValue) : ∀ c ∈ write v, Printable c := by
  match v with
  | .null | .bool true | .bool false | .array [] | .object [] => exact printable_of_all (by decide)
  | .number literal => exact printable_word literal.isWord
  | .text text => exact fun c hc => printable_quoted hc
  | .array (v :: items) =>
    simp only [write, List.forall_mem_cons, List.forall_mem_append]
    exact ⟨⟨by decide, by decide⟩, write_printable v, writeItems_printable items⟩
  | .object ((name, v) :: members) =>
    simp only [write, List.forall_mem_cons, List.forall_mem_append]
    exact ⟨⟨by decide, by decide⟩, fun c hc => printable_quoted hc, ⟨by decide, by decide⟩, ⟨by decide, by decide⟩,
      write_printable v, writeMembers_printable members⟩

theorem writeItems_printable (items : List JsonValue) : ∀ c ∈ writeItems items, Printable c := by
  match items with
  | [] => exact printable_of_all (by decide)
  | v :: items =>
    simp only [writeItems, List.forall_mem_cons, List.forall_mem_append]
    exact ⟨⟨by decide, by decide⟩, ⟨by decide, by decide⟩, write_printable v, writeItems_printable items⟩

theorem writeMembers_printable (members : List (Utf16 × JsonValue)) : ∀ c ∈ writeMembers members, Printable c := by
  match members with
  | [] => exact printable_of_all (by decide)
  | (name, v) :: members =>
    simp only [writeMembers, List.forall_mem_cons, List.forall_mem_append]
    exact ⟨⟨by decide, by decide⟩, ⟨by decide, by decide⟩, fun c hc => printable_quoted hc, ⟨by decide, by decide⟩,
      ⟨by decide, by decide⟩, write_printable v, writeMembers_printable members⟩

end

end MilpbookLM.JsonText
