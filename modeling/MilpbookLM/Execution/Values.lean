/-
What `json.loads` makes of a frame, and `json.dumps` of such a value. A string is a list of
code points, lone surrogates among them; a number is an integer of any size or a float. The
canonical text of a value has an encoding unless one of its strings has a lone surrogate
(`encode_dumps`).
-/
import Mathlib.Data.List.Lex
import Mathlib.Data.List.Sort
import MilpbookLM.Base.Uuid

namespace MilpbookLM.Execution

abbrev Bytes := List UInt8

/-! ## Strings -/

/-- A `str`. -/
abbrev PyStr := List Nat

instance : LawfulBEq PyStr := inferInstance

/-- A text without surrogates. -/
def PyStr.ofText (text : List Char) : PyStr := text.map Char.toNat

/-- A literal. -/
def lit (s : String) : PyStr := .ofText s.toList

def isSurrogate (c : Nat) : Bool := 0xD800 ≤ c && c < 0xE000

/-- The bytes of a code point. -/
def utf8Char (c : Nat) : Bytes :=
  if c < 0x80 then [UInt8.ofNat c]
  else if c < 0x800 then [UInt8.ofNat (0xC0 + c / 64), UInt8.ofNat (0x80 + c % 64)]
  else if c < 0x10000 then
    [UInt8.ofNat (0xE0 + c / 4096), UInt8.ofNat (0x80 + c / 64 % 64), UInt8.ofNat (0x80 + c % 64)]
  else
    [UInt8.ofNat (0xF0 + c / 262144), UInt8.ofNat (0x80 + c / 4096 % 64), UInt8.ofNat (0x80 + c / 64 % 64),
      UInt8.ofNat (0x80 + c % 64)]

/-- `s.encode()`; `none` for a UnicodeEncodeError. -/
def PyStr.encode (s : PyStr) : Option Bytes := if s.any isSurrogate then none else some (s.flatMap utf8Char)

/-! ## Values -/

/-- The least integer that rounds to 2^1024. -/
def floatOverflow : Nat := 2 ^ 1024 - 2 ^ 970

theorem small_lt_overflow {n : Nat} (h : n < 2 ^ 64) : n < floatOverflow := by
  have hbound : 2 ^ 64 ≤ floatOverflow := by decide +kernel
  omega

/-- A float's operations; `ofInt` raises OverflowError (`none`) for an integer out of range. -/
structure Floats (F : Type) where
  ofInt : Int → Option F
  isfinite : F → Bool
  eqInt : F → Int → Bool
  le : F → F → Bool
  lt : F → F → Bool
  sub : F → F → F
  abs : F → F
  /-- `float.__repr__`. -/
  repr : F → String
  ofInt_none : ∀ n, ofInt n = none ↔ floatOverflow ≤ n.natAbs

/-- The whole numbers among the floats, on which the operations are exact. -/
def wholeFloats : Floats Int where
  ofInt n := if floatOverflow ≤ n.natAbs then none else some n
  isfinite _ := true
  eqInt x n := x = n
  le x y := x ≤ y
  lt x y := x < y
  sub x y := x - y
  abs x := x.natAbs
  repr x := toString x ++ ".0"
  ofInt_none n := by split <;> simp_all

/-- The float of a small number. -/
def Floats.ofSmall {F : Type} (fl : Floats F) (n : Nat) (h : n < 2 ^ 64) : F :=
  (fl.ofInt n).get (Option.isSome_iff_ne_none.2 fun hnone =>
    absurd (small_lt_overflow h) (Nat.not_lt.2 ((fl.ofInt_none n).1 hnone)))

/-- A decoded JSON value. -/
inductive PyValue (F : Type)
  | none
  | bool (b : Bool)
  | int (n : Int)
  | float (x : F)
  | str (s : PyStr)
  | list (xs : List (PyValue F))
  | dict (items : List (PyStr × PyValue F))

abbrev PyDict (F : Type) := List (PyStr × PyValue F)

/-- An `int`; `bool` is a subclass. -/
inductive PyInt
  | bool (b : Bool)
  | int (n : Int)
  deriving DecidableEq

/-- An `int` or a `float`. -/
inductive PyNumber (F : Type)
  | int (n : PyInt)
  | float (x : F)

section Values

variable {F : Type}

/-- `d.get(key)`; `none` when the key is absent. -/
def field? (d : PyDict F) (key : String) : Option (PyValue F) := (d.find? (·.1 == lit key)).map (·.2)

/-- `d.get(key)`; None when the key is absent. -/
def field (d : PyDict F) (key : String) : PyValue F := (field? d key).getD .none

def PyValue.str? : PyValue F → Option PyStr
  | .str s => some s
  | _ => Option.none

def PyValue.bool? : PyValue F → Option Bool
  | .bool b => some b
  | _ => Option.none

def PyValue.list? : PyValue F → Option (List (PyValue F))
  | .list xs => some xs
  | _ => Option.none

def PyValue.dict? : PyValue F → Option (PyDict F)
  | .dict items => some items
  | _ => Option.none

/-- `isinstance(value, int)`. -/
def PyValue.int? : PyValue F → Option PyInt
  | .int n => some (.int n)
  | .bool b => some (.bool b)
  | _ => Option.none

/-- `isinstance(value, (int, float))`. -/
def PyValue.number? : PyValue F → Option (PyNumber F)
  | .float x => some (.float x)
  | x => x.int?.map .int

def PyInt.value : PyInt → PyValue F
  | .bool b => .bool b
  | .int n => .int n

def PyNumber.value : PyNumber F → PyValue F
  | .int n => n.value
  | .float x => .float x

theorem PyInt.int_value (n : PyInt) : (n.value : PyValue F).int? = some n := by cases n <;> rfl

theorem PyNumber.number_value (x : PyNumber F) : x.value.number? = some x := by
  rcases x with n | x
  · cases n <;> rfl
  · rfl

theorem PyValue.value_of_int {x : PyValue F} {n : PyInt} (h : x.int? = some n) : n.value = x := by
  cases x <;> cases h <;> rfl

theorem PyValue.value_of_number {x : PyValue F} {n : PyNumber F} (h : x.number? = some n) : n.value = x := by
  cases x <;> cases h <;> rfl

theorem PyValue.str_of {x : PyValue F} {s : PyStr} (h : x.str? = some s) : x = .str s := by
  cases x <;> cases h
  rfl

/-- `value == n`. -/
def PyValue.eqInt (fl : Floats F) (n : Int) : PyValue F → Bool
  | .int m => m = n
  | .bool b => (if b then 1 else 0) = n
  | .float x => fl.eqInt x n
  | _ => false

/-- `float(value)` of a number; `none` for an OverflowError. -/
def PyValue.float? (fl : Floats F) : PyValue F → Option F
  | .int n => fl.ofInt n
  | .bool b => fl.ofInt (if b then 1 else 0)
  | .float x => some x
  | _ => Option.none

/-! ## Objects -/

mutual

/-- No object in it has a key twice. -/
def PyValue.Distinct : PyValue F → Prop
  | .list xs => DistinctList xs
  | .dict items => (items.map (·.1)).Nodup ∧ DistinctItems items
  | _ => True

def DistinctList : List (PyValue F) → Prop
  | [] => True
  | x :: xs => x.Distinct ∧ DistinctList xs

def DistinctItems : List (PyStr × PyValue F) → Prop
  | [] => True
  | (_, x) :: items => x.Distinct ∧ DistinctItems items

end

theorem distinctList_mem {xs : List (PyValue F)} {x : PyValue F} (h : DistinctList xs) (hx : x ∈ xs) : x.Distinct := by
  induction xs with
  | nil => cases hx
  | cons y xs ih =>
    rw [DistinctList] at h
    rcases List.mem_cons.1 hx with rfl | hx
    · exact h.1
    · exact ih h.2 hx

theorem distinctItems_mem {items : PyDict F} {item : PyStr × PyValue F} (h : DistinctItems items) (hitem : item ∈ items) :
    item.2.Distinct := by
  induction items with
  | nil => cases hitem
  | cons y items ih =>
    rw [DistinctItems] at h
    rcases List.mem_cons.1 hitem with rfl | hitem
    · exact h.1
    · exact ih h.2 hitem

theorem mem_of_field {d : PyDict F} {key : String} {x : PyValue F} (h : field? d key = some x) : (lit key, x) ∈ d := by
  rw [field?, Option.map_eq_some_iff] at h
  obtain ⟨⟨k, y⟩, hfind, rfl⟩ := h
  obtain rfl : k = lit key := by simpa using List.find?_some hfind
  exact List.mem_of_find?_eq_some hfind

theorem notMem_of_field {d : PyDict F} {key : String} (h : field? d key = none) : lit key ∉ d.map (·.1) := by
  rw [field?, Option.map_eq_none_iff, List.find?_eq_none] at h
  simp only [List.mem_map, not_exists, not_and]
  intro item hitem hkey
  exact h item hitem (by simp [hkey])

/-- A key that comes once has its item's value. -/
theorem field_of_mem {d : PyDict F} {key : String} {x : PyValue F} (hkeys : (d.map (·.1)).Nodup) (h : (lit key, x) ∈ d) :
    field? d key = some x := by
  induction d with
  | nil => cases h
  | cons item d ih =>
    rw [List.map_cons, List.nodup_cons] at hkeys
    unfold field?
    rw [List.find?_cons]
    rcases List.mem_cons.1 h with rfl | h
    · simp
    · have hne : (item.1 == lit key) = false := by
        rw [beq_eq_false_iff_ne]
        intro heq
        exact hkeys.1 (List.mem_map.2 ⟨_, h, heq.symm⟩)
      rw [hne]
      exact ih hkeys.2 h

theorem field_eq_of_mem {d : PyDict F} {key : String} {x : PyValue F} (hkeys : (d.map (·.1)).Nodup) (h : (lit key, x) ∈ d) :
    field d key = x := by
  rw [field, field_of_mem hkeys h, Option.getD_some]

/-! ## The canonical text -/

/-- What `json.dumps` writes for a code point of a string. -/
def escapeChar (c : Nat) : PyStr :=
  if c = 0x22 then lit "\\\""
  else if c = 0x5C then lit "\\\\"
  else if c = 0x0A then lit "\\n"
  else if c = 0x0D then lit "\\r"
  else if c = 0x09 then lit "\\t"
  else if c = 0x0C then lit "\\f"
  else if c = 0x08 then lit "\\b"
  else if c < 0x20 then lit "\\u00" ++ PyStr.ofText [Uuid.hexChar (c / 16), Uuid.hexChar (c % 16)]
  else [c]

def quote (s : PyStr) : PyStr := lit "\"" ++ s.flatMap escapeChar ++ lit "\""

/-- The items of an object in the order of their keys. -/
def sortItems (items : PyDict F) : PyDict F := items.insertionSort fun a b => a.1 ≤ b.1

mutual

/-- `json.dumps(value, sort_keys=True, separators=(",", ":"), ensure_ascii=False)` of a value whose objects are in the
order of their keys. -/
def dumpsSorted (fl : Floats F) : PyValue F → PyStr
  | .none => lit "null"
  | .bool b => lit (if b then "true" else "false")
  | .int n => lit (toString n)
  | .float x => lit (fl.repr x)
  | .str s => quote s
  | .list xs => lit "[" ++ dumpsList fl xs ++ lit "]"
  | .dict items => lit "\x7b" ++ dumpsItems fl items ++ lit "\x7d"

def dumpsList (fl : Floats F) : List (PyValue F) → PyStr
  | [] => []
  | [x] => dumpsSorted fl x
  | x :: y :: xs => dumpsSorted fl x ++ lit "," ++ dumpsList fl (y :: xs)

def dumpsItems (fl : Floats F) : List (PyStr × PyValue F) → PyStr
  | [] => []
  | [(k, x)] => quote k ++ lit ":" ++ dumpsSorted fl x
  | (k, x) :: item :: items => quote k ++ lit ":" ++ dumpsSorted fl x ++ lit "," ++ dumpsItems fl (item :: items)

end

mutual

/-- A value with the items of every object in the order of their keys. -/
def PyValue.sorted : PyValue F → PyValue F
  | .list xs => .list (sortedList xs)
  | .dict items => .dict (sortItems (sortedItems items))
  | x => x

def sortedList : List (PyValue F) → List (PyValue F)
  | [] => []
  | x :: xs => x.sorted :: sortedList xs

def sortedItems : List (PyStr × PyValue F) → List (PyStr × PyValue F)
  | [] => []
  | (k, x) :: items => (k, x.sorted) :: sortedItems items

end

/-- `json.dumps(value, sort_keys=True, separators=(",", ":"), ensure_ascii=False)`. -/
def dumps (fl : Floats F) (value : PyValue F) : PyStr := dumpsSorted fl value.sorted

/-! ## Lone surrogates -/

mutual

/-- A string or a key in it has a lone surrogate. -/
def PyValue.surrogate : PyValue F → Bool
  | .str s => s.any isSurrogate
  | .list xs => surrogateList xs
  | .dict items => surrogateItems items
  | _ => false

def surrogateList : List (PyValue F) → Bool
  | [] => false
  | x :: xs => x.surrogate || surrogateList xs

def surrogateItems : List (PyStr × PyValue F) → Bool
  | [] => false
  | (k, x) :: items => k.any isSurrogate || x.surrogate || surrogateItems items

end

theorem isSurrogate_toNat (c : Char) : isSurrogate c.toNat = false := by
  have hc := c.valid
  simp only [UInt32.isValidChar, Nat.isValidChar, Char.toNat] at hc ⊢
  simp only [isSurrogate, Bool.and_eq_false_iff, decide_eq_false_iff_not]
  omega

/-- A text has none. -/
theorem ofText_surrogate (text : List Char) : (PyStr.ofText text).any isSurrogate = false := by
  simp [PyStr.ofText, isSurrogate_toNat]

theorem lit_surrogate (s : String) : (lit s).any isSurrogate = false := ofText_surrogate _

theorem escapeChar_surrogate (c : Nat) : (escapeChar c).any isSurrogate = isSurrogate c := by
  have hbelow : c < 0xD800 → isSurrogate c = false := by
    intro h
    simp only [isSurrogate, Bool.and_eq_false_iff, decide_eq_false_iff_not]
    omega
  unfold escapeChar
  split_ifs with h
  all_goals try (rw [lit_surrogate, hbelow (by omega)])
  · rw [List.any_append, lit_surrogate, ofText_surrogate, hbelow (by omega)]
    rfl
  · simp

theorem quote_surrogate (s : PyStr) : (quote s).any isSurrogate = s.any isSurrogate := by
  simp only [quote, List.any_append, lit_surrogate, List.any_flatMap, escapeChar_surrogate, Bool.false_or, Bool.or_false]

mutual

/-- The text of a value has a lone surrogate when the value has. -/
theorem dumpsSorted_surrogate (fl : Floats F) : (x : PyValue F) → (dumpsSorted fl x).any isSurrogate = x.surrogate
  | .none | .bool _ | .int _ | .float _ => by simp [dumpsSorted, lit_surrogate, PyValue.surrogate]
  | .str s => by rw [dumpsSorted, quote_surrogate, PyValue.surrogate]
  | .list xs => by
    simp only [dumpsSorted, List.any_append, lit_surrogate, Bool.false_or, Bool.or_false, PyValue.surrogate]
    exact dumpsList_surrogate fl xs
  | .dict items => by
    simp only [dumpsSorted, List.any_append, lit_surrogate, Bool.false_or, Bool.or_false, PyValue.surrogate]
    exact dumpsItems_surrogate fl items

theorem dumpsList_surrogate (fl : Floats F) : (xs : List (PyValue F)) → (dumpsList fl xs).any isSurrogate = surrogateList xs
  | [] => rfl
  | [x] => by
    rw [dumpsList, dumpsSorted_surrogate fl x]
    simp [surrogateList]
  | x :: y :: xs => by
    rw [dumpsList, List.any_append, List.any_append, lit_surrogate, dumpsSorted_surrogate fl x, dumpsList_surrogate fl (y :: xs)]
    simp [surrogateList]

theorem dumpsItems_surrogate (fl : Floats F) : (items : List (PyStr × PyValue F)) →
    (dumpsItems fl items).any isSurrogate = surrogateItems items
  | [] => rfl
  | [(k, x)] => by
    simp only [dumpsItems, List.any_append, quote_surrogate, lit_surrogate, dumpsSorted_surrogate fl x, surrogateItems,
      Bool.or_false]
  | (k, x) :: item :: items => by
    rw [dumpsItems, surrogateItems, ← dumpsItems_surrogate fl (item :: items)]
    simp only [List.any_append, quote_surrogate, lit_surrogate, dumpsSorted_surrogate fl x, Bool.or_false]

end

theorem surrogateItems_any (items : PyDict F) :
    surrogateItems items = items.any fun item => item.1.any isSurrogate || item.2.surrogate := by
  induction items with
  | nil => rfl
  | cons item items ih =>
    obtain ⟨k, x⟩ := item
    rw [surrogateItems, ih, List.any_cons]

theorem sortItems_surrogate (items : PyDict F) : surrogateItems (sortItems items) = surrogateItems items := by
  rw [surrogateItems_any, surrogateItems_any]
  exact (List.perm_insertionSort _ items).any_eq

mutual

/-- The order of the keys does not matter. -/
theorem sorted_surrogate : (x : PyValue F) → x.sorted.surrogate = x.surrogate
  | .none | .bool _ | .int _ | .float _ | .str _ => rfl
  | .list xs => by
    rw [PyValue.sorted, PyValue.surrogate, PyValue.surrogate]
    exact sortedList_surrogate xs
  | .dict items => by
    rw [PyValue.sorted, PyValue.surrogate, PyValue.surrogate, sortItems_surrogate]
    exact sortedItems_surrogate items

theorem sortedList_surrogate : (xs : List (PyValue F)) → surrogateList (sortedList xs) = surrogateList xs
  | [] => rfl
  | x :: xs => by rw [sortedList, surrogateList, surrogateList, sorted_surrogate x, sortedList_surrogate xs]

theorem sortedItems_surrogate : (items : List (PyStr × PyValue F)) → surrogateItems (sortedItems items) = surrogateItems items
  | [] => rfl
  | (k, x) :: items => by
    rw [sortedItems, surrogateItems, surrogateItems, sorted_surrogate x, sortedItems_surrogate items]

end

/-- **The canonical text of a value has an encoding unless one of its strings has a lone surrogate.** -/
theorem encode_dumps (fl : Floats F) (x : PyValue F) : (dumps fl x).encode = none ↔ x.surrogate = true := by
  rw [PyStr.encode, dumps, dumpsSorted_surrogate, sorted_surrogate]
  split <;> simp_all

end Values

end MilpbookLM.Execution
