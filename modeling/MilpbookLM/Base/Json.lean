/-
JSON values as Python's `dict[str, object]` payloads and the `jsonb` columns
hold them. A float is carried as the rational it denotes and never computed
with. `Dict.get` is `dict.get`: a missing key and a JSON null both read as None.
-/
import Mathlib.Data.Rat.Defs

namespace MilpbookLM

inductive Json
  | null
  | bool (b : Bool)
  | int (n : Int)
  | float (q : Rat)
  | str (s : String)
  | arr (xs : List Json)
  | obj (kvs : List (String × Json))

/-- A Python `dict[str, object]`. -/
abbrev Dict := List (String × Json)

namespace Dict

/-- `raw.get(key)`. -/
def get (d : Dict) (k : String) : Json := ((d.find? (·.1 == k)).map (·.2)).getD .null

end Dict

namespace Json

/-- `value if isinstance(value, str) else None`. -/
def str? : Json → Option String
  | .str s => some s
  | _ => none

/-- `value if isinstance(value, int) else None`; a bool is an int in Python. -/
def int? : Json → Option Int
  | .int n => some n
  | .bool b => some (if b then 1 else 0)
  | _ => none

/-- `value if isinstance(value, dict) else None`. -/
def dict? : Json → Option Dict
  | .obj d => some d
  | _ => none

/-- `float(value) if value is not None else None`; None also where `float` would raise. -/
def float? : Json → Option Rat
  | .float q => some q
  | .int n => some n
  | .bool b => some (if b then 1 else 0)
  | _ => none

/-- `str(value)`; the text of a float, a list or a dict is not modelled. -/
def text : Json → String
  | .str s => s
  | .null => "None"
  | .bool b => if b then "True" else "False"
  | .int n => toString n
  | .float _ | .arr _ | .obj _ => ""

/-- Truth of a value (`if value`, `value or default`). -/
def truthy : Json → Bool
  | .null => false
  | .bool b => b
  | .int n => n != 0
  | .float q => q != 0
  | .str s => s != ""
  | .arr xs => !xs.isEmpty
  | .obj kvs => !kvs.isEmpty

/-- An optional string, None as null. -/
def ofStr? : Option String → Json
  | some s => .str s
  | none => .null

def ofDict? : Option Dict → Json
  | some d => .obj d
  | none => .null

@[simp] theorem str?_ofStr? (s : Option String) : (ofStr? s).str? = s := by cases s <;> rfl
@[simp] theorem dict?_obj (d : Dict) : (obj d).dict? = some d := rfl
@[simp] theorem dict?_ofDict? (d : Option Dict) : (ofDict? d).dict? = d := by cases d <;> rfl

end Json

end MilpbookLM
