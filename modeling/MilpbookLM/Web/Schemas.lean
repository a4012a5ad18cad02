/-
The schemas that the web client parses a response with. A parsed object has the keys of its schema
only.
-/
import Mathlib.Algebra.Ring.Nat
import MilpbookLM.Lib.JsonText

namespace MilpbookLM

open JsonText

/-! ## Numbers -/

/-- The number that decimal digits stand for. -/
def decimal (digits : Utf16) : Nat := digits.foldl (fun n c => 10 * n + (c.val - 0x30)) 0

namespace JsonText.NumberText

/-- The digits of the mantissa. -/
def mantissa (literal : NumberText) : Utf16 := (literal.text.takeWhile (!isExponentMark ·)).filter isDigit

/-- The power of ten that its last digit counts. -/
def exponent (literal : NumberText) : Int :=
  let written := (literal.text.dropWhile (!isExponentMark ·)).drop 1
  let power : Int := decimal (written.filter isDigit)
  let fraction := ((literal.text.takeWhile (!isExponentMark ·)).dropWhile (· ≠ 0x2E)).drop 1
  (if written.head? = some 0x2D then -power else power) - fraction.length

/-- Its double is finite: it is nearer to zero than what rounds to 2^1024. -/
def finite (literal : NumberText) : Bool :=
  decimal literal.mantissa * 10 ^ literal.exponent.toNat < (2 ^ 1024 - 2 ^ 970) * 10 ^ (-literal.exponent).toNat

end JsonText.NumberText

/-! ## Schemas -/

inductive Schema
  | string
  | number
  | boolean
  | uuid
  | enum (values : List String)
  | nullable (inner : Schema)
  | array (element : Schema)
  | object (shape : List (String × Schema))

def isHexUnit (c : CodeUnit) : Bool := (hexValue c).isSome

/-- `z.string().uuid()`: of a version from 1 to 8, or all zeros, or all `f`. -/
def isUuidText (text : Utf16) : Bool :=
  text = units "00000000-0000-0000-0000-000000000000" || text = units "ffffffff-ffff-ffff-ffff-ffffffffffff" ||
    (text.length = 36 && (text.zipIdx.all fun p =>
      if p.2 = 8 ∨ p.2 = 13 ∨ p.2 = 18 ∨ p.2 = 23 then p.1 = 0x2D
      else if p.2 = 14 then 0x31 ≤ p.1 && p.1 ≤ 0x38
      else if p.2 = 19 then (units "89abAB").contains p.1
      else isHexUnit p.1))

namespace Schema

mutual

/-- `schema.parse(value)`; none for a ZodError. -/
def parse : Schema → JsonValue → Option JsonValue
  | .string, .text t => some (.text t)
  | .number, .number n => if n.finite then some (.number n) else none
  | .boolean, .bool b => some (.bool b)
  | .uuid, .text t => if isUuidText t then some (.text t) else none
  | .enum values, .text t => if values.any (units · = t) then some (.text t) else none
  | .nullable _, .null => some .null
  | .nullable inner, v => parse inner v
  | .array element, .array items => (items.mapM (parse element)).map .array
  | .object shape, .object members => (parseShape shape members).map .object
  | _, _ => none

def parseShape : List (String × Schema) → List (Utf16 × JsonValue) → Option (List (Utf16 × JsonValue))
  | [], _ => some []
  | (key, schema) :: shape, members => do
    let v ← member? members (units key)
    let parsed ← parse schema v
    let rest ← parseShape shape members
    return (units key, parsed) :: rest

end

end Schema

/-- The text under a key of a parsed object. -/
def textOf (parsed : JsonValue) (key : String) : Utf16 :=
  match parsed with
  | .object members => match member? members (units key) with
    | some (.text t) => t
    | _ => []
  | _ => []

def citationSchema : Schema := .object
  [("evidence_id", .string), ("label", .string), ("source_version_id", .uuid), ("node_id", .uuid),
    ("locator_kind", .string), ("char_start", .number), ("char_end", .number), ("url", .string)]

def chatConfigSchema : Schema := .object
  [("style", .enum ["standard", "learning", "custom"]), ("length", .enum ["shorter", "default", "longer"]),
    ("output_language", .enum ["DE", "EN"])]

def messageSchema : Schema := .object
  [("id", .uuid), ("role", .string), ("content", .string), ("manifest_id", .uuid), ("citations", .array citationSchema)]

def conversationSchema : Schema := .object
  [("id", .uuid), ("notebook_id", .uuid), ("config", chatConfigSchema), ("instructions", .string),
    ("messages", .array messageSchema)]

def terminalSchema : Schema := .object
  [("answer_message_id", .nullable .uuid), ("manifest_id", .uuid), ("insufficient_evidence", .boolean),
    ("state", .nullable conversationSchema)]

/-! ## The schemas of the chat stream -/

def tokenSchema : Schema := .object [("token", .string)]

def errorSchema : Schema := .object [("detail", .string)]

end MilpbookLM
