/-
The address guard of the browser worker, which has parsers and a matcher of its own and the
tables of the fetch path, exported to it as ranges. On the text of an IPv4 address the two
guards agree. On IPv6 text they need not: the worker writes the halves of a dotted tail in
decimal and reads them as hexadecimal, and it knows neither the forms that embed an IPv4
address, but for the mapped ones, nor what `is_global` refuses (`guards_agree`).
-/
import MilpbookLM.Fetch.Addressing

namespace MilpbookLM.Research

open Ip Fetch

/-! ## Parsers -/

/-- `text.replace(/^\[|\]$/g, "")`. -/
def unbracket (t : List Char) : List Char :=
  let t := if t.head? = some '[' then t.tail else t
  if t.getLast? = some ']' then t.dropLast else t

/-- `Number(text)` of decimal digits. -/
def number (t : List Char) : Nat := Nat.ofDigitChars 10 t 0

/-- `/^\d{1,3}$/.test(p) && Number(p) <= 255`. -/
def octetShaped (p : List Char) : Bool := 1 ≤ p.length && p.length ≤ 3 && p.all Char.isDigit && number p ≤ 255

/-- `parseIpv4`. -/
def parseIpv4 (text : List Char) : Option Nat :=
  let parts := text.splitOn '.'
  if parts.length ≠ 4 ∨ !parts.all octetShaped then none
  else some (parts.foldl (fun acc part => acc * 256 + number part) 0)

/-- `/^[0-9a-fA-F]{1,4}$/.test(group)`, and then `parseInt(group, 16)`. -/
def hexGroup (group : List Char) : Option Nat :=
  if 1 ≤ group.length ∧ group.length ≤ 4 ∧ group.all (fun c => (hexDigit c).isSome) then hexValue 0 group else none

/-- `expand`, its first half: a dotted last group becomes two groups. -/
def expandTail (groups : List (List Char)) : Option (List (List Char)) :=
  match groups.getLast? with
  | none => some groups
  | some last =>
    if '.' ∈ last then
      match last.splitOn '.' with
      | [p₀, p₁, p₂, p₃] =>
        if [p₀, p₁, p₂, p₃].all octetShaped then
          some (groups.dropLast ++
            [Nat.toDigits 10 (number p₀ <<< 8 ||| number p₁), Nat.toDigits 10 (number p₂ <<< 8 ||| number p₃)])
        else none
      | _ => none
    else some groups

/-- `expand`. -/
def expand (chunk : List Char) : Option (List Nat) :=
  if chunk = [] then some [] else (expandTail (chunk.splitOn ':')).bind (·.mapM hexGroup)

/-- The text before and after the first `::`. -/
def splitDouble : List Char → Option (List Char × List Char)
  | [] => none
  | [_] => none
  | c :: d :: t =>
    if c = ':' ∧ d = ':' then some ([], t) else (splitDouble (d :: t)).map fun (head, tail) => (c :: head, tail)

/-- `value << 16n | BigInt(group)`, of one group after the other. -/
def joinGroups (groups : List Nat) : Nat := groups.foldl (fun value group => value <<< 16 ||| group) 0

/-- `parseIpv6`, from `expand` on; `first` says if there is a `::`. -/
def assemble (first : Bool) (head tail : List Char) : Option Nat :=
  match expand head, expand tail with
  | some headGroups, some tailGroups =>
    let missing : Int := 8 - headGroups.length - tailGroups.length
    if !first ∧ missing ≠ 0 then none
    else if first ∧ missing < 0 then none
    else some (joinGroups (headGroups ++ List.replicate missing.toNat 0 ++ tailGroups))
  | _, _ => none

/-- `parseIpv6`. A second `::` may begin at the last colon of the first. -/
def parseIpv6 (text : List Char) : Option Nat :=
  let bare := unbracket text
  match splitDouble bare with
  | none => assemble false bare []
  | some (head, tail) => if (splitDouble (':' :: tail)).isSome then none else assemble true head tail

/-! ## Tables -/

/-- A row of `AddressTables`. -/
structure Range where
  start : Nat
  stop : Nat
  reason : String

def Range.has (range : Range) (value : Nat) : Bool := range.start ≤ value && value ≤ range.stop

structure AddressTables where
  v4 : List Range
  v6 : List Range

/-- `_v4_ranges`. -/
def v4Ranges : List (Nat × Nat × String) :=
  ipv4Blocked.map fun network => (network.first, network.first + network.size - 1, v4Reason network.first)

/-- `_v6_ranges`, the bounds as decimal text. -/
def v6Ranges : List (List Char × List Char × String) :=
  ipv6Blocked.map fun network =>
    (Nat.toDigits 10 network.first, Nat.toDigits 10 (network.first + network.size - 1), v6Reason network.first)

/-- The constructor of `AddressTables`. -/
def AddressTables.new (v4Ranges : List (Nat × Nat × String)) (v6Ranges : List (List Char × List Char × String)) :
    AddressTables where
  v4 := v4Ranges.map fun r => ⟨r.1, r.2.1, r.2.2⟩
  v6 := v6Ranges.map fun r => ⟨number r.1, number r.2.1, r.2.2⟩

/-- `classifyV4Number`. -/
def AddressTables.classifyV4Number (tables : AddressTables) (value : Nat) : Option String :=
  (tables.v4.find? (·.has value)).map Range.reason

/-- `classifyLiteral`. -/
def AddressTables.classifyLiteral (tables : AddressTables) (host : List Char) : Option String :=
  let bare := unbracket host
  if ':' ∈ bare then
    match parseIpv6 bare with
    | none => some "unparseable_address"
    | some value =>
      if 0xffff00000000 ≤ value ∧ value ≤ 0xffffffffffff then tables.classifyV4Number (value % 2 ^ 32)
      else (tables.v6.find? (·.has value)).map Range.reason
  else
    match parseIpv4 bare with
    | none => some "unparseable_address"
    | some value => tables.classifyV4Number value

/-- The tables that the worker is started with. -/
def workerTables : AddressTables := .new v4Ranges v6Ranges

end MilpbookLM.Research
