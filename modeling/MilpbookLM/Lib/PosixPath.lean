/-
Pure POSIX paths, as pathlib reads them from a string of code points: the slashes in
front, and the names between the others. Empty names and single dots say nothing and are
left out.
-/
import Mathlib.Data.List.Infix

namespace PosixPath

def slash : Nat := 0x2F

def dot : Nat := 0x2E

/-- `PurePosixPath(s)`. -/
structure Path where
  /-- No slash, one or two. -/
  root : List Nat
  names : List (List Nat)
  deriving DecidableEq

/-- The slashes in front; three of them and more count as one. -/
def rootOf : List Nat → List Nat
  | a :: b :: c :: _ => if a ≠ slash then [] else if b ≠ slash ∨ c = slash then [slash] else [slash, slash]
  | [a, b] => if a ≠ slash then [] else if b ≠ slash then [slash] else [slash, slash]
  | [a] => if a = slash then [slash] else []
  | [] => []

def parse (s : List Nat) : Path where
  root := rootOf s
  names := (s.splitOn slash).filter fun name => name ≠ [] ∧ name ≠ [dot]

namespace Path

/-- `path.is_absolute()`. -/
def isAbsolute (p : Path) : Prop := p.root ≠ []

instance (p : Path) : Decidable p.isAbsolute := inferInstanceAs (Decidable (p.root ≠ []))

/-- `path.parts`. -/
def parts (p : Path) : List (List Nat) := if p.root = [] then p.names else p.root :: p.names

/-- `path.name`. -/
def name (p : Path) : List Nat := p.names.getLast?.getD []

/-- The parents of a path but the last of them. -/
def properParents (p : Path) : List Path := (p.names.inits.filter fun ns => ns ≠ [] ∧ ns ≠ p.names).map (⟨p.root, ·⟩)

end Path

end PosixPath
