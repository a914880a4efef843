import Pagewright.Text.Lines

/-! Paths as they are written, and the places they name. -/
namespace Pagewright

/-- Exactly two leading slashes are kept apart from one. -/
inductive Root where
  | relative | slash | doubleSlash
  deriving DecidableEq, Repr

/-- Parts are neither empty nor a single full stop; two full stops stay. -/
structure Path where
  root : Root := .relative
  parts : List String := []
  deriving DecidableEq, Repr

/-- An absolute place, from the top down. -/
abbrev Location := List String

namespace Path

def ofString (s : String) : Path :=
  let cs := s.toList
  { root := match (cs.takeWhile (· == '/')).length with
      | 0 => .relative
      | 2 => .doubleSlash
      | _ => .slash
    parts := ((Text.fields '/' cs).filter fun p => p ≠ [] ∧ p ≠ ['.']).map String.ofList }

/-- A name that ends in a slash, or in one and a full stop, is that of a folder. -/
def namesFolder (name : String) : Bool :=
  (Text.fields '/' name.toList).getLast?.any fun part => part = [] ∨ part = ['.']

def text (p : Path) : String :=
  let parts := "/".intercalate p.parts
  match p.root with
  | .relative => if p.parts.isEmpty then "." else parts
  | .slash => "/" ++ parts
  | .doubleSlash => "//" ++ parts

instance : ToString Path := ⟨text⟩

/-- The last part goes, whatever it is; without parts nothing does. -/
def parent (p : Path) : Path := { p with parts := p.parts.dropLast }

/-- An absolute path does not depend on what it is joined to. -/
def join (p q : Path) : Path :=
  if q.root = .relative then { p with parts := p.parts ++ q.parts } else q

def child (p : Path) (name : String) : Path := { p with parts := p.parts ++ [name] }

def start (home : Location) (p : Path) : Location := if p.root = .relative then home else []

def step (loc : Location) (part : String) : Location :=
  if part = ".." then loc.dropLast else loc ++ [part]

/-- The place that a path names by its text alone. -/
def resolve (home : Location) (p : Path) : Location := p.parts.foldl step (p.start home)

end Path

def Location.text (loc : Location) : String := "/" ++ "/".intercalate loc

end Pagewright
