/-! Brackets and double quotes that are open at a place of a text. -/
namespace Pagewright.Outline

/-- A depth below zero counts closing brackets that had nothing to close. -/
structure Nesting where
  depth : Int := 0
  quoted : Bool := false
  deriving DecidableEq, Repr

def isOpener (c : Char) : Bool := c == '(' || c == '[' || c == '\x7b'

def isCloser (c : Char) : Bool := c == ')' || c == ']' || c == '\x7d'

namespace Nesting

/-- Brackets inside quotes do not count. -/
def step (n : Nesting) (c : Char) : Nesting :=
  if c = '"' then { n with quoted := !n.quoted }
  else if n.quoted then n
  else if isOpener c then { n with depth := n.depth + 1 }
  else if isCloser c then { n with depth := n.depth - 1 }
  else n

def after (n : Nesting) (cs : List Char) : Nesting := cs.foldl step n

/-- Length of the part before the first unquoted blank or line end at depth zero or below. -/
def spanLength? (n : Nesting) : List Char → Option Nat
  | [] => none
  | c :: cs =>
    if (c = ' ' ∨ c = '\n') ∧ ¬ n.quoted ∧ n.depth ≤ 0 then some 0
    else ((n.step c).spanLength? cs).map (· + 1)

/-- Whether a boundary is left at the front of the piece after it. -/
inductive Separator where
  | kept | dropped
  deriving DecidableEq

/-- Cuts at every unquoted boundary at depth zero; the first piece is the one already begun. -/
def cuts (boundary : Char → Bool) (sep : Separator) (n : Nesting) :
    List Char → List (List Char)
  | [] => [[]]
  | c :: cs =>
    let pieces := cuts boundary sep (n.step c) cs
    let joined := match pieces with
      | [] => [[c]]
      | piece :: rest => (c :: piece) :: rest
    if boundary c ∧ ¬ n.quoted ∧ n.depth = 0 then
      [] :: match sep with
        | .kept => joined
        | .dropped => pieces
    else joined

end Nesting

/-- The non-empty pieces between the boundaries. -/
def split (boundary : Char → Bool) (sep : Nesting.Separator) (cs : List Char) :
    List (List Char) :=
  (Nesting.cuts boundary sep {} cs).filter (!·.isEmpty)

end Pagewright.Outline
