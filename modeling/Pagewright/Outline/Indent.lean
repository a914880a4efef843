import Pagewright.Text.Lines

/-! Leading white space of lines: tabs are levels, and four spaces stand for a tab. -/
namespace Pagewright.Outline

def unifyLineEnds : List Char → List Char
  | [] => []
  | '\r' :: '\n' :: cs => '\n' :: unifyLineEnds cs
  | c :: cs => c :: unifyLineEnds cs

/-- The flag says whether only spaces and tabs stand before this place on its line. -/
def packIndent : Bool → List Char → List Char
  | _, [] => []
  | true, ' ' :: ' ' :: ' ' :: ' ' :: cs => '\t' :: packIndent true cs
  | leading, c :: cs =>
    c :: packIndent (c == '\n' || (leading && (c == ' ' || c == '\t'))) cs

def endLine (cs : List Char) : List Char :=
  if cs.getLast? = some '\n' then cs else cs ++ ['\n']

def normalize (cs : List Char) : List Char := endLine (packIndent true (unifyLineEnds cs))

def leadingTabs (cs : List Char) : Nat := (cs.takeWhile (· == '\t')).length

/-- Removes up to `levels` leading tabs from every line. -/
def dedent (levels : Nat) (cs : List Char) : List Char :=
  Text.unlines ((Text.lines cs).map fun line => line.drop (min levels (leadingTabs line)))

end Pagewright.Outline
