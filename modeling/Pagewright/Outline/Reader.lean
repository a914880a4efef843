import Pagewright.Html.Element
import Pagewright.Outline.Indent
import Pagewright.Outline.Scanner
import Pagewright.Outline.Modifier

/-! Reading an outline: a line deeper than an element belongs to that element. -/
namespace Pagewright.Outline

/-- The next line that holds a name, as distances from where the search began. -/
structure TagLine where
  lineStart : Nat
  tagStart : Nat
  depth : Nat
  deriving DecidableEq, Repr

/-- `seen` characters were passed; the depth counts the tabs before the first other character. -/
def findTag (seen lineStart depth : Nat) (leading : Bool) : List Char → Option TagLine
  | [] => none
  | c :: cs =>
    if isNameChar c then some ⟨lineStart, seen, depth⟩
    else if c = '\n' then findTag (seen + 1) (seen + 1) 0 true cs
    else if leading ∧ c = '\t' then findTag (seen + 1) lineStart (depth + 1) true cs
    else findTag (seen + 1) lineStart depth (leading && c == ' ') cs

/-- Distance to the first line start with at most `level` tabs. -/
def blockLength (level : Nat) : (atLineStart : Bool) → List Char → Nat
  | _, [] => 0
  | atLineStart, c :: cs =>
    if atLineStart ∧ leadingTabs (c :: cs) ≤ level then 0
    else blockLength level (c == '\n') cs + 1

def nonempty (cs : List Char) : Option String :=
  if cs.isEmpty then none else some (String.ofList cs)

namespace Scanner

/-- Takes a text block: the rest of the line and the deeper lines below it. -/
def takeBlock (s : Scanner) (level : Nat) : Option String × Scanner :=
  let body := s.rest.drop 1
  let n := blockLength level (s.rest.head? = some '\n') body
  (nonempty (dedent (level + 1) (body.take (n - 1))), s.skip n)

/-- Takes the text that follows a single blank on the line. -/
def takeInline (s : Scanner) : Option String × Scanner :=
  let line := s.rest.takeWhile (· != '\n')
  (if line.head? = some ' ' then nonempty (line.drop 1) else none, s.skip line.length)

end Scanner

/-- Reads siblings up to a line above their level, which is left unread. -/
def readSiblings : (fuel : Nat) → (level : Nat) → Scanner →
    Except Unclosed (List Element × Scanner)
  | 0, _, s => .ok ([], s)
  | fuel + 1, level, s =>
    match findTag 0 0 0 true s.rest with
    | none => .ok ([], s.skip s.rest.length)
    | some line =>
      if line.depth < level then .ok ([], s.skip line.lineStart)
      else do
        let (tag, s) := (s.skip line.tagStart).takeWhile isNameChar
        let (span, s) ← s.takeSpan
        let modifiers := Modifiers.ofSpan span
        let (text, s) := if modifiers.textBlock then s.takeBlock level else s.takeInline
        let (children, s) ←
          if modifiers.textBlock then .ok ([], s) else readSiblings fuel (level + 1) s
        let el : Element :=
          { tag := String.ofList tag
            attributes := modifiers.attributes
            classes := modifiers.classes
            id := modifiers.id
            text := text
            children := children }
        let (siblings, s) ← readSiblings fuel level s
        .ok (el :: siblings, s)

/-- Every element takes at least one character, so the length bounds the recursion. -/
def readForest (level : Nat) (s : Scanner) : Except Unclosed (List Element × Scanner) :=
  readSiblings (s.rest.length + 1) level s

/-- Reads the elements at a level and tells the offset where reading stopped. -/
def read (source : List Char) (level start : Nat) : Except Unclosed (List Element × Nat) := do
  let (elements, s) ← readForest level { text := normalize source, pos := start }
  .ok (elements, s.pos)

end Pagewright.Outline
