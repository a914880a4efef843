import Pagewright.Text.Blank
import Pagewright.Text.Lines
import Pagewright.Text.Word

/-! The shapes of lines that begin a block or divide one. -/
namespace Pagewright.Markdown

abbrev Line := List Char

namespace Line

def indent (line : Line) : Nat := (line.takeWhile (· == ' ')).length

/-- Four spaces are one level. -/
def isIndented (line : Line) : Bool := 4 ≤ indent line

/-- Takes whole levels off a line that has them. -/
def outdent (levels : Nat) (line : Line) : Line :=
  if 4 * levels ≤ indent line then line.drop (4 * levels) else line

/-- What follows at most three spaces. -/
def unindent? (line : Line) : Option Line :=
  if indent line ≤ 3 then some (line.drop (indent line)) else none

/-- Three or more equal marks, at most two spaces apart, and nothing else. -/
def isRule (line : Line) : Bool :=
  match unindent? line with
  | none => false
  | some body =>
    let body := Text.dropEndWhile (· == ' ') body
    ['-', '_', '*'].any fun c =>
      body.head? == some c && 3 ≤ body.count c && body.all (fun d => d == c || d == ' ') &&
      !Text.contains [' ', ' ', ' '] body

def bullet? (line : Line) : Option Line :=
  match line with
  | c :: rest => if c = '*' ∨ c = '+' ∨ c = '-' then some rest else none
  | [] => none

def number? (line : Line) : Option Line :=
  let digits := line.takeWhile Text.isDigit
  match digits, line.drop digits.length with
  | _ :: _, '.' :: rest => some rest
  | _, _ => none

/-- The content of a list item behind its mark and at least one space. -/
def content? (mark? : Line → Option Line) (line : Line) : Option Line := do
  let rest ← mark? line
  if rest.head? = some ' ' then some (rest.dropWhile (· == ' ')) else none

def bulletItem? (line : Line) : Option Line := unindent? line >>= content? bullet?

def numberItem? (line : Line) : Option Line := unindent? line >>= content? number?

def item? (line : Line) : Option Line := numberItem? line <|> bulletItem? line

/-- An item one level deeper. -/
def isDeeperItem (line : Line) : Bool :=
  4 ≤ indent line && indent line ≤ 7 && (item? (line.drop (indent line))).isSome

/-- What is quoted behind the sign and one optional space. -/
def quoted? (line : Line) : Option Line := do
  match ← unindent? line with
  | '>' :: ' ' :: rest => some rest
  | '>' :: rest => some rest
  | _ => none

def unquote (line : Line) : Line :=
  if Text.trim line = ['>'] then [] else (quoted? line).getD line

/-- Text of a heading without the number signs at its end. A backslash takes the character
after it along, so none may stand alone at the end. -/
def headingText? : Line → Option Line
  | [] => some []
  | ['\\'] => none
  | '\\' :: c :: cs => (headingText? cs).map ('\\' :: c :: ·)
  | c :: cs => if (c :: cs).all (· == '#') then some [] else (headingText? cs).map (c :: ·)

/-- Level and text of a heading with up to six number signs. -/
def heading? (line : Line) : Option (Nat × Line) := do
  let level := min 6 (line.takeWhile (· == '#')).length
  if level = 0 then none
  else
    let text ← headingText? (line.drop level)
    some (level, Text.trim text)

/-- A line under a heading: equals signs alone or hyphens alone, then spaces. -/
def isUnderline (line : Line) : Bool :=
  ['=', '-'].any fun sign =>
    let rest := line.dropWhile (· == sign)
    rest.length < line.length && rest.all (· == ' ')

end Line

/-- The lines before, at and after the first that a reader accepts. -/
def findLine? {α : Type} (read? : Line → Option α) :
    List Line → Option (List Line × α × List Line)
  | [] => none
  | line :: rest =>
    match read? line with
    | some a => some ([], a, rest)
    | none => (findLine? read? rest).map fun (before, a, after) => (line :: before, a, after)

end Pagewright.Markdown
