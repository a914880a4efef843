import Pagewright.Text.Lines
import Pagewright.Text.Word
import Pagewright.Markdown.Printer

/-! Preparing Markdown: line ends, tabs, blank lines, and fenced code lifted out of the text. -/
namespace Pagewright.Markdown

/-- The two control characters around the number of a lifted fence; text never holds them. -/
def markStart : Char := '\x02'

def markEnd : Char := '\x03'

/-- Every kind of line end becomes a newline. -/
def unifyLines : List Char → List Char
  | [] => []
  | '\r' :: '\n' :: cs => '\n' :: unifyLines cs
  | c :: cs => (if c = '\r' then '\n' else c) :: unifyLines cs

/-- A tab reaches to the next multiple of four columns. -/
def expandTabs (column : Nat) : List Char → List Char
  | [] => []
  | c :: cs =>
    if c = '\n' then c :: expandTabs 0 cs
    else if c = '\t' then
      List.replicate (4 - column % 4) ' ' ++ expandTabs (column + (4 - column % 4)) cs
    else c :: expandTabs (column + 1) cs

/-- Lines of spaces are empty lines, the first line apart. -/
def clearLines : List (List Char) → List (List Char)
  | [] => []
  | first :: rest => first :: rest.map fun line => if line.all (· == ' ') then [] else line

def escapeCode (cs : List Char) : List Char :=
  cs.flatMap fun c =>
    match c with
    | '&' => "&amp;".toList
    | '<' => "&lt;".toList
    | '>' => "&gt;".toList
    | c => [c]

/-- What stands on the line that opens a fence: its marks, and how the code is labelled. -/
structure Fence where
  marks : List Char
  language : List Char := []
  classes : List (List Char) := []
  id : List Char := []

namespace Fence

def isLanguageChar (c : Char) : Bool :=
  Text.isWord c || c == '#' || c == '.' || c == '+' || c == '-'

/-- A label: a key with a value, or a word, which is its own value. Words with a full stop are
classes, words with a number sign are names. -/
def takeLabel? (cs : List Char) : Option ((List Char × List Char) × List Char) :=
  let isPart (c : Char) : Bool := c != ' ' && c != '=' && c != '\x7d'
  let key := cs.takeWhile isPart
  let rest := cs.drop key.length
  let quoted? : Option ((List Char × List Char) × List Char) :=
    match rest with
    | '=' :: quote :: rest =>
      let value := rest.takeWhile (· != quote)
      if (quote == '"' || quote == '\'') && value.length < rest.length then
        some ((key, value), rest.drop (value.length + 1))
      else none
    | _ => none
  let plain? : Option ((List Char × List Char) × List Char) :=
    let value := (rest.drop 1).takeWhile isPart
    if rest.head? = some '=' ∧ !value.isEmpty then
      some ((key, value), rest.drop (value.length + 1))
    else none
  let word :=
    match key with
    | '.' :: name => (['.'], name)
    | '#' :: name => ("id".toList, name)
    | key => (key, key)
  if key.isEmpty then none else quoted? <|> plain? <|> some (word, rest)

/-- The labels in braces up to a character that can begin none. A brace from there on makes it no
fence. -/
def labels? : (fuel : Nat) → List Char → Option (List (List Char × List Char))
  | 0, _ => some []
  | _, [] => some []
  | fuel + 1, c :: cs =>
    if c = ' ' then labels? fuel cs
    else
      match takeLabel? (c :: cs) with
      | some (label, rest) => (labels? fuel rest).map (label :: ·)
      | none => if (c :: cs).contains '\x7d' then none else some []

/-- The first of the classes is the language. -/
def withLabels (f : Fence) (labels : List (List Char × List Char)) : Fence :=
  let named (key : String) :=
    labels.filterMap fun (k, v) => if k = key.toList then some v else none
  { f with
    language := (named ".").headD []
    classes := (named ".").drop 1
    id := (named "id").getLastD [] }

/-- A note that some lines are to stand out is passed over. -/
def isHighlight (cs : List Char) : Bool :=
  let note := (cs.reverse.dropWhile (· == ' ')).reverse
  match note with
  | quote :: rest => (quote == '"' || quote == '\'') && rest.getLast? == some quote
  | [] => false

/-- The language of a fence without braces. -/
def language? (info : List Char) : Option (List Char) :=
  let head := info.takeWhile (· != '=')
  let name := "hl_lines".toList
  let info? :=
    if head.length = info.length then some info
    else if name.isSuffixOf head && isHighlight (info.drop (head.length + 1)) then
      some (head.take (head.length - name.length))
    else none
  info?.bind fun info =>
    let info := if info.head? = some '.' then info.drop 1 else info
    let language := info.takeWhile isLanguageChar
    if (info.drop language.length).all (· == ' ') then some language else none

def ofLine? (line : List Char) : Option Fence := do
  let c ← line.head?
  let marks := line.takeWhile (· == c)
  if (c != '\x60' && c != '~') || marks.length < 3 then none
  let info := (line.drop marks.length).dropWhile (· == ' ')
  if info.head? = some '\x7b' then
    if info.getLast? != some '\x7d' then none
    let labels := (info.drop 1).dropLast
    return withLabels { marks } (← labels? (labels.length + 1) labels)
  else return { marks, language := ← language? info }

def isClosedBy (f : Fence) (line : List Char) : Bool :=
  Text.startsWith f.marks line && (line.drop f.marks.length).all (· == ' ')

def html (f : Fence) (code : List (List Char)) : List Char :=
  let quoted (name : String) (value : List Char) : List Char :=
    if value.isEmpty then []
    else ' ' :: name.toList ++ "=\"".toList ++ escapeText true value ++ ['"']
  let language := if f.language.isEmpty then [] else "language-".toList ++ f.language
  let body := (code.flatMap fun line => escapeCode line ++ ['\n']).flatMap fun c =>
    if c = '"' then "&quot;".toList else [c]
  "<pre".toList ++ quoted "id" f.id ++ quoted "class" (Text.joinWith ' ' f.classes) ++
    "><code".toList ++ quoted "class" language ++ ['>'] ++ body ++ "</code></pre>".toList

/-- The code up to the closing line, and the lines after it. -/
def close? (f : Fence) : List (List Char) → Option (List (List Char) × List (List Char))
  | [] => none
  | line :: rest =>
    if f.isClosedBy line then some ([], rest)
    else (f.close? rest).map fun (code, rest) => (line :: code, rest)

end Fence

structure Source where
  lines : List (List Char)
  /-- HTML of the fences, in their order. -/
  lifted : List (List Char)

def mark (n : Nat) : List Char := markStart :: (toString n).toList ++ [markEnd]

/-- A fence that is never closed is ordinary text. Every other leaves its mark on a line between
two empty ones; `skip` lines belong to a fence already lifted. -/
def liftFences (count : Nat) : (skip : Nat) → List (List Char) → Source
  | _, [] => ⟨[], []⟩
  | skip + 1, _ :: rest => liftFences count skip rest
  | 0, line :: rest =>
    match (Fence.ofLine? line).bind fun f => (f.close? rest).map fun (code, _) => (f, code) with
    | some (f, code) =>
      let s := liftFences (count + 1) (code.length + 1) rest
      { lines := [] :: mark count :: [] :: s.lines, lifted := f.html code :: s.lifted }
    | none =>
      let s := liftFences count 0 rest
      { s with lines := line :: s.lines }

def Source.ofText (cs : List Char) : Source :=
  let clean := unifyLines (cs.filter fun c => c != markStart && c != markEnd)
  liftFences 0 0 (clearLines (Text.lines (expandTabs 0 (clean ++ ['\n', '\n']))))

/-- The number of a character after its ampersand and sign, if no hexadecimal digit follows it. -/
def takeNumber? (cs : List Char) : Option (List Char × List Char) :=
  let start := cs.takeWhile fun c => c == 'x' || c == 'X'
  let body := cs.drop start.length
  let digits := body.takeWhile (if start.isEmpty then Char.isDigit else Text.isHexDigit)
  let rest := body.drop digits.length
  if start.length ≤ 1 && !digits.isEmpty && rest.head?.any (!Text.isHexDigit ·) then
    some (start ++ digits, rest)
  else none

/-- Puts semicolons after the numbers of characters, where they are missing. Signs without a number
are passed over as long as `chances` are left; after that all stays as it is. -/
def closeNumbers : (chances : Nat) → (skip : Nat) → List Char → List Char
  | _, _, [] => []
  | chances, skip + 1, _ :: cs => closeNumbers chances skip cs
  | chances, 0, '&' :: '#' :: cs =>
    match takeNumber? cs, chances with
    | some (number, rest), _ =>
      let closed := if rest.head? = some ';' then 1 else 0
      '&' :: '#' :: number ++ ';' :: closeNumbers chances (number.length + 1 + closed) ('#' :: cs)
    | none, 0 => '&' :: '#' :: cs
    | none, chances + 1 =>
      if cs.contains ';' then '&' :: closeNumbers chances 0 ('#' :: cs) else '&' :: '#' :: cs
  | chances, 0, c :: cs => c :: closeNumbers chances 0 cs

/-- Blocks of text stand between empty lines. -/
def splitBlocks : List Char → List (List Char)
  | [] => [[]]
  | '\n' :: '\n' :: cs => [] :: splitBlocks cs
  | c :: cs =>
    match splitBlocks cs with
    | [] => [[c]]
    | block :: rest => (c :: block) :: rest

end Pagewright.Markdown
