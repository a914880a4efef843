import Pagewright.Text.Blank
import Pagewright.Markdown.Block

/-! Tables: a header row, a row of dashes that aligns the columns, and rows of cells. -/
namespace Pagewright.Markdown.Table

def trimSpaces (cs : List Char) : List Char :=
  Text.dropEndWhile (· == ' ') (cs.dropWhile (· == ' '))

/-- A run of backticks in a row; a backslash before it does not count for its length. -/
structure Ticks where
  start : Nat
  stop : Nat
  size : Nat
  opens : Nat

/-- Where the pipes and the backticks of a row stand. -/
structure Marks where
  pipes : List Nat := []
  ticks : List Ticks := []

/-- A backslash hides a backslash or a pipe after it; before backticks it joins their run. -/
def marks (pos : Nat) : (fuel : Nat) → List Char → Marks
  | 0, _ => {}
  | _, [] => {}
  | fuel + 1, '\\' :: '\\' :: cs => marks (pos + 2) fuel cs
  | fuel + 1, '\\' :: '|' :: cs => marks (pos + 2) fuel cs
  | fuel + 1, '|' :: cs =>
    let m := marks (pos + 1) fuel cs
    { m with pipes := pos :: m.pipes }
  | fuel + 1, c :: cs =>
    let n := ((if c = '\\' then cs else c :: cs).takeWhile (· == '\x60')).length
    if n = 0 then marks (pos + 1) fuel cs
    else
      let escape := if c = '\\' then 1 else 0
      let m := marks (pos + n + escape) fuel ((c :: cs).drop (n + escape))
      let run : Ticks := ⟨pos, pos + n + escape - 1, n, n - escape⟩
      { m with ticks := run :: m.ticks }

/-- Regions of code: each run of backticks is closed by the next one of its size. -/
def regions : (fuel : Nat) → List Ticks → List (Nat × Nat)
  | 0, _ => []
  | _, [] => []
  | fuel + 1, t :: rest =>
    match rest.dropWhile (·.size != t.opens) with
    | close :: after =>
      if t.opens = 0 then regions fuel rest else (t.start, close.stop) :: regions fuel after
    | [] => regions fuel rest

def cutAtAll (pos : Nat) (cuts : List Nat) : List Char → List (List Char)
  | [] => [[]]
  | c :: cs =>
    let parts := cutAtAll (pos + 1) cuts cs
    if cuts.contains pos then [] :: parts
    else match parts with
      | [] => [[c]]
      | part :: rest => (c :: part) :: rest

/-- The cells between the pipes that stand outside code. -/
def splitCells (row : List Char) : List (List Char) :=
  let m := marks 0 row.length row
  let code := regions m.ticks.length m.ticks
  cutAtAll 0 (m.pipes.filter fun p => !code.any fun (a, b) => a ≤ p && p ≤ b) row

/-- Whether a row ends in a pipe that no backslash hides. -/
def endsInPipe (row : List Char) : Bool :=
  match row.reverse with
  | '|' :: rest => (rest.takeWhile (· == '\\')).length % 2 == 0
  | _ => false

/-- Pipes at the ends of a row are its border; backslashes before the last one go with it. -/
def cells (bordered : Bool) (row : List Char) : List (List Char) :=
  if bordered then
    let row := if row.head? = some '|' then row.drop 1 else row
    splitCells (if endsInPipe row then Text.dropEndWhile (· == '\\') row.dropLast else row)
  else splitCells row

def isBordered (row : List Char) : Bool := row.head? == some '|' || endsInPipe row

inductive Align where
  | left | right | center
  deriving DecidableEq

def Align.name : Align → String
  | .left => "left"
  | .right => "right"
  | .center => "center"

def Align.ofCell (cell : List Char) : Option Align :=
  let cell := trimSpaces cell
  match cell.head? == some ':', cell.getLast? == some ':' with
  | true, true => some .center
  | true, false => some .left
  | false, true => some .right
  | false, false => none

/-- The separator row of a table. A single column needs a border on every row. -/
def separator? (lines : List (List Char)) : Option (Bool × List (List Char)) :=
  match lines.map trimSpaces with
  | header :: second :: more =>
    let bordered := isBordered header
    let width := (cells bordered header).length
    let row := cells bordered second
    if (1 < width || (bordered && (second :: more).all isBordered)) && row.length == width &&
        row.all (·.all fun c => c == '|' || c == ':' || c == '-' || c == ' ') then
      some (bordered, row)
    else none
  | _ => none

def rowBlock (tag : String) (align : List (Option Align)) (texts : List (List Char)) : Block where
  tag := "tr"
  children := align.mapIdx fun i a =>
    { tag
      text := trimSpaces (texts.getD i [])
      attributes := match a with
        | some a => [("style", "text-align: " ++ a.name ++ ";")]
        | none => [] }

def ofLines? (lines : List (List Char)) : Option Block := do
  let (bordered, separator) ← separator? lines
  let align := separator.map Align.ofCell
  let row tag line := rowBlock tag align (cells bordered (trimSpaces line))
  let body := match lines.drop 2 with
    | [] => [rowBlock "td" (align.map fun _ => none) []]
    | rows => rows.map (row "td")
  some
    { tag := "table"
      children := [{ tag := "thead", children := [row "th" (lines.headD [])] },
        { tag := "tbody", children := body }] }

end Pagewright.Markdown.Table
