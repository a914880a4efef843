import Pagewright.Markdown.Piece

/-! Emphasis by runs of asterisks and low lines, nested as the runs open and close. -/
namespace Pagewright.Markdown.Emphasis

/-- Equal marks in a row between two pieces. -/
structure Run where
  sign : Char
  length : Nat
  /-- The length before some of the marks were used up. -/
  whole : Nat
  before : Option Piece
  after : Option Piece

def marks (sign : Char) (count : Nat) : List Piece := List.replicate count (.char sign)

namespace Run

def isText (p? : Option Piece) : Bool := p?.any (!·.isBlank)

/-- Low lines mark nothing on the side of a word. -/
def inWord (r : Run) (p? : Option Piece) : Bool := r.sign == '_' && p?.any Piece.isWord

def opens (r : Run) : Bool := isText r.after && !r.inWord r.before

def closes (r : Run) : Bool := isText r.before && !r.inWord r.after

/-- What is left of a run that has closed something can only open. -/
def isAmbiguous (r : Run) : Bool := r.length == r.whole && r.opens && r.closes

end Run

/-- A text in runs, and what stands between them. -/
inductive Token where
  | text (ps : List Piece)
  | run (r : Run)

namespace Token

def sign? (p : Piece) : Option Char := p.char?.filter fun c => c == '*' || c == '_'

/-- Cuts a text at the ends of its runs. -/
def cut (ps : List Piece) : List (List Piece) :=
  ps.splitBy fun p q => sign? p == sign? q

/-- The tokens of a text that has been cut, after a piece. -/
def ofParts (before : Option Piece) : List (List Piece) → List Token
  | [] => []
  | ps :: rest =>
    let token := match ps.head?.bind sign? with
      | some sign =>
        .run { sign, length := ps.length, whole := ps.length, before, after := rest.head?.bind List.head? }
      | none => .text ps
    token :: ofParts ps.getLast? rest

def ofPieces (ps : List Piece) : List Token := ofParts none (cut ps)

def pieces : Token → List Piece
  | text ps => ps
  | run r => marks r.sign r.length

/-- What is left of a token behind so many of its pieces. -/
def behind (count : Nat) : Token → Option Token
  | text ps => if ps.length ≤ count then none else some (text (ps.drop count))
  | run r => if r.length ≤ count then none else some (run { r with length := r.length - count })

def drop (count : Nat) : List Token → List Token
  | [] => []
  | t :: rest =>
    match t.behind count with
    | some t => t :: rest
    | none => drop (count - t.pieces.length) rest

end Token

def element (tag : String) (content : List Piece) : Piece := .span (.mk tag [] false content)

/-- Content inside the elements that marks make: each two marks are strong, one is emphasis, and
three are emphasis that is strong. -/
def wrap : (marks : Nat) → List Piece → List Piece
  | 0, content => content
  | 1, content => [element "em" content]
  | 3, content => [element "strong" [element "em" content]]
  | count + 2, content => wrap count [element "strong" content]

/-- Something inside a run that has opened. -/
inductive Item where
  | piece (p : Piece)
  /-- Elements that have been closed, the pieces they were made of, and the tokens after them. -/
  | closed (shown source : List Piece) (rest : List Token)

namespace Item

def pieces : Item → List Piece
  | piece p => [p]
  | closed shown .. => shown

def isClosed : Item → Bool
  | piece _ => false
  | closed .. => true

def undo : Item → Item
  | piece p => piece p
  | closed _ source rest => closed source source rest

end Item

/-- A run that has opened emphasis. -/
structure Opening where
  run : Run
  /-- Marks that are still to be closed. -/
  left : Nat
  /-- Marks that stay text. -/
  spare : Nat := 0
  /-- Some of the marks have been closed. -/
  isPart : Bool := false
  /-- What stands after the marks, last item first. -/
  inside : List Item := []

namespace Opening

def ofRun (r : Run) : Opening := { run := r, left := r.length }

def isFirm (o : Opening) : Bool := !o.run.isAmbiguous || o.isPart

/-- Only asterisks with nothing closed after them can be cut short. -/
def canCut (o : Opening) : Bool := o.run.sign == '*' && !o.inside.any Item.isClosed

/-- An ambiguous run that is closed by fewer marks has three to close and no more, or as many as
close it; of two it has one. The others stay text. -/
def cutFor (count : Nat) (o : Opening) : Opening :=
  if o.isFirm || o.left ≤ count || o.left == 3 then o
  else
    let left := if o.left = 2 then 1 else max 3 count
    { o with left, spare := o.left - left }

/-- The marks and what stands after them, last item first. -/
def items (o : Opening) : List Item :=
  o.inside ++ (marks o.run.sign (o.spare + o.left)).map .piece

/-- A run that was cut short and that two marks or more were missing to has closed nothing. -/
def settled (o : Opening) : List Item :=
  if 0 < o.spare && 2 ≤ o.left then
    { o with inside := o.inside.dropLast ++ o.inside.getLast?.toList.map Item.undo }.items
  else o.items

/-- Whether so many marks of an ambiguous run close this one. Two and one are taken apart, unless
the one is what is left of three or of a run that was closed in part. One mark or two may close a
part of three marks or more. -/
def yieldsTo (r : Run) (count : Nat) (isInnermost : Bool) (o : Opening) : Bool :=
  if o.left = count then true
  else if o.left < count then 3 ≤ r.length || o.isPart || o.run.whole == 3
  else
    count == r.length && count < 3 && 3 ≤ o.left &&
      (o.isFirm || o.left == 3 || (isInnermost && o.canCut))

end Opening

/-- The open runs, innermost first, and what has been closed outside of them, last item first. -/
structure Reading where
  openings : List Opening
  outside : List Item := []
  /-- How many of the next pieces have been taken for marks. -/
  skip : Nat := 0

namespace Reading

def add (items : List Item) (s : Reading) : Reading :=
  match s.openings with
  | [] => { s with outside := items ++ s.outside }
  | o :: rest => { s with openings := { o with inside := items ++ o.inside } :: rest }

def addPieces (ps : List Piece) (s : Reading) : Reading := s.add (ps.map .piece).reverse

/-- Closes `used` marks of an open run with the next `count` marks of a run. Those inside it have
opened nothing. Marks that a run does not have are taken from what follows. Where a longer run
closes the last three marks of a run closed in part, two of them are text as well. -/
def close (r : Run) (rest : List Token) (index used count : Nat) (s : Reading) : Reading :=
  match s.openings.drop index with
  | [] => s
  | o :: below =>
    let inner := (s.openings.take index).flatMap Opening.settled ++ o.inside
    let content := inner.reverse.flatMap Item.pieces
    let shown :=
      if o.isPart && used == 3 && 3 < count then
        [element "strong" (element "em" content :: marks r.sign 2)]
      else wrap used content
    let source := marks r.sign used ++ content ++ marks r.sign used
    let leftover := { r with length := count - used, before := shown.head? }
    let after := if used < count then .run leftover :: rest else Token.drop (used - count) rest
    let item := Item.closed shown source after
    if used < o.left then
      { s with openings := { o with left := o.left - used, isPart := true, inside := [item] } :: below }
    else { s with openings := below }.add (item :: (marks r.sign o.spare).map .piece)

/-- Cuts an open run short where it has to be, and closes as much of it as there are marks. -/
def closeCut (r : Run) (rest : List Token) (index count : Nat) (s : Reading) : Nat × Reading :=
  let s := { s with openings := s.openings.modify index (Opening.cutFor count) }
  let used := min count ((s.openings[index]?.map Opening.left).getD 0)
  (count - used, s.close r rest index used count)

def isSame (r : Run) (o : Opening) : Bool := o.run.sign == r.sign

/-- An ambiguous run closes the innermost runs of its sign that yield to it. If the first does not,
but another is as long as the run, the first is closed nevertheless, and no mark is left. -/
def closeAmbiguous (r : Run) (rest : List Token) : (fuel count : Nat) → Reading → Nat × Reading
  | 0, count, s => (count, s)
  | _, 0, s => (0, s)
  | fuel + 1, count, s =>
    match s.openings.findIdx? (isSame r), s.openings.find? (isSame r) with
    | some index, some o =>
      if o.yieldsTo r count (index == 0) then
        let (count, s) := s.closeCut r rest index count
        closeAmbiguous r rest fuel count s
      else if count = r.length ∧ s.openings.any fun o => isSame r o && o.left == count then
        let s := s.close r rest index o.left count
        (0, { s.addPieces (marks r.sign (count - o.left)) with skip := o.left - count })
      else (count, s)
    | _, _ => (count, s)

/-- The run that is closed by so many marks of one that only closes: the innermost of its sign, if
it is firm or has three marks, or no more than there are. Others are passed over in favour of a firm
one; without it, asterisks are cut short, if nothing came between. -/
def target? (r : Run) (count : Nat) (hasFirm : Bool) : (index : Nat) → List Opening → Option Nat
  | _, [] => none
  | index, o :: rest =>
    if !isSame r o then target? r count hasFirm (index + 1) rest
    else if o.isFirm || o.left ≤ count || o.left == 3 then some index
    else if hasFirm || r.sign == '_' then target? r count hasFirm (index + 1) rest
    else if count == r.length && index == 0 && o.canCut then some index
    else none

def closeDefinite (r : Run) (rest : List Token) : (fuel count : Nat) → Reading → Nat × Reading
  | 0, count, s => (count, s)
  | _, 0, s => (0, s)
  | fuel + 1, count, s =>
    let hasFirm := s.openings.any fun o => isSame r o && !o.run.isAmbiguous
    match target? r count hasFirm 0 s.openings with
    | none => (count, s)
    | some index =>
      let (count, s) := s.closeCut r rest index count
      closeDefinite r rest fuel count s

/-- A run that has lost marks to the one before still closes as a whole. -/
def step (t : Token) (rest : List Token) (s : Reading) : Reading :=
  let lost := s.skip
  let s := { s with skip := lost - t.pieces.length }
  match t with
  | .text ps => s.addPieces (ps.drop lost)
  | .run r =>
    let (count, s) :=
      if r.opens && r.closes then s.closeAmbiguous r rest r.length r.length
      else if r.closes then s.closeDefinite r rest r.length r.length
      else (r.length, s)
    let count := if count = r.length then count - lost else count
    if s.openings.isEmpty || count = 0 then s
    else if r.opens then
      { s with openings := .ofRun { r with length := count } :: s.openings }
    else s.addPieces (marks r.sign count)

/-- Reads on until every open run is closed. -/
def scan : List Token → Reading → Reading
  | [], s => s
  | t :: rest, s =>
    let s := step t rest s
    if s.openings.isEmpty then s else scan rest s

/-- All that was read, last item first. The outermost run is closed as far as it got. -/
def items (s : Reading) : List Item :=
  match s.openings.reverse with
  | [] => s.outside
  | outermost :: inner => inner.reverse.flatMap Opening.settled ++ outermost.items ++ s.outside

/-- The pieces up to the end of the first element, and the tokens after it. -/
def first? (s : Reading) : Option (List Piece × List Token) :=
  let items := s.items.reverse
  let before := items.takeWhile (!·.isClosed)
  match items.drop before.length with
  | .closed shown _ rest :: _ => some (before.flatMap Item.pieces ++ shown, rest)
  | _ => none

end Reading

/-- Each run that opens is read as the outermost; the text goes on behind the first element found
in it. Where there is none, there is none further on. -/
def readTokens : (fuel : Nat) → List Token → List Piece
  | 0, tokens => tokens.flatMap Token.pieces
  | _, [] => []
  | fuel + 1, .text ps :: rest => ps ++ readTokens fuel rest
  | fuel + 1, .run r :: rest =>
    if r.opens then
      match (Reading.scan rest { openings := [.ofRun r] }).first? with
      | some (ps, rest) => ps ++ readTokens fuel rest
      | none => (Token.run r :: rest).flatMap Token.pieces
    else marks r.sign r.length ++ readTokens fuel rest

/-- The text with its emphasis in place. -/
def read (ps : List Piece) : List Piece := readTokens (ps.length + 1) (Token.ofPieces ps)

end Pagewright.Markdown.Emphasis
