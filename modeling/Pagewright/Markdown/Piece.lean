import Pagewright.Text.Blank
import Pagewright.Text.Word

/-! Inline content: characters that marks are looked for in, and pieces already understood. -/
namespace Pagewright.Markdown

mutual

inductive Piece where
  | char (c : Char)
  /-- A character that a backslash has made plain. -/
  | escaped (c : Char)
  /-- Written as it stands. -/
  | raw (html : List Char)
  | span (s : Span)

/-- The content of a literal span is not looked into. -/
inductive Span where
  | mk (tag : String) (attributes : List (String × List Piece)) (literal : Bool)
    (content : List Piece)

end

namespace Piece

def char? : Piece → Option Char
  | char c => some c
  | _ => none

def isChar (c : Char) (p : Piece) : Bool := p.char? == some c

def isBlank (p : Piece) : Bool := p.char?.any Text.isBlank

def isWord (p : Piece) : Bool := p.char?.any Text.isWord

def isSpan : Piece → Bool
  | span _ => true
  | _ => false

def ofChars (cs : List Char) : List Piece := cs.map char

def trim (ps : List Piece) : List Piece :=
  ((ps.dropWhile isBlank).reverse.dropWhile isBlank).reverse

end Piece

mutual

/-- The text of a piece without any element around it. -/
def Piece.plain : Piece → List Piece
  | .span (.mk _ _ _ content) => plainAll content
  | p => [p]

def plainAll : List Piece → List Piece
  | [] => []
  | p :: rest => p.plain ++ plainAll rest

end

/-- The pieces before the first span, and each span with the pieces up to the next. -/
def runs : List Piece → List Piece × List (Span × List Piece)
  | [] => ([], [])
  | p :: rest =>
    let (lead, spans) := runs rest
    match p with
    | .span s => ([], (s, lead) :: spans)
    | p => (p :: lead, spans)

/-- What a rule finds ahead: pieces to put in place, or an element with text to read on in. -/
inductive Found where
  | pieces (ps : List Piece)
  | element (tag : String) (attributes : List (String × List Piece)) (text : List Piece)

/-- Looks at the pieces behind, nearest first, and ahead; tells what is left ahead. -/
abbrev Look := List Piece → List Piece → Option (Found × List Piece)

/-- Replaces the first place that a rule accepts. -/
abbrev InlineRule := List Piece → Option (List Piece × Found × List Piece)

def Look.firstFrom (look : Look) (behind : List Piece) : List Piece →
    Option (List Piece × Found × List Piece)
  | [] => none
  | p :: rest =>
    match look behind (p :: rest) with
    | some (found, after) => some (behind.reverse, found, after)
    | none => firstFrom look (p :: behind) rest

def Look.rule (look : Look) : InlineRule := look.firstFrom []

/-- The shortest run of at least `least` pieces after which `next` succeeds. -/
def shortest {α : Type} (next : List Piece → List Piece → Option α) :
    (least : Nat) → (behind ahead : List Piece) → Option (List Piece × α)
  | least, behind, ahead =>
    match if least = 0 then next behind ahead else none with
    | some a => some ([], a)
    | none =>
      match ahead with
      | [] => none
      | p :: rest => (shortest next (least - 1) (p :: behind) rest).map fun (t, a) => (p :: t, a)

end Pagewright.Markdown
