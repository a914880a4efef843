import Pagewright.Text.Position
import Pagewright.Outline.Nesting

/-! A reading position in a text, and the steps that move it forward. -/
namespace Pagewright.Outline

/-- A bracket or quote that is never closed, at the position where its span begins. -/
structure Unclosed where
  position : Text.Position
  deriving DecidableEq, Repr

def Unclosed.message (e : Unclosed) : String :=
  s!"Spell Compile Error ({e.position.line}:{e.position.column}): Unmatched nest"

/-- The position may lie past the end; nothing is left to read there. -/
structure Scanner where
  text : List Char
  pos : Nat := 0
  rest : List Char := text.drop pos
  rest_eq : rest = text.drop pos := by rfl

def isNameChar (c : Char) : Bool :=
  ('a' ≤ c && c ≤ 'z') || ('A' ≤ c && c ≤ 'Z') || ('0' ≤ c && c ≤ '9') || c == '_' || c == '-'

namespace Scanner

def atEnd (s : Scanner) : Bool := s.rest.isEmpty

/-- The character at a distance from the position, forward or backward. -/
def peek? (s : Scanner) (offset : Int) : Option Char :=
  let i := (s.pos : Int) + offset
  if 0 ≤ i then s.text[i.toNat]? else none

/-- Moves past `n` characters, of which there may be fewer. -/
def skip (s : Scanner) (n : Nat) : Scanner where
  text := s.text
  pos := s.pos + n
  rest := s.rest.drop n
  rest_eq := by rw [s.rest_eq, List.drop_drop]

/-- Takes up to `n` characters and stops at the end of the text. -/
def advance (s : Scanner) (n : Nat) : List Char × Scanner :=
  (s.rest.take n, { text := s.text, pos := min (s.pos + n) s.text.length })

/-- Offset of the next line end, or the length of the text. -/
def lineEnd (s : Scanner) : Nat :=
  match s.rest.findIdx? (· == '\n') with
  | some n => s.pos + n
  | none => s.text.length

def takeWhile (s : Scanner) (p : Char → Bool) : List Char × Scanner :=
  let run := s.rest.takeWhile p
  (run, s.skip run.length)

/-- Takes a span that ends before the first free blank or line end. -/
def takeSpan (s : Scanner) : Except Unclosed (List Char × Scanner) :=
  match Nesting.spanLength? {} s.rest with
  | some n => .ok (s.rest.take n, s.skip n)
  | none => .error ⟨.ofOffset s.text s.pos⟩

/-- A scanner that finds no span stays where it is. -/
def trySpan (s : Scanner) : Except Unclosed (List Char) × Scanner :=
  match s.takeSpan with
  | .ok (span, s') => (.ok span, s')
  | .error e => (.error e, s)

end Scanner

end Pagewright.Outline
