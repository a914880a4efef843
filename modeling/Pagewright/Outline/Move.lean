import Pagewright.Outline.Scanner

/-! The steps of a scanner one after the other, each with its answer. -/
namespace Pagewright.Outline

inductive Move where
  | peek (offset : Int)
  | advance (n : Nat)
  | atEnd
  | lineEnd
  | takeWhile (p : Char → Bool)
  | span

inductive Answer where
  | char (c? : Option Char)
  | flag (b : Bool)
  | offset (n : Nat)
  | text (cs : List Char)
  | failed (e : Unclosed)

/-- The characters that a step hands out. -/
def Answer.taken : Answer → List Char
  | .text cs => cs
  | _ => []

namespace Scanner

/-- A step that fails has an answer too, and others may follow it. -/
def perform (s : Scanner) : Move → Answer × Scanner
  | .peek offset => (.char (s.peek? offset), s)
  | .advance n => (.text (s.advance n).1, (s.advance n).2)
  | .atEnd => (.flag s.atEnd, s)
  | .lineEnd => (.offset s.lineEnd, s)
  | .takeWhile p => (.text (s.takeWhile p).1, (s.takeWhile p).2)
  | .span =>
    match s.trySpan with
    | (.ok span, s') => (.text span, s')
    | (.error e, s') => (.failed e, s')

def run (s : Scanner) : List Move → List Answer × Scanner
  | [] => ([], s)
  | move :: moves =>
    let (answer, s) := s.perform move
    let (answers, s) := s.run moves
    (answer :: answers, s)

end Scanner

end Pagewright.Outline
