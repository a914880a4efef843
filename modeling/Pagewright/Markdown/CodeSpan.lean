import Pagewright.Markdown.Piece
import Pagewright.Markdown.Source

/-! Code spans: code between two runs of as many backticks. -/
namespace Pagewright.Markdown.CodeSpan

def isTick (p : Piece) : Bool := p.isChar '\x60'

def isSlash (p : Piece) : Bool := p.isChar '\\'

def tickCount (ps : List Piece) : Nat := (ps.takeWhile isTick).length

/-- Length of the longest run of backticks, with `run` of them directly behind. -/
def longestRun (run : Nat) : List Piece → Nat
  | [] => run
  | p :: rest => if isTick p then longestRun (run + 1) rest else max run (longestRun 0 rest)

/-- The code up to a run of exactly `n` backticks, at least one other piece before it. -/
def takeCode (n : Nat) (ahead : List Piece) : Option (List Piece × List Piece) :=
  shortest (fun behind ahead =>
    if behind.head?.any isTick || tickCount ahead ≠ n then none else some (ahead.drop n)) 1 [] ahead

def span (code : List Piece) : Piece :=
  let written := (Piece.trim code).flatMap fun p => match p with
    | .char c => Piece.ofChars (escapeCode [c])
    | p => [p]
  .span (.mk "code" [] true written)

/-- What a run of backticks begins, and how many pieces belong to it. -/
inductive Start where
  | code (content : List Piece) (length : Nat)
  | plain (length : Nat)

/-- A run opens code with as many of its backticks as some run after it has. If none has exactly
that many, the run is text, and so are as many pieces after it. -/
def Start.ofRun (ps : List Piece) : Start :=
  let n := tickCount ps
  let opening := min n (longestRun 0 (ps.drop n))
  if opening = 0 then .plain n
  else match takeCode opening (ps.drop opening) with
    | some (content, after) => .code content (ps.length - after.length)
    | none => .plain (2 * n)

/-- Puts code spans in place, from left to right. Some pieces are gone already, and some are text.
A backslash takes its meaning from a backtick after it, unless it stands behind another one itself;
pairs of backslashes before a backtick are backslashes. -/
def readFrom (gone text : Nat) (behind? : Option Piece) : List Piece → List Piece
  | [] => []
  | p :: rest =>
    match gone, text with
    | gone + 1, text => readFrom gone text behind? rest
    | 0, text + 1 => p :: readFrom 0 text (some p) rest
    | 0, 0 =>
      if behind?.any isSlash then p :: readFrom 0 0 (some p) rest
      else if isSlash p then
        let more := (rest.takeWhile isSlash).length
        if more % 2 = 1 ∧ (rest.drop more).head?.any isTick then
          List.replicate ((more + 1) / 2) (.escaped '\\') ++ readFrom more 0 none rest
        else p :: readFrom 0 0 (some p) rest
      else if isTick p then
        match Start.ofRun (p :: rest) with
        | .code content length => span content :: readFrom (length - 1) 0 none rest
        | .plain length => p :: readFrom 0 (length - 1) (some p) rest
      else p :: readFrom 0 0 (some p) rest

def read (ps : List Piece) : List Piece := readFrom 0 0 none ps

end Pagewright.Markdown.CodeSpan
