/-! Lines and columns of character offsets, both counted from one. -/
namespace Pagewright.Text

structure Position where
  line : Nat
  column : Nat
  deriving DecidableEq, Repr

/-- Offset at which the last line of a text begins. -/
def lastLineStart (cs : List Char) : Nat :=
  cs.length - (cs.reverse.takeWhile (· != '\n')).length

/-- An offset past the end lies on the last line, as if that line went on. -/
def Position.ofOffset (text : List Char) (offset : Nat) : Position :=
  let before := text.take offset
  { line := before.count '\n' + 1
    column := offset - lastLineStart before + 1 }

end Pagewright.Text
