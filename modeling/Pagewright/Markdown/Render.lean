import Pagewright.Markdown.BlockReader
import Pagewright.Markdown.Inline

/-! Rendering the text of an element as Markdown. -/
namespace Pagewright.Markdown

def html (text : List Char) : List Char :=
  if (Text.trim text).isEmpty then []
  else
    let source := Source.ofText text
    let root := Block.ofText (closeNumbers 1 0 (Text.unlines source.lines))
    match (root.span source.lifted).layOut with
    | .mk _ _ _ content => Text.trim (printPieces [] content)

def paragraphStart : List Char := "<p>".toList

def paragraphEnd : List Char := "</p>".toList

/-- A single paragraph is written without its tags, since the element around it is one. -/
def unwrap (html : List Char) : List Char :=
  let inner := (html.drop paragraphStart.length).take
    (html.length - paragraphStart.length - paragraphEnd.length)
  if html = paragraphStart ++ inner ++ paragraphEnd ∧ !Text.contains paragraphStart inner then inner
  else html

def render (text : String) : String := String.ofList (unwrap (html text.toList))

end Pagewright.Markdown
