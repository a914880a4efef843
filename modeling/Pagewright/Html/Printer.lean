import Pagewright.Text.Lines
import Pagewright.Html.Element

/-! Writing elements as HTML, one sibling a line and each level one tab deeper. -/
namespace Pagewright

/-- A missing or empty value leaves the bare key. -/
def Attributes.print (attrs : Attributes) : List Char :=
  Text.joinWith ' ' (attrs.map fun (key, value) =>
    match value with
    | none => key.toList
    | some v => if v.isEmpty then key.toList else key.toList ++ '=' :: v.toList)

namespace Element

def openTag (el : Element) : List Char :=
  let attributes := if el.attributes.isEmpty then [] else ' ' :: el.attributes.print
  let id := match el.id with
    | none => []
    | some id => if id.isEmpty then [] else " id=\"".toList ++ id.toList ++ ['"']
  let classes :=
    if el.classes.isEmpty then []
    else " class=\"".toList ++ Text.joinWith ' ' (el.classes.map String.toList) ++ ['"']
  '<' :: el.tag.toList ++ attributes ++ id ++ classes ++ ['>']

def closeTag (el : Element) : List Char := '<' :: '/' :: el.tag.toList ++ ['>']

/-- Empty text counts as none. -/
def text? (el : Element) : Option String := el.text.filter (!·.isEmpty)

def needsCloseTag (el : Element) : Bool :=
  el.text?.isSome || !el.children.isEmpty || !el.void

/-- Text longer than this stands on its own line. -/
def inlineLimit : Nat := 70

end Element

/-- Puts a tab in front of every line. -/
def indentLines (cs : List Char) : List Char :=
  '\t' :: cs.flatMap fun c => if c = '\n' then ['\n', '\t'] else [c]

variable {m : Type → Type} [Monad m]

/-- The text between the tags, as it stands or through the renderer. -/
def Element.printText (render : String → m String) (el : Element) : m (List Char) :=
  match el.text? with
  | none => pure []
  | some text =>
    if el.isRaw then pure text.toList
    else do
      let html ← render text
      if Element.inlineLimit < text.length then pure ('\n' :: '\t' :: html.toList ++ ['\n'])
      else pure html.toList

mutual

def Element.print (render : String → m String) : Element → m (List Char)
  | el@(.mk _ _ _ _ _ children _) => do
    let text ← el.printText render
    let content ← printLines render children
    let body := if children.isEmpty then []
      else '\n' :: indentLines (Text.joinWith '\n' content) ++ ['\n']
    pure (el.openTag ++ text ++ body ++ if el.needsCloseTag then el.closeTag else [])

def printLines (render : String → m String) : List Element → m (List (List Char))
  | [] => pure []
  | el :: rest => do
    let first ← el.print render
    let others ← printLines render rest
    pure (first :: others)

end

/-- The renderer may keep a state of its own; it sees the texts in document order. -/
def printForest (render : String → m String) (els : List Element) : m String := do
  let parts ← printLines render els
  pure (String.ofList (Text.joinWith '\n' parts))

end Pagewright
