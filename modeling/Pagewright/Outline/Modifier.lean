import Pagewright.Text.Blank
import Pagewright.Html.Element
import Pagewright.Outline.Nesting

/-! The modifiers written after a tag: classes, an id, attribute lists and the text mark. -/
namespace Pagewright.Outline

/-- A token begins at every free full stop, number sign and opening parenthesis. -/
def splitModifiers (span : List Char) : List (List Char) :=
  split (fun c => c == '.' || c == '#' || c == '(') .kept (Text.trim span)

/-- The parts of an attribute list between its free commas. -/
def splitAttributes (token : List Char) : List (List Char) :=
  let inner := token.drop 1
  split (· == ',') .dropped (if inner.getLast? = some ')' then inner.dropLast else inner)

/-- A key ends at the first equals sign; a part with a blank key counts for nothing. -/
def attribute? (part : List Char) : Option (String × Option String) :=
  let key := Text.trim (part.takeWhile (· != '='))
  if key.isEmpty then none
  else
    let value := match part.dropWhile (· != '=') with
      | [] => none
      | _ :: value => some (String.ofList value)
    some (String.ofList key, value)

def readAttributes (tokens : List (List Char)) : Attributes :=
  .ofPairs (tokens.flatMap fun token => (splitAttributes token).filterMap attribute?)

structure Modifiers where
  attributes : Attributes := []
  classes : List String := []
  id : Option String := none
  /-- A last token that is a lone full stop opens a block of text. -/
  textBlock : Bool := false

def Modifiers.ofSpan (span : List Char) : Modifiers :=
  let tokens := splitModifiers span
  { attributes := readAttributes (tokens.filter (·.head? = some '('))
    classes := (tokens.filter fun t => t.head? = some '.' ∧ 1 < t.length).map fun t =>
      String.ofList (t.drop 1)
    id := (tokens.find? (·.head? = some '#')).map fun t => String.ofList (t.drop 1)
    textBlock := tokens.getLast? = some ['.'] }

end Pagewright.Outline
