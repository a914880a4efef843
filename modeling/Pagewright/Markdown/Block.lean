import Pagewright.Text.Lines

/-! The tree of blocks that Markdown text is laid out in. -/
namespace Pagewright.Markdown

/-- Text stands before the children, and the tail after the block itself. -/
structure Block where
  tag : String
  attributes : List (String × String) := []
  text : List Char := []
  /-- Literal text has no inline marks. -/
  literal : Bool := false
  children : List Block := []
  tail : List Char := []
  deriving Inhabited

namespace Block

def lastChild? (b : Block) : Option Block := b.children.getLast?

def append (b child : Block) : Block := { b with children := b.children ++ [child] }

def mapLast (f : Block → Block) (b : Block) : Block :=
  match b.lastChild? with
  | some child => { b with children := b.children.dropLast ++ [f child] }
  | none => b

/-- Reaches down through last children. -/
def mapLastAt : (depth : Nat) → (Block → Block) → Block → Block
  | 0, f, b => f b
  | depth + 1, f, b => b.mapLast (mapLastAt depth f)

def lastAt : (depth : Nat) → Block → Block
  | 0, b => b
  | depth + 1, b => lastAt depth (b.lastChild?.getD b)

def isList (b : Block) : Bool := b.tag == "ul" || b.tag == "ol"

def isItem (b : Block) : Bool := b.tag == "li"

def code (text : List Char) : Block where
  tag := "pre"
  children := [{ tag := "code", text := text, literal := true }]

def isCode (b : Block) : Bool :=
  b.tag == "pre" && (b.children.head?.map (·.tag)) == some "code"

/-- Changes the text of a block of code. -/
def mapCode (f : List Char → List Char) (b : Block) : Block :=
  { b with children := b.children.map fun c => { c with text := f c.text } }

def endsInCode (b : Block) : Bool := b.lastChild?.any isCode

/-- Text of an item moves into a paragraph once the list is loose. -/
def loosen (item : Block) : Block :=
  if item.text.isEmpty then item
  else { item with text := [], children := { tag := "p", text := item.text } :: item.children }

end Block

end Pagewright.Markdown
