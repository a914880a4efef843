import Pagewright.Page.Resolution

/-! Shaping a forest into a document: a doctype and one html root with a head and a body. -/
namespace Pagewright

structure Document where
  elements : List Element
  scriptSources : List String

/-- A forest around its first html element. -/
structure Rooted where
  before : List Element
  html : Element
  after : List Element

/-- A forest without an html element becomes the content of one. -/
def Rooted.ofForest (els : List Element) : Rooted :=
  let els := els.filter (·.tag != Element.doctypeTag)
  match els.dropWhile (·.tag != "html") with
  | html :: after => ⟨els.takeWhile (·.tag != "html"), html, after⟩
  | [] => ⟨[], { tag := "html", children := els }, []⟩

namespace Element

/-- The first head of a root, or an empty one. -/
def headOrNew (html : Element) : Element := (html.child? "head").getD { tag := "head" }

/-- The rest of a root: what is not in a body goes into one if there is none. -/
def withoutHead (html : Element) : Element :=
  let children := html.children.eraseP (·.tag == "head")
  if children.any (·.tag == "body") then { html with children }
  else { html with children := [{ tag := "body", children }] }

def prepend (el child : Element) : Element := { el with children := child :: el.children }

end Element

/-- The head is resolved first and takes in what is hoisted out of the rest. A marked root is
a component like any other and loses its head. -/
def Document.ofForest (rules : Rules) (els : List Element) : Resolving Document := do
  let root := Rooted.ofForest els
  let head := root.html.headOrNew
  let html := root.html.withoutHead
  let headPart ← resolve rules true (head.children ++ [Element.viewport])
  let before ← resolve rules false root.before
  let page ← resolve rules false [html]
  let after ← resolve rules false root.after
  let hoisted := headPart.hoisted ++ before.hoisted ++ page.hoisted ++ after.hoisted
  let head := { head with children := headPart.kept ++ hoisted }
  let kept := if html.isMarked then page.kept else page.kept.map (·.prepend head)
  pure
    { elements := Element.doctype :: before.kept ++ kept ++ after.kept
      scriptSources := headPart.scriptSources ++ before.scriptSources ++ page.scriptSources ++
        after.scriptSources }

end Pagewright
