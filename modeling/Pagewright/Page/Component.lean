import Pagewright.Html.Element

/-! Components: elements that are defined at their first sighting and copied afterwards. -/
namespace Pagewright

/-- Components by name, in the order of their definitions. -/
abbrev Registry := List (String × Element)

namespace Element

/-- The attribute that marks the definition and the uses of a component. -/
def marker : String := "@"

def isMarked (el : Element) : Bool := el.attributes.has marker

/-- A template is an unmarked div with the content as it was written. -/
def template (el : Element) : Element :=
  { el with tag := "div", attributes := el.attributes.erase marker }

/-- Content of the template comes first, then what the use holds itself. -/
def instantiate (template use : Element) : Element :=
  { template with children := template.children ++ use.children }

mutual

def height : Element → Nat
  | .mk _ _ _ _ _ children _ => heightOf children + 1

/-- Number of levels of a forest. -/
def heightOf : List Element → Nat
  | [] => 0
  | el :: rest => max el.height (heightOf rest)

end

mutual

def countMarked : Element → Nat
  | el@(.mk _ _ _ _ _ children _) => (if el.isMarked then 1 else 0) + countMarkedIn children

def countMarkedIn : List Element → Nat
  | [] => 0
  | el :: rest => el.countMarked + countMarkedIn rest

end

end Element

end Pagewright
