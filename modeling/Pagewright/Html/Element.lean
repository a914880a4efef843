/-! The node of a page and its ordered attribute list. -/
namespace Pagewright

/-- A value is kept as it was written, quotes included; a bare key has no value. -/
abbrev Attributes := List (String × Option String)

namespace Attributes

def get? (attrs : Attributes) (key : String) : Option (Option String) := attrs.lookup key

def has (attrs : Attributes) (key : String) : Bool := (attrs.lookup key).isSome

/-- A repeated key keeps its place and takes the new value. -/
def insert (attrs : Attributes) (key : String) (value : Option String) : Attributes :=
  match attrs with
  | [] => [(key, value)]
  | (k, v) :: rest => if k = key then (k, value) :: rest else (k, v) :: insert rest key value

def erase (attrs : Attributes) (key : String) : Attributes := attrs.filter (·.1 != key)

def ofPairs (pairs : List (String × Option String)) : Attributes :=
  pairs.foldl (fun attrs (key, value) => insert attrs key value) []

end Attributes

structure Element where
  tag : String
  attributes : Attributes := []
  classes : List String := []
  id : Option String := none
  text : Option String := none
  children : List Element := []
  /-- A void element without text and children is written without a closing tag. -/
  void : Bool := false
  deriving Repr, Inhabited

namespace Element

/-- The text of these tags is written as it stands. -/
def isRaw (el : Element) : Bool := ["style", "css", "script"].contains el.tag

/-- These tags belong into the head wherever they are written. -/
def isHeadOnly (el : Element) : Bool := ["title", "css", "style", "meta", "link"].contains el.tag

def child? (el : Element) (tag : String) : Option Element := el.children.find? (·.tag = tag)

def doctypeTag : String := "!DOCTYPE html"

def doctype : Element where
  tag := doctypeTag
  void := true

/-- Lets small screens lay the page out at their own width. -/
def viewport : Element where
  tag := "meta"
  attributes := [("name", some "\"viewport\""),
    ("content", some "\"width=device-width,initial-scale=1.0\"")]

end Element

end Pagewright
