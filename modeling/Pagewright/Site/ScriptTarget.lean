import Pagewright.Site.Path

/-! The scripts of a page that are built with it. -/
namespace Pagewright

structure ScriptTarget where
  source : Path
  compiled : Path
  deriving DecidableEq, Repr

namespace ScriptTarget

def trimQuotes (cs : List Char) : List Char :=
  ((cs.dropWhile (· == '"')).reverse.dropWhile (· == '"')).reverse

/-- A local TypeScript source, by its name under the folder of the page. -/
def localName? (src : String) : Option (List Char) :=
  let cs := trimQuotes src.toList
  if Text.endsWith ".ts".toList cs && !Text.contains "://".toList cs then
    some (cs.dropWhile (· == '/'))
  else none

/-- Sources lie next to the outline, and what is compiled next to the page. -/
def ofSource? (outline page : Path) (src : String) : Option ScriptTarget :=
  (localName? src).map fun name =>
    { source := outline.parent.join (.ofString (String.ofList name))
      compiled := page.parent.join
        (.ofString (String.ofList (name.take (name.length - 2) ++ ['j', 's']))) }

def ofSources (outline page : Path) (sources : List String) : List ScriptTarget :=
  sources.filterMap (ofSource? outline page)

end ScriptTarget

end Pagewright
