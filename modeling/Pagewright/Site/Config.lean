import Pagewright.Page.Compiler
import Pagewright.Site.Glob
import Pagewright.Site.Value

/-! The configuration of a site: which pages to write, what else to watch, and how. -/
namespace Pagewright

inductive ConfigError where
  | noEntry
  | badEntry
  /-- What is watched has to be a list of patterns. -/
  | noMembers (kind : String)
  | pattern (cause : GlobError)
  deriving DecidableEq, Repr

def ConfigError.message : ConfigError → String
  | .noEntry => "Configuration must list at least one 'write' entry."
  | .badEntry => "Every 'write' entry needs a 'src' and a 'dst'."
  | .noMembers kind => s!"'{kind}' object is not iterable"
  | .pattern cause => cause.message

/-- Sources with the pages written from them. -/
abbrev Pages := List (Path × Path)

/-- A source listed again keeps its place and takes the new page. -/
def Pages.insert (source page : Path) : Pages → Pages
  | [] => [(source, page)]
  | (s, p) :: rest =>
    if s = source then (s, page) :: rest else (s, p) :: Pages.insert source page rest

def Pages.ofList (entries : List (Path × Path)) : Pages :=
  entries.foldl (fun pages (source, page) => pages.insert source page) []

structure Config where
  pages : Pages
  /-- Paths that are watched besides the sources. -/
  watched : List Path := []
  linkCompiledScripts : Bool := false
  scriptCompiler : Value := .null

namespace Config

def entry? (v : Value) : Option (Path × Path) := do
  let source ← v.get? "src" >>= Value.text?
  let page ← v.get? "dst" >>= Value.text?
  some (Path.ofString source, Path.ofString page)

def entries (v : Value) : Except ConfigError (List (Path × Path)) :=
  match v.items? >>= (·.mapM entry?) with
  | some pairs => .ok pairs
  | none => .error .badEntry

def pattern (v : Value) : Except ConfigError (List Glob.Part) :=
  match v with
  | .text s => (Glob.ofString s).mapError .pattern
  | v => .error (.pattern (if v.isSet then .notText (.ofValue v) else .empty v.unsetText))

def watchedPaths (t : FileTree) (home : Location) (base : Path) (v : Value) :
    Except ConfigError (List Path) :=
  match v.members? with
  | none => .error (.noMembers v.kind)
  | some members => do
    let patterns ← members.mapM pattern
    .ok (patterns.flatMap (Glob.paths t home base)).eraseDups

def ofValue (t : FileTree) (home : Location) (base : Path) (v : Value) :
    Except ConfigError Config := do
  let write := (v.get? "write").getD .null
  if write.isSet then
    let pairs ← entries write
    let watched ← watchedPaths t home base ((v.get? "watch").getD (.list []))
    .ok
      { pages := Pages.ofList pairs
        watched
        linkCompiledScripts := ((v.get? "convert_script_extension_to_js").getD .null).isSet
        scriptCompiler := (v.get? "esbuild").getD .null }
  else .error .noEntry

def options (c : Config) : Options where
  linkCompiledScripts := c.linkCompiledScripts

/-- What is configured as the executable of the script compiler. -/
def executable? (c : Config) : Option Value :=
  if c.scriptCompiler.isSet then some c.scriptCompiler else none

/-- Only a text can be the name of an executable, or the bytes of one; bytes that are no text name
none that is there. -/
def executableName : Value → Except Script.NoName String
  | .text name => .ok name
  | .bytes content => .ok ((String.fromUTF8? ⟨content.toArray⟩).getD "")
  | v => .error ⟨v.shortKind⟩

end Config

end Pagewright
