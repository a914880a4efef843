import Pagewright.Markdown.Render
import Pagewright.Site.Config
import Pagewright.Site.ScriptTarget
import Pagewright.Yaml.Reader

/-! Writing the pages of a site and the scripts they link to. -/
namespace Pagewright

/-- What stays the same while a site is built. -/
structure Builder where
  env : Script.Environment
  options : Options := {}
  render : String → String := Markdown.render
  /-- What a file with these bytes says. -/
  readYaml : ByteArray → Except Yaml.ReadError Value := Yaml.load
  /-- The name under which a configured executable is looked for. -/
  executableName : Value → Except Script.NoName String := Config.executableName

/-- What a build changes. -/
structure Site where
  files : FileTree
  /-- Where relative paths begin. -/
  home : Location
  toolchain : Script.Shared := .named {}
  /-- Script sources of the page compiled last. -/
  scriptSources : List String := []
  output : String := ""
  notices : List Notice := []

/-- What ends a build. -/
inductive BuildError where
  | file (cause : FileError)
  | script (cause : Script.NoName)
  deriving DecidableEq, Repr

def BuildError.message : BuildError → String
  | .file cause => cause.message
  | .script cause => cause.message

/-- A build that fails keeps what it has done so far. -/
abbrev Building := ExceptT BuildError (StateM Site)

namespace Site

def say (line : String) : StateM Site Unit :=
  modify fun s => { s with output := s.output ++ line ++ "\n" }

def tell (notices : List Notice) : StateM Site Unit :=
  modify fun s => { s with notices := s.notices ++ notices }

def readText (p : Path) : Building String := do
  let s ← get
  ExceptT.mk (pure ((s.files.readText s.home p).mapError .file))

def change (f : Site → Except FileError FileTree) : Building Unit := do
  match f (← get) with
  | .ok files => modify fun s => { s with files }
  | .error e => throw (.file e)

def writeText (p : Path) (text : String) : Building Unit :=
  change fun s => s.files.writeText s.home p text

def makeFolder (p : Path) : Building Unit := change fun s => s.files.makeFolder s.home p

end Site

namespace Builder

open Site

/-- Linked scripts always go to the shared toolchain. -/
def compileScript (b : Builder) (r : Script.Request) :
    StateM Site (Except Script.Error String) := do
  let tool := (← get).toolchain
  tell ((tool.notices b.env).map .toolchain)
  modify fun s => { s with toolchain := tool.started b.env }
  return tool.compile b.env r

def buildScript (b : Builder) (t : ScriptTarget) : Building Unit := do
  let s ← get
  if s.files.isFile s.home t.source then
    let source ← readText t.source
    match ← b.compileScript { source, filename := t.source.text } with
    | .ok code =>
      makeFolder t.compiled.parent
      writeText t.compiled code
      say s!"Compiled {t.source} -> {t.compiled}"
    | .error (.rejected e) => say s!"Failed to compile {t.source}: {e.message}"
    | .error (.noName e) => throw (.script e)
  else say s!"Warning: Script '{t.source}' does not exist. Skipping."

def buildScripts (b : Builder) (outline page : Path) (sources : List String) : Building Unit :=
  (ScriptTarget.ofSources outline page sources).forM b.buildScript

/-- Compiles an outline to HTML, which is empty if it cannot be compiled. -/
def compileOutline (b : Builder) (outline : Path) : Building String := do
  let source ← readText outline
  let compiled := compilePage b.env b.options b.render (← get).toolchain source
  tell compiled.notices
  modify fun s =>
    { s with toolchain := compiled.toolchain, scriptSources := compiled.scriptSources }
  return compiled.html

def buildPage (b : Builder) (outline page : Path) : Building Unit := do
  let html ← b.compileOutline outline
  if html.isEmpty then say s!"Failed to compile {outline}, see the log for details."
  else
    writeText page html
    say s!"Compiled {outline} -> {page}"
    if b.options.linkCompiledScripts then b.buildScripts outline page (← get).scriptSources

def build (b : Builder) (pages : Pages) : Building Unit :=
  pages.forM fun (outline, page) => b.buildPage outline page

end Builder

end Pagewright
