import Pagewright.Html.Printer
import Pagewright.Outline.Reader
import Pagewright.Page.Document
import Pagewright.Script.Toolchain

/-! Compiling the outline of a page to HTML. -/
namespace Pagewright

structure Options where
  /-- Script links with a compiled counterpart point at it. -/
  linkCompiledScripts : Bool := false
  /-- Used for inline scripts in place of the shared toolchain. -/
  scriptCompiler? : Option (String → Except Script.Error String) := none

/-- What a compilation tells besides its answer. -/
inductive Notice where
  | toolchain (notice : Script.Notice)
  | failed (source : String) (cause : Failure)

inductive Severity where
  | info | warning | error
  deriving DecidableEq, Repr

namespace Notice

def severity : Notice → Severity
  | .toolchain (.loaded _) => .info
  | .toolchain (.unavailable _) => .warning
  | .failed .. => .error

def text : Notice → String
  | .toolchain (.loaded path) => s!"TypeScript compiler loaded! ({path})"
  | .toolchain (.unavailable executable) =>
    s!"Script compiler '{executable}' not found, scripts will be passed through unchanged."
  | .failed source _ => s!"Tried compiling:\n{source}"

end Notice

namespace Options

def rules (options : Options) (env : Script.Environment) (tool : Script.Shared) : Rules where
  compileScript := options.scriptCompiler?.getD fun source => tool.compile env { source }
  linkCompiledScripts := options.linkCompiledScripts

/-- The shared toolchain is looked up when a page first hands it a script. -/
def usesToolchain (options : Options) (w : Workshop) : Bool :=
  options.scriptCompiler?.isNone && 0 < w.compiled

end Options

/-- A page that cannot be made is empty and has no script sources. -/
structure Compiled where
  html : String
  scriptSources : List String
  notices : List Notice
  toolchain : Script.Shared

def readDocument (rules : Rules) (source : String) : Resolving Document := do
  match Outline.read source.toList 0 0 with
  | .ok (elements, _) => Document.ofForest rules elements
  | .error e => throw (.unclosed e)

def compilePage (env : Script.Environment) (options : Options) (render : String → String)
    (tool : Script.Shared) (source : String) : Compiled :=
  let (result, workshop) := readDocument (options.rules env tool) source |>.run.run {}
  let (told, tool) :=
    if options.usesToolchain workshop then
      ((tool.notices env).map Notice.toolchain, tool.started env)
    else ([], tool)
  match result with
  | .ok document =>
    { html := Id.run (printForest (fun text => pure (render text)) document.elements)
      scriptSources := document.scriptSources
      notices := told
      toolchain := tool }
  | .error cause =>
    { html := ""
      scriptSources := []
      notices := told ++ [.failed source cause]
      toolchain := tool }

end Pagewright
