import Pagewright.Text.Blank

/-! One run of the external script compiler: its command line and what its end means. -/
namespace Pagewright.Script

/-- The script compiler refused its input. -/
structure Rejection where
  message : String
  deriving DecidableEq, Repr

/-- What was configured as an executable has no name that could be looked for. -/
structure NoName where
  /-- The kind of value that it is. -/
  kind : String
  deriving DecidableEq, Repr

def NoName.message (e : NoName) : String :=
  s!"expected str, bytes or os.PathLike object, not {e.kind}"

/-- Why a script is not compiled. -/
inductive Error where
  | rejected (cause : Rejection)
  | noName (cause : NoName)
  deriving DecidableEq, Repr

structure ProcessResult where
  exitCode : Int
  stdout : String
  stderr : String

/-- What may be asked of a compilation; a file name brings an inline source map. -/
structure Request where
  source : String
  filename : String := ""
  minify : Bool := false

def Request.commandLine (r : Request) (executable : String) : List String :=
  [executable, "--loader=tsx", "--target=es2022"] ++
  (if r.filename.isEmpty then [] else ["--sourcemap=inline", s!"--sourcefile={r.filename}"]) ++
  (if r.minify then ["--minify"] else [])

def ProcessResult.compiled (p : ProcessResult) : Except Rejection String :=
  if p.exitCode = 0 then .ok p.stdout
  else
    let reason := String.ofList (Text.trim p.stderr.toList)
    .error ⟨s!"esbuild failed with exit code {p.exitCode}:\n{reason}"⟩

/-- What scripts can reach outside the program. -/
structure Environment where
  locate : String → Option String
  execute : List String → String → ProcessResult

def Request.run (r : Request) (env : Environment) (executable : String) :
    Except Rejection String :=
  (env.execute (r.commandLine executable) r.source).compiled

end Pagewright.Script
