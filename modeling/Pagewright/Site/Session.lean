import Pagewright.Site.Arguments
import Pagewright.Site.Watch

/-! A run of the program: build once, or watch and try again until a configuration works. -/
namespace Pagewright

inductive SessionError where
  | build (cause : BuildError)
  | yaml (file : String) (cause : Yaml.ReadError)
  | config (cause : ConfigError)
  deriving DecidableEq, Repr

def SessionError.message : SessionError → String
  | .build cause => cause.message
  | .yaml file cause => cause.message file
  | .config cause => cause.message

abbrev Session := ExceptT SessionError (StateM Site)

/-- The outside world of a run: what happens while it watches, and what is mended while it
waits for the next attempt. -/
structure World where
  happenings : List Happening := []
  fixes : List (List Edit) := []

namespace Session

def ofBuilding {α : Type} (x : Building α) : Session α := ExceptT.mk do
  return (← x.run).mapError .build

/-- A file whose name ends as that of a folder is not one; messages give the name as written. -/
def readNamed (name : String) : Building ByteArray := do
  let s ← get
  let path := Path.ofString name
  let fail (cause : FileCause) : BuildError := .file (.refused cause name)
  if name.isEmpty then throw (fail .notFound)
  else if Path.namesFolder name && s.files.isFile s.home path then throw (fail .notFolder)
  else ExceptT.mk (pure ((s.files.readBytes s.home path).mapError fail))

def loadConfig (b : Builder) (name : String) (base : Path) : Session Config := do
  let content ← ofBuilding (readNamed name)
  let s ← get
  match b.readYaml content with
  | .error e => throw (.yaml name e)
  | .ok v =>
    match Config.ofValue s.files s.home base v with
    | .error e => throw (.config e)
    | .ok config => return config

/-- A configured script compiler replaces the shared one, also for later attempts. -/
def configure (b : Builder) (config : Config) : StateM Site Unit :=
  match config.executable? with
  | some v => modify fun s => { s with toolchain := .configured (b.executableName v) }
  | none => pure ()

/-- The builder and the watch that a configuration asks for. -/
def prepare (b : Builder) (name : String) : Session (Builder × Watch) := do
  let config ← loadConfig b name {}
  configure b config
  return ({ b with options := config.options }, { pages := config.pages, more := config.watched })

def buildOnce (b : Builder) (name : String) : Session Unit := do
  let (b, w) ← prepare b name
  ofBuilding (b.build w.pages)

def startToolchain (b : Builder) : StateM Site Unit := do
  let tool := (← get).toolchain
  Site.tell ((tool.notices b.env).map .toolchain)
  modify fun s => { s with toolchain := tool.started b.env }

/-- Before anything is watched the script compiler is looked up. -/
def prepareWatch (b : Builder) (name : String) : Session (Builder × Watch) := do
  let (b, w) ← prepare b name
  startToolchain b
  return (b, w)

def attempt (b : Builder) (name : String) (happenings : List Happening) :
    Session (List Trace) := do
  let (b, w) ← prepareWatch b name
  let (trace, _) ← ofBuilding (w.run b happenings)
  return trace

def retrySeconds : Nat := 3

/-- An attempt that fails says why and that there will be another. -/
def orSay {α : Type} (x : Session α) : StateM Site (Option α) := do
  match ← x.run with
  | .ok a => return some a
  | .error e =>
    Site.say s!"Error: {e.message}"
    Site.say
      "Please check your configuration and try again, attempting to reload in 3 seconds..."
    return none

/-- Attempts until one comes to its end, with a wait and its mendings between them. -/
def watch (b : Builder) (name : String) (happenings : List Happening) :
    List (List Edit) → StateM Site (List Trace)
  | [] => do
    match ← orSay (attempt b name happenings) with
    | some trace => return trace
    | none => return [.sleep retrySeconds, .outOfFixes]
  | edits :: fixes => do
    match ← orSay (attempt b name happenings) with
    | some trace => return trace
    | none =>
      applyEdits edits
      return .sleep retrySeconds :: (← watch b name happenings fixes)

end Session

/-- A new run begins with no page compiled. -/
def Command.run (b : Builder) (world : World) : Command → Session (List Trace)
  | .help => return [.exit 0]
  | .invalid => return [.exit 2]
  | .build config true => do
    Session.buildOnce b config
    return []
  | .build config false => Session.watch b config world.happenings world.fixes

end Pagewright
