import Pagewright.Site.Session

/-! The command line. Each build works on a reading of the working directory, and what it has
changed there is written when it is done. -/
namespace Pagewright.Program

/-- No other program is run from here, so scripts stay as they are. -/
def builder : Builder where
  env :=
    { locate := fun _ => none
      execute := fun _ _ => { exitCode := 1, stdout := "", stderr := "" } }

def help : String := "usage: spell [-h] [--once] config

Compiles .spl templates to HTML and rebuilds them when they change

positional arguments:
  config      YAML build configuration

options:
  -h, --help  show this help message and exit
  --once      compile every write pair and exit
"

/-- Links that lead around in a circle end at the last level. -/
def levels : Nat := 64

/-- An entry with all that lies under it; what cannot be read is left out. -/
def readUnder : (levels : Nat) → IO.FS.DirEntry → Location → IO (List (Location × FileNode))
  | 0, _, _ => return []
  | levels + 1, entry, loc => do
    if ← entry.path.isDir then
      match ← entry.path.readDir.toBaseIO with
      | .error _ => return [(loc, .folder)]
      | .ok entries =>
        let parts ← entries.toList.mapM fun e => readUnder levels e (loc ++ [e.fileName])
        return (loc, .folder) :: parts.flatten
    else
      match ← (IO.FS.readBinFile entry.path).toBaseIO with
      | .error _ => return []
      | .ok content => return [(loc, .file content)]

def home : IO Location := do
  return (Path.ofString (← IO.currentDir).toString).resolve []

/-- The working directory, and the configuration wherever it lies. -/
def readFiles (config : String) : IO FileTree := do
  let home ← home
  let entry : IO.FS.DirEntry := { root := ← IO.currentDir, fileName := "." }
  let under ← readUnder levels entry home
  let files := FileTree.mk (((FileTree.mk []).place home.dropLast .folder).entries ++ under)
  let loc := (Path.ofString config).resolve home
  match files.node? loc, ← (IO.FS.readBinFile config).toBaseIO with
  | none, .ok content => return files.place loc (.file content)
  | _, _ => return files

def writeChanges (now before : FileTree) : IO Unit := do
  for (loc, node) in now.entries do
    match node with
    | .folder => if (before.node? loc).isNone then IO.FS.createDirAll (Location.text loc)
    | .file _ => pure ()
  for (loc, content) in now.changedSince before do
    IO.FS.writeBinFile (Location.text loc) content

/-- Runs one step and lets its effects be seen. -/
def perform {α : Type} (step : StateM Site α) (site : Site) : IO (α × Site) := do
  let (result, after) := step.run { site with output := "", notices := [] }
  writeChanges after.files site.files
  IO.print after.output
  (← IO.getStdout).flush
  for notice in after.notices do IO.eprintln notice.text
  return (result, after)

partial def observe (b : Builder) (w : Watch) (config : String) (site : Site) : IO Unit := do
  IO.sleep 1000
  let files ← readFiles config
  let mut now := { site with files }
  for (loc, _) in files.changedSince site.files do
    now := (← perform (w.handle b { root := .slash, parts := loc } false).run now).2
  observe b w config now

partial def watch (config : String) (site : Site) : IO Unit := do
  let site := { site with files := ← readFiles config }
  let start : Session (Builder × Watch × List Path) := do
    let (b, w) ← Session.prepareWatch builder config
    return (b, w, ← Session.ofBuilding (w.start b))
  match ← perform (Session.orSay start) site with
  | (some (b, w, folders), site) => if !folders.isEmpty then observe b w config site
  | (none, site) =>
    IO.sleep (Session.retrySeconds * 1000).toUInt32
    watch config site

def run (args : List String) : IO UInt32 := do
  match Command.ofArguments args with
  | .help =>
    IO.print help
    return 0
  | .invalid =>
    IO.eprintln "usage: spell [-h] [--once] config"
    return 2
  | .build config once =>
    let site : Site := { files := ← readFiles config, home := ← home }
    if once then
      match (← perform (Session.buildOnce builder config).run site).1 with
      | .ok _ => return 0
      | .error e =>
        IO.eprintln e.message
        return 1
    else
      watch config site
      return 0

end Pagewright.Program

def main (args : List String) : IO UInt32 := Pagewright.Program.run args
