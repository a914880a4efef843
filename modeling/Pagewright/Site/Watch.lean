import Pagewright.Site.Build

/-! Watching files: every change of one of them builds all pages anew. -/
namespace Pagewright

structure Watch where
  pages : Pages
  /-- Paths that are watched besides the sources. -/
  more : List Path := []

/-- Something is written from outside; without a content it is a folder. -/
structure Edit where
  path : Path
  content : Option ByteArray

/-- What may happen while files are watched. -/
inductive Happening where
  | change (path : Path) (isFolder : Bool)
  | edits (edits : List Edit)
  | interrupt

/-- What a run of the watcher does besides writing and printing. -/
inductive Trace where
  | start (folders : List Path)
  | handled (error? : Option BuildError)
  | stop
  | join
  | sleep (seconds : Nat)
  | exit (code : Nat)
  | outOfFixes
  deriving DecidableEq, Repr

def Edit.apply (e : Edit) (s : Site) : Site :=
  let node := match e.content with
    | some content => FileNode.file content
    | none => .folder
  { s with files := s.files.place (e.path.resolve s.home) node }

def applyEdits (edits : List Edit) : StateM Site Unit :=
  modify fun s => edits.foldl (fun s e => e.apply s) s

namespace Watch

/-- Each watched path once, as it is written. -/
def paths (w : Watch) : List Path := (w.pages.map (·.1) ++ w.more).eraseDups

/-- The folders to observe: those that are there, once each. -/
def folders (w : Watch) (s : Site) : List Path :=
  ((w.paths.map Path.parent).filter (s.files.isFolder s.home)).eraseDups

/-- However it is written, a watched file is known by its place. -/
def isWatched (w : Watch) (home : Location) (p : Path) : Bool :=
  w.paths.any fun q => q.resolve home = p.resolve home

def handle (b : Builder) (w : Watch) (p : Path) (isFolder : Bool) : Building Unit := do
  let home := (← get).home
  if !isFolder && w.isWatched home p then
    Site.say s!"\nDetected modification in: {(p.resolve home).text}"
    b.build w.pages

/-- Observes as long as anything happens. An error while a change is handled does not end it. -/
def observe (b : Builder) (w : Watch) : List Happening → StateM Site (List Trace × List Happening)
  | [] => return ([.stop, .join], [])
  | .interrupt :: rest => return ([.stop, .join], rest)
  | .edits edits :: rest => do
    applyEdits edits
    observe b w rest
  | .change p isFolder :: rest => do
    let result ← (w.handle b p isFolder).run
    let error? := match result with
      | .ok _ => none
      | .error e => some e
    let (trace, rest) ← observe b w rest
    return (.handled error? :: trace, rest)

/-- Builds once and says what is watched; the folders are those to observe. -/
def start (b : Builder) (w : Watch) : Building (List Path) := do
  b.build w.pages
  let folders := w.folders (← get)
  if folders.isEmpty then Site.say "Error: Nothing to watch."
  else Site.say s!"Watching {w.paths.length} file(s). Press Ctrl+C to stop."
  return folders

/-- Without a folder to observe, a watch ends at once. -/
def run (b : Builder) (w : Watch) (happenings : List Happening) :
    Building (List Trace × List Happening) := do
  let folders ← w.start b
  if folders.isEmpty then return ([], happenings)
  else
    let (trace, rest) ← observe b w happenings
    return (.start folders :: trace, rest)

end Watch

end Pagewright
