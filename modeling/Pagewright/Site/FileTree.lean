import Pagewright.Site.Path
import Pagewright.Text.Utf8

/-! A tree of files, and what reading and writing it may refuse. -/
namespace Pagewright

inductive FileNode where
  | file (content : ByteArray)
  | folder

/-- Contents are compared byte for byte. -/
instance FileNode.decEq : DecidableEq FileNode
  | .file content, .file content' =>
    match ByteArray.instDecidableEq content content' with
    | isTrue h => isTrue (congrArg FileNode.file h)
    | isFalse h => isFalse fun h' => h (FileNode.file.inj h')
  | .file _, .folder => isFalse nofun
  | .folder, .file _ => isFalse nofun
  | .folder, .folder => isTrue rfl

inductive FileCause where
  | notFound | notFolder | isFolder | alreadyThere
  deriving DecidableEq, Repr

def FileCause.message : FileCause → String
  | .notFound => "[Errno 2] No such file or directory"
  | .notFolder => "[Errno 20] Not a directory"
  | .isFolder => "[Errno 21] Is a directory"
  | .alreadyThere => "[Errno 17] File exists"

inductive FileError where
  | refused (cause : FileCause) (path : String)
  /-- Where bytes are no text, it is not said in which file. -/
  | notText (cause : Text.Utf8Error)
  deriving DecidableEq, Repr

def FileError.message : FileError → String
  | .refused cause path => s!"{cause.message}: {String.ofList (Text.quoted path.toList)}"
  | .notText cause => cause.message

/-- Files and folders by their places; the top folder is always there. -/
structure FileTree where
  entries : List (Location × FileNode) := []

namespace FileTree

def node? (t : FileTree) (loc : Location) : Option FileNode :=
  if loc.isEmpty then some .folder else t.entries.lookup loc

def setEntry (loc : Location) (node : FileNode) :
    List (Location × FileNode) → List (Location × FileNode)
  | [] => [(loc, node)]
  | (l, n) :: rest => if l = loc then (l, node) :: rest else (l, n) :: setEntry loc node rest

def insert (t : FileTree) (loc : Location) (node : FileNode) : FileTree :=
  ⟨setEntry loc node t.entries⟩

/-- Removes an entry with all that lies under it. -/
def erase (t : FileTree) (loc : Location) : FileTree :=
  ⟨t.entries.filter fun (l, _) => !loc.isPrefixOf l⟩

/-- Goes down part by part; every part but the last leads through a folder that is there. -/
def walk (t : FileTree) (loc : Location) : List String → Except FileCause Location
  | [] => .ok loc
  | part :: rest =>
    match t.node? loc with
    | some .folder => t.walk (Path.step loc part) rest
    | some (.file _) => .error .notFolder
    | none => .error .notFound

def locate (t : FileTree) (home : Location) (p : Path) : Except FileCause Location :=
  t.walk (p.start home) p.parts

def find? (t : FileTree) (home : Location) (p : Path) : Option FileNode :=
  match t.locate home p with
  | .ok loc => t.node? loc
  | .error _ => none

def exists? (t : FileTree) (home : Location) (p : Path) : Bool := (t.find? home p).isSome

def isFolder (t : FileTree) (home : Location) (p : Path) : Bool :=
  t.find? home p == some .folder

def isFile (t : FileTree) (home : Location) (p : Path) : Bool :=
  match t.find? home p with
  | some (.file _) => true
  | _ => false

def readBytes (t : FileTree) (home : Location) (p : Path) : Except FileCause ByteArray := do
  match t.node? (← t.locate home p) with
  | some (.file content) => .ok content
  | some .folder => .error .isFolder
  | none => .error .notFound

def readText (t : FileTree) (home : Location) (p : Path) : Except FileError String := do
  let content ← (t.readBytes home p).mapError (.refused · p.text)
  (Text.decode content).mapError .notText

/-- Writes a file into a folder that is there. -/
def writeText (t : FileTree) (home : Location) (p : Path) (text : String) :
    Except FileError FileTree := do
  let loc ← (t.locate home p).mapError (.refused · p.text)
  if t.node? loc = some .folder then .error (.refused .isFolder p.text)
  else .ok (t.insert loc (.file text.toUTF8))

/-- Makes the folders that are missing on the way down. -/
def makeFolders (t : FileTree) (loc : Location) : List String → Except FileCause FileTree
  | [] => .ok t
  | part :: rest =>
    let next := Path.step loc part
    match t.node? next with
    | some .folder => t.makeFolders next rest
    | some (.file _) => .error (if rest.isEmpty then .alreadyThere else .notFolder)
    | none => (t.insert next .folder).makeFolders next rest

def makeFolder (t : FileTree) (home : Location) (p : Path) : Except FileError FileTree :=
  (t.makeFolders (p.start home) p.parts).mapError (.refused · p.text)

/-- Names directly in a folder. -/
def names (t : FileTree) (loc : Location) : List String :=
  t.entries.filterMap fun (l, _) =>
    if l.dropLast = loc then l.getLast? else none

/-- A folder and all folders under it, as parts from there on. -/
def foldersUnder (t : FileTree) (loc : Location) : List (List String) :=
  [] :: t.entries.filterMap fun (l, node) =>
    if node = .folder ∧ loc.isPrefixOf l ∧ loc.length < l.length then some (l.drop loc.length)
    else none

/-- Puts an entry in its place whether or not its folders are there. -/
def place (t : FileTree) (loc : Location) (node : FileNode) : FileTree :=
  let folders := (List.range loc.length).map fun n => loc.take n
  let t := (folders.filter (!·.isEmpty)).foldl
    (fun t l => if (t.node? l).isSome then t else t.insert l .folder) t
  t.insert loc node

/-- Files that are new or have another content than before. -/
def changedSince (t before : FileTree) : List (Location × ByteArray) :=
  t.entries.filterMap fun (loc, node) =>
    match node with
    | .folder => none
    | .file content => if before.node? loc = some node then none else some (loc, content)

end FileTree

end Pagewright
