import Pagewright.Site.FileTree
import Pagewright.Site.Value

/-! Patterns for paths: wildcards in names, and two stars for any depth of folders. -/
namespace Pagewright

/-- Why something that is no text is no pattern either. It is taken for one as far as that goes: its
first member is looked at, then a slash is looked for. -/
inductive NotText where
  | noMembers (kind : String)
  /-- An object has no first member, unless one of its keys is zero. -/
  | noFirst
  | bytes
  | noMethod (kind method : String)
  | noName (kind : String)
  deriving DecidableEq, Repr

namespace NotText

def message : NotText → String
  | noMembers kind => s!"'{kind}' object is not subscriptable"
  | noFirst => "0"
  | bytes => "a bytes-like object is required, not 'str'"
  | noMethod kind method => s!"'{kind}' object has no attribute '{method}'"
  | noName kind => s!"intern() argument must be str, not {kind}"

def ofMembers (kind : String) (first : Value) (members : List Value) : NotText :=
  if first.text? = some "/" then .noMethod kind "lstrip"
  else if members.any fun v => v.text? = some "/" then .noMethod kind "split"
  else .noName kind

def ofValue (v : Value) : NotText :=
  match v with
  | .list (first :: more) | .tuple (first :: more) => ofMembers v.kind first (first :: more)
  | .object fields =>
    match fields.find? fun (key, _) => key.isSameKey (.int 0) with
    | some (_, first) => ofMembers v.kind first (fields.map (·.1))
    | none => .noFirst
  | .bytes _ => .bytes
  | v => .noMembers v.kind

end NotText

inductive GlobError where
  /-- A pattern that counts as no, as it is written. -/
  | empty (shown : String)
  | noParts
  /-- Nothing but the folder itself, with a slash. -/
  | folderOnly
  | absolute
  /-- Two stars stand for folders and not inside a name. -/
  | starsInName
  | notText (cause : NotText)
  deriving DecidableEq, Repr

def GlobError.message : GlobError → String
  | .empty shown => s!"Unacceptable pattern: {shown}"
  | .noParts => "tuple index out of range"
  | .folderOnly => "'_TerminatingSelector' object has no attribute 'select_from'"
  | .absolute => "Non-relative patterns are unsupported"
  | .starsInName => "Invalid pattern: '**' can only be an entire path component"
  | .notText cause => cause.message

namespace Glob

inductive Item where
  | char (c : Char)
  | any
  | many
  /-- One character of the ranges, or one of none of them. -/
  | oneOf (negated : Bool) (ranges : List (Char × Char))

/-- Cuts the text between brackets at the hyphens of its ranges. At least so many characters come
before the first of them, and two between any others. -/
def cutRanges : (least : Nat) → List Char → List (List Char)
  | _, [] => [[]]
  | 0, '-' :: cs => [] :: cutRanges 2 cs
  | least, c :: cs =>
    match cutRanges (least - 1) cs with
    | [] => [[c]]
    | piece :: rest => (c :: piece) :: rest

/-- A hyphen at the end stands for itself. -/
def keepLastHyphen : List (List Char) → List (List Char)
  | [piece, []] => [piece ++ ['-']]
  | piece :: rest => piece :: keepLastHyphen rest
  | [] => []

/-- A range that ends before it begins goes, and what stands around it becomes one piece. -/
def dropEmptyRanges : List (List Char) → List (List Char)
  | [] => []
  | piece :: rest =>
    match dropEmptyRanges rest with
    | [] => [piece]
    | next :: more =>
      match piece.getLast?, next.head? with
      | some a, some b =>
        if b < a then (piece.dropLast ++ next.drop 1) :: more else piece :: next :: more
      | _, _ => piece :: next :: more

/-- The characters of the pieces, and the ranges from each piece to the next. -/
def ranges : List (List Char) → List (Char × Char)
  | [] => []
  | piece :: rest =>
    let between := match piece.getLast?, rest.head?.bind List.head? with
      | some a, some b => [(a, b)]
      | _, _ => []
    piece.map (fun c => (c, c)) ++ between ++ ranges rest

/-- The set is negated if a mark comes first once its empty ranges are gone. A range that the mark
itself would begin is none. -/
def Item.ofSet (cs : List Char) : Item :=
  let least := if cs.head? = some '!' then 2 else 1
  match dropEmptyRanges (keepLastHyphen (cutRanges least cs)) with
  | ['!'] :: piece :: rest => .oneOf true (ranges (('-' :: piece) :: rest))
  | ('!' :: piece) :: rest => .oneOf true (ranges (piece :: rest))
  | pieces => .oneOf false (ranges pieces)

/-- The set after an opening bracket and the text after it; a closing bracket that comes first
stands for itself. -/
def takeSet (cs : List Char) : Option (Item × List Char) :=
  let mark := if cs.head? = some '!' then ['!'] else []
  let body := cs.drop mark.length
  let first := if body.head? = some ']' then body.take 1 else []
  let more := (body.drop first.length).takeWhile (· != ']')
  match body.drop (first.length + more.length) with
  | _ :: rest => some (.ofSet (mark ++ first ++ more), rest)
  | [] => none

def itemsFrom : (fuel : Nat) → List Char → List Item
  | 0, _ => []
  | _, [] => []
  | fuel + 1, c :: cs =>
    if c = '*' then .many :: itemsFrom fuel cs
    else if c = '?' then .any :: itemsFrom fuel cs
    else if c = '[' then
      match takeSet cs with
      | some (set, rest) => set :: itemsFrom fuel rest
      | none => .char c :: itemsFrom fuel cs
    else .char c :: itemsFrom fuel cs

def items (cs : List Char) : List Item := itemsFrom cs.length cs

def anySuffix (p : List Char → Bool) : List Char → Bool
  | [] => p []
  | c :: cs => p (c :: cs) || anySuffix p cs

def matchesName : List Item → List Char → Bool
  | [], cs => cs.isEmpty
  | .many :: rest, cs => anySuffix (matchesName rest) cs
  | .any :: rest, cs =>
    match cs with
    | [] => false
    | _ :: cs => matchesName rest cs
  | .char d :: rest, cs =>
    match cs with
    | [] => false
    | c :: cs => c == d && matchesName rest cs
  | .oneOf negated ranges :: rest, cs =>
    match cs with
    | [] => false
    | c :: cs => (ranges.any fun (a, b) => a ≤ c && c ≤ b) != negated && matchesName rest cs

inductive Part where
  | exact (name : String)
  | named (items : List Item)
  | anyDepth
  /-- Only folders come before this. -/
  | here

def Part.ofName (name : String) : Except GlobError Part :=
  let cs := name.toList
  if cs = ['*', '*'] then .ok .anyDepth
  else if Text.contains ['*', '*'] cs then .error .starsInName
  else if cs.any fun c => c == '*' || c == '?' || c == '[' then .ok (.named (items cs))
  else .ok (.exact name)

/-- A slash at the end asks for folders. -/
def ofString (s : String) : Except GlobError (List Part) := do
  let path := Path.ofString s
  let folders := s.toList.getLast? = some '/'
  if s.isEmpty then .error (.empty (Value.text s).unsetText)
  else if path.root ≠ .relative then .error .absolute
  else if path.parts.isEmpty then .error (if folders then .folderOnly else .noParts)
  else
    let parts ← path.parts.mapM Part.ofName
    .ok (if folders then parts ++ [.here] else parts)

/-- The paths under a folder that the parts lead to. -/
def select (t : FileTree) (home : Location) : List Part → Path → List Path
  | [], p => [p]
  | .here :: _, p => [p]
  | .exact name :: rest, p =>
    let q := p.child name
    if if rest.isEmpty then t.exists? home q else t.isFolder home q then select t home rest q
    else []
  | .named items :: rest, p =>
    match t.locate home p with
    | .ok loc =>
      let names := (t.names loc).filter fun name =>
        matchesName items name.toList && (rest.isEmpty || t.isFolder home (p.child name))
      names.flatMap fun name => select t home rest (p.child name)
    | .error _ => []
  | .anyDepth :: rest, p =>
    match t.locate home p with
    | .ok loc =>
      (t.foldersUnder loc).flatMap fun parts => select t home rest { p with parts := p.parts ++ parts }
    | .error _ => []

/-- Each path once. -/
def paths (t : FileTree) (home : Location) (base : Path) (parts : List Part) : List Path :=
  if t.isFolder home base then (select t home parts base).eraseDups else []

end Glob

end Pagewright
