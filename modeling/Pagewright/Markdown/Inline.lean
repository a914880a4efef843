import Pagewright.Markdown.Block
import Pagewright.Markdown.CodeSpan
import Pagewright.Markdown.Emphasis
import Pagewright.Markdown.Link
import Pagewright.Markdown.Printer
import Pagewright.Markdown.Source

/-! Inline marks: code, links, emphasis, raw tags and entities, rule by rule over a text. -/
namespace Pagewright.Markdown

def literalSpan (tag : String) (attributes : List (String × List Piece)) (content : List Piece) :
    Piece :=
  .span (.mk tag attributes true content)

def isEscapable (c : Char) : Bool := "\\`*_\x7b\x7d[]()>#+-.!|".toList.contains c

/-- A backslash before any other character hides that character from this rule only. -/
def escapeFrom (behind : List Piece) : List Piece → Option (List Piece × Found × List Piece)
  | [] => none
  | p :: rest =>
    if p.isChar '\\' then
      match rest with
      | [] => none
      | q :: rest =>
        match q.char?.filter isEscapable with
        | some c => some (behind.reverse, .pieces [.escaped c], rest)
        | none => escapeFrom (q :: p :: behind) rest
    else escapeFrom (p :: behind) rest

def startsScheme (ps : List Piece) : Bool :=
  let head := (ps.take 8).map fun p => (p.char?.map Char.toLower).getD ' '
  ["http://", "https://", "ftp://", "ftps://"].any fun s => Text.startsWith s.toList head

/-- The pieces up to a closing angle bracket. -/
def takeAngle (ps : List Piece) : Option (List Piece × List Piece) :=
  match ps with
  | .char '<' :: rest =>
    let body := rest.takeWhile fun p => !p.isChar '<' && !p.isChar '>'
    match rest.drop body.length with
    | .char '>' :: after => some (body, after)
    | _ => none
  | _ => none

def lookAutolink : Look := fun _ ahead => do
  let (body, after) ← takeAngle ahead
  if startsScheme body then some (.pieces [literalSpan "a" [("href", plainAll body)] body], after)
  else none

/-- A character as a numbered entity. -/
def charEntity (c : Char) : Piece := .raw ("&#".toList ++ (toString c.toNat).toList ++ [';'])

def namedEntity (c : Char) : Piece :=
  if c = '"' then .raw "&quot;".toList
  else if c = '&' then .raw "&amp;".toList
  else charEntity c

/-- An address in angle brackets is written in entities. -/
def lookMail : Look := fun _ ahead => do
  let (body, after) ← takeAngle ahead
  let host := (body.reverse.takeWhile (!·.isChar '@')).reverse
  let name := body.take (body.length - host.length - 1)
  let clean := (name ++ host).all (!·.isChar ' ') && name.all (!·.isChar '!')
  if name.isEmpty || host.isEmpty || !clean then none
  else
    let address := (plainAll body).filterMap fun p => match p with
      | .char c | .escaped c => some c
      | _ => none
    let mailto := "mailto:".toList
    let address := if Text.startsWith mailto address then address.drop mailto.length else address
    let href := (mailto ++ address).map charEntity
    some (.pieces [literalSpan "a" [("href", href)] (address.map namedEntity)], after)

/-- Two spaces before a newline break the line. -/
def lookBreak : Look := fun _ ahead =>
  match ahead with
  | .char ' ' :: .char ' ' :: .char '\n' :: after =>
    some (.pieces [literalSpan "br" [] []], after)
  | _ => none

/-- Raw tags keep the backslashes of their escapes. -/
def printTag (ps : List Piece) : List Char :=
  ps.flatMap fun p => match p with
    | .char c => [c]
    | .escaped c => ['\\', c]
    | p => p.print

/-- A piece of a word in a tag: no blank, and none of these signs. -/
def isTagWord (signs : String) (p : Piece) : Bool :=
  !p.isBlank && !p.char?.any signs.toList.contains

/-- What follows the value of an attribute, in quotes or bare. -/
def afterValue? (ps : List Piece) : Option (List Piece) :=
  let quoted (quote : Char) (ps : List Piece) : Option (List Piece) :=
    if ps.any (·.isChar quote) then some ((ps.dropWhile (!·.isChar quote)).drop 1) else none
  match ps with
  | .char '"' :: rest => quoted '"' rest
  | .char '\'' :: rest => quoted '\'' rest
  | ps =>
    let bare := ps.takeWhile (isTagWord "\"'=<>\x60")
    if bare.isEmpty then none else some (ps.drop bare.length)

/-- The attributes of a raw tag: names behind blanks, perhaps with values. A slash may end them. -/
def areAttributes : (fuel : Nat) → List Piece → Bool
  | 0, _ => false
  | fuel + 1, ps =>
    let rest := ps.dropWhile Piece.isBlank
    let name := rest.takeWhile (isTagWord "\"'=<>/")
    let after := rest.drop name.length
    if rest.all (·.isChar '/') && rest.length ≤ 1 then true
    else if !ps.head?.any Piece.isBlank || name.isEmpty then false
    else
      match after.dropWhile Piece.isBlank with
      | .char '=' :: value =>
        (afterValue? (value.dropWhile Piece.isBlank)).any (areAttributes fuel)
      | _ => areAttributes fuel after

def isTagBody (body : List Piece) : Bool :=
  let body := if body.head?.any (Piece.isChar '/') then body.drop 1 else body
  let name := body.takeWhile (isTagWord "@\"'")
  name.head?.any (fun p => p.char?.any Char.isAlpha) &&
    areAttributes (body.length + 1) (body.drop name.length)

def takeComment (ahead : List Piece) : Option (List Piece × List Piece) := do
  let opening := Piece.ofChars "<!--".toList
  let starts (mark : String) (ps : List Piece) : Bool :=
    ((ps.take mark.length).filterMap Piece.char?) == mark.toList
  if !starts "<!--" ahead then none
  let (body, after) ← shortest (fun _ ahead => if starts "-->" ahead then some (ahead.drop 3) else none)
    0 [] (ahead.drop 4)
  some (opening ++ body ++ Piece.ofChars "-->".toList, after)

def lookTag : Look := fun _ ahead =>
  match takeAngle ahead with
  | some (body, after) =>
    if isTagBody body then
      some (.pieces [.raw (printTag (.char '<' :: body ++ [.char '>']))], after)
    else none
  | none => (takeComment ahead).map fun (comment, after) => (.pieces [.raw (printTag comment)], after)

def lookEntity : Look := fun _ ahead =>
  match ahead with
  | .char '&' :: rest =>
    let body := rest.takeWhile fun p => p.char?.any fun c => c.isAlphanum || c == '#'
    let chars := (rest.take (body.length + 1)).filterMap Piece.char?
    if isEntityBody chars && !Text.startsWith ['#', 'X'] chars then
      some (.pieces [.raw ('&' :: chars)], rest.drop chars.length)
    else none
  | _ => none

/-- The rules in the order in which they go over a text. -/
def inlineRules : List InlineRule :=
  [escapeFrom [], Look.rule Link.look, Look.rule Link.lookImage, Look.rule lookAutolink,
    Look.rule lookMail, Look.rule lookBreak, Look.rule lookTag, Look.rule lookEntity]

/-- Applies each rule until it finds nothing more, and looks for emphasis in the end. Text inside an
element is left to the rules after the one that has found it. -/
def applyRules : (fuel : Nat) → List InlineRule → List Piece → List Piece
  | 0, _, ps => ps
  | _, [], ps => Emphasis.read ps
  | fuel + 1, rule :: later, ps =>
    match rule ps with
    | none => applyRules fuel later ps
    | some (before, .pieces found, after) =>
      applyRules fuel (rule :: later) (before ++ found ++ after)
    | some (before, .element tag attributes text, after) =>
      let element := Piece.span (.mk tag attributes false (applyRules fuel later text))
      applyRules fuel (rule :: later) (before ++ element :: after)

def readRun (ps : List Piece) : List Piece :=
  applyRules ((inlineRules.length + 1) * (ps.length + 1)) inlineRules (CodeSpan.read ps)

/-- Reads the texts inside elements once more, now with every rule. -/
def reread : (depth : Nat) → (lead : Bool) → List Piece → List Piece
  | 0, _, ps => ps
  | depth + 1, lead, ps =>
    let inner (again : Bool) (s : Span) : Piece := match s with
      | .mk tag attributes literal content =>
        .span (.mk tag attributes literal (reread depth (again && !literal) content))
    let redo (run : List Piece) : List Piece := (readRun run).map fun p => match p with
      | .span s => inner false s
      | p => p
    let (first, spans) := runs ps
    (if lead then redo first else first) ++
      spans.flatMap fun (s, run) => inner true s :: redo run

/-- The content of a text outside of any inline element. -/
def readInline (ps : List Piece) : List Piece :=
  (readRun ps).map fun p => match p with
    | .span (.mk tag attributes literal content) =>
      .span (.mk tag attributes literal (reread (ps.length + 1) false content))
    | p => p

/-- Puts the HTML of lifted fences in the place of their marks. -/
def placeLifted (lifted : List (List Char)) : (number : Option (List Char)) → List Char → List Piece
  | _, [] => []
  | none, c :: cs =>
    if c = markStart then placeLifted lifted (some []) cs
    else .char c :: placeLifted lifted none cs
  | some digits, c :: cs =>
    if c = markEnd then
      let n := (String.ofList digits.reverse).toNat?.getD 0
      .raw (lifted.getD n []) :: placeLifted lifted none cs
    else placeLifted lifted (some (c :: digits)) cs

mutual

def Block.span (lifted : List (List Char)) : Block → Span
  | .mk tag attributes text literal children _ =>
    let attributes := attributes.map fun (key, value) => (key, Piece.ofChars value.toList)
    let lead := if literal then Piece.ofChars text else readInline (placeLifted lifted none text)
    .mk tag attributes literal (lead ++ spans lifted children)

def spans (lifted : List (List Char)) : List Block → List Piece
  | [] => []
  | b@(.mk _ _ _ _ _ tail) :: rest =>
    .span (b.span lifted) :: readInline (placeLifted lifted none tail) ++ spans lifted rest

end

end Pagewright.Markdown
