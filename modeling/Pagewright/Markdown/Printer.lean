import Pagewright.Markdown.Piece

/-! Writing Markdown content as XHTML. -/
namespace Pagewright.Markdown

/-- Whether an entity follows an ampersand: a name or a number, and a semicolon. -/
def isEntityBody (cs : List Char) : Bool :=
  let ended (p : Char → Bool) (cs : List Char) : Bool :=
    let body := cs.takeWhile p
    !body.isEmpty && (cs.drop body.length).head? == some ';'
  match cs with
  | '#' :: rest =>
    ended Char.isDigit rest ||
      (match rest with
        | c :: digits => c.toLower == 'x' && ended Text.isHexDigit digits
        | [] => false)
  | cs => ended Char.isAlphanum cs

/-- Escapes text; entities stay as they are. -/
def escapeText (quotes : Bool) : List Char → List Char
  | [] => []
  | c :: cs =>
    (match c with
      | '&' => if isEntityBody cs then ['&'] else "&amp;".toList
      | '<' => "&lt;".toList
      | '>' => "&gt;".toList
      | '"' => if quotes then "&quot;".toList else ['"']
      | c => [c]) ++ escapeText quotes cs

/-- A stretch of characters is escaped as one, so that an entity may hold escaped characters. -/
def printRun (quotes : Bool) (text : List Char) : List Piece → List Char
  | [] => escapeText quotes text.reverse
  | .char c :: rest => printRun quotes (c :: text) rest
  | .escaped c :: rest => printRun quotes (c :: text) rest
  | .raw html :: rest => escapeText quotes text.reverse ++ html ++ printRun quotes [] rest
  | .span _ :: rest => printRun quotes text rest

def isEmptyTag (tag : String) : Bool := tag == "br" || tag == "hr" || tag == "img"

def blockTags : List String :=
  ["address", "article", "aside", "blockquote", "details", "div", "dl", "fieldset", "figcaption",
    "figure", "footer", "form", "h1", "h2", "h3", "h4", "h5", "h6", "header", "hgroup", "hr",
    "main", "menu", "nav", "ol", "p", "pre", "section", "table", "ul", "canvas", "colgroup", "dd",
    "body", "dt", "group", "html", "iframe", "li", "legend", "math", "map", "noscript", "output",
    "object", "option", "progress", "script", "style", "summary", "tbody", "td", "textarea",
    "tfoot", "th", "thead", "tr", "video", "center"]

def isBlockTag (tag : String) : Bool := blockTags.contains (tag.toLower)

/-- Whether raw HTML begins with a block: it stands without a paragraph around it. -/
def isBlockHtml (html : List Char) : Bool :=
  match html with
  | '<' :: rest =>
    let rest := if rest.head? = some '/' then rest.drop 1 else rest
    let name := rest.takeWhile fun c => c != ' ' && c != '>'
    name.head?.any (fun c => c == '!' || c == '?' || c == '@' || c == '%') ||
      (!name.isEmpty && isBlockTag (String.ofList name))
  | _ => false

/-- Attributes stand in the order of their names. -/
def printAttributes (attributes : List (String × List Piece)) : List Char :=
  (attributes.mergeSort fun a b => a.1 ≤ b.1).flatMap fun (key, value) =>
    ' ' :: key.toList ++ "=\"".toList ++ printRun true [] value ++ ['"']

mutual

def Piece.print : Piece → List Char
  | .span s => s.print
  | p => printRun false [] [p]

def printPieces (text : List Piece) : List Piece → List Char
  | [] => printRun false [] text.reverse
  | .span s :: rest => printRun false [] text.reverse ++ s.print ++ printPieces [] rest
  | p :: rest => printPieces (p :: text) rest

def Span.print : Span → List Char
  | .mk tag attributes _ content =>
    let start := '<' :: tag.toList ++ printAttributes attributes
    if isEmptyTag tag then start ++ " />".toList
    else match tag, content with
      | "p", [.raw html] =>
        if isBlockHtml html then html else start ++ '>' :: html ++ "</p>".toList
      | _, content =>
        start ++ '>' :: printPieces [] content ++ "</".toList ++ tag.toList ++ ['>']

end

/-- Blank pieces count as no text. -/
def isBlankRun (ps : List Piece) : Bool :=
  ps.all fun p => match p with
    | .char c | .escaped c => Text.isBlank c
    | .raw _ => false
    | .span _ => true

/-- Replaces the run before the first span. -/
def mapLead (f : List Piece → List Piece) (ps : List Piece) : List Piece :=
  let lead := ps.takeWhile (!·.isSpan)
  f lead ++ ps.drop lead.length

def newlineIfBlank (ps : List Piece) : List Piece :=
  if isBlankRun ps then [.char '\n'] else ps

def newlineBefore (ps : List Piece) : List Piece :=
  .char '\n' :: if isBlankRun ps then [] else ps

def Span.isBlock : Span → Bool
  | .mk tag .. => isBlockTag tag

def Span.isBreak : Span → Bool
  | .mk tag .. => tag == "br"

/-- Blocks that hold a block begin on a new line. -/
def openLine (tag : String) (content : List Piece) : List Piece :=
  if tag ≠ "pre" ∧ isBlockTag tag then
    match content.dropWhile (!·.isSpan) with
    | .span s :: _ => if s.isBlock then mapLead newlineIfBlank content else content
    | _ => content
  else content

/-- A block of code ends in one newline. -/
def Span.closed : Span → Span
  | .mk tag attributes literal content =>
    .mk tag attributes literal ((content.reverse.dropWhile Piece.isBlank).reverse ++ [.char '\n'])

mutual

/-- Puts every block and every break at the end of its line. -/
def Span.layOut : Span → Span
  | .mk tag attributes literal content =>
    .mk tag attributes literal (openLine tag (layOutAll (tag == "pre") content))

def layOutAll (inCode : Bool) : List Piece → List Piece
  | [] => []
  | .span s :: rest =>
    let rest := layOutAll inCode rest
    let rest := if s.isBlock then mapLead newlineIfBlank rest
      else if s.isBreak then mapLead newlineBefore rest else rest
    .span (if inCode then s.closed else s.layOut) :: rest
  | p :: rest => p :: layOutAll inCode rest

end

end Pagewright.Markdown
