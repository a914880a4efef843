import Pagewright.Markdown.Line
import Pagewright.Markdown.Source
import Pagewright.Markdown.Table

/-! Laying out Markdown text in blocks. A block of text goes to the first rule that takes it. -/
namespace Pagewright.Markdown

/-- What the reader is inside of; it decides where plain text goes. -/
inductive Mode where
  | list | looseList | quote | outdented
  deriving DecidableEq

/-- Reads texts into a parent, given what it is inside of. -/
abbrev ReadInto := List Mode → Block → List (List Char) → Block

/-- The parent with what was read, and the texts that are left. -/
abbrev Progress := Block × List (List Char)

/-- A rule takes the first text, or leaves it to the next rule. -/
abbrev Rule := ReadInto → List Mode → Block → List Char → List (List Char) → Option Progress

def isMode (modes : List Mode) (m : Mode) : Bool := modes.head? == some m

/-- Lines that are left over come before the texts that follow. -/
def leaving (lines : List Line) (rest : List (List Char)) : List (List Char) :=
  let text := Text.unlines lines
  if text.isEmpty then rest else text :: rest

/-- An empty text lengthens the code before it. -/
def emptyRule : Rule := fun _ _ parent text rest =>
  let widen (filler : List Char) :=
    if parent.endsInCode then parent.mapLast (Block.mapCode (· ++ filler)) else parent
  match text with
  | [] => some (widen ['\n', '\n'], rest)
  | '\n' :: more => some (widen ['\n'], if more.isEmpty then rest else more :: rest)
  | _ => none

/-- How many last children down the owner of an indented text is, and its level. -/
def ownerDepth (indent : Nat) : (fuel : Nat) → (level depth : Nat) → Block → Nat × Nat
  | 0, level, depth, _ => (level, depth)
  | fuel + 1, level, depth, b =>
    if level < indent then
      match b.lastChild? with
      | some child =>
        if child.isList then ownerDepth indent fuel (level + 1) (depth + 1) child
        else if child.isItem then ownerDepth indent fuel level (depth + 1) child
        else (level, depth)
      | none => (level, depth)
    else (level, depth)

/-- An indented text belongs to the list item above it. -/
def indentRule : Rule := fun read modes parent text rest =>
  let ownsLists := parent.isItem || parent.lastChild?.any Block.isList
  if Line.isIndented text && !isMode modes .outdented && ownsLists then
    let start := if isMode modes .list then 1 else 0
    let (level, depth) := ownerDepth (Line.indent text / 4) (text.length + 1) start 0 parent
    let inner := Text.unlines ((Text.lines text).map (Line.outdent level))
    let modes := Mode.outdented :: modes
    let readIn (b : Block) := read modes b [inner]
    let owner := parent.lastAt depth
    let parent :=
      if parent.isItem then
        if parent.lastChild?.any Block.isList then parent.mapLast readIn else readIn parent
      else if owner.isItem then parent.mapLastAt depth readIn
      else if owner.lastChild?.any Block.isItem then
        parent.mapLastAt (depth + 1) fun item => read modes item.loosen (splitBlocks inner)
      else parent.mapLastAt depth fun b => b.append (readIn { tag := "li" })
    some (parent, rest)
  else none

/-- The indented lines a text begins with, one level out, and the lines after them. -/
def takeCode : List Line → List Line × List Line
  | [] => ([], [])
  | line :: rest =>
    if Line.isIndented line then
      let (code, rest) := takeCode rest
      (line.drop 4 :: code, rest)
    else if (Text.trim line).isEmpty then
      let (code, rest) := takeCode rest
      ([] :: code, rest)
    else ([], line :: rest)

def codeRule : Rule := fun _ _ parent text rest =>
  if Line.isIndented text then
    let (code, after) := takeCode (Text.lines text)
    let code := escapeCode (Text.trimEnd (Text.unlines code)) ++ ['\n']
    let parent :=
      if parent.endsInCode then parent.mapLast (Block.mapCode (· ++ '\n' :: code))
      else parent.append (.code code)
    some (parent, leaving after rest)
  else none

def tableRule : Rule := fun _ _ parent text rest => do
  let table ← Table.ofLines? (Text.lines text)
  some (parent.append table, rest)

/-- Lines before a heading or a divider are read on their own. -/
def readBefore (read : ReadInto) (modes : List Mode) (parent : Block) (text : List Char) : Block :=
  if text.isEmpty then parent else read modes parent [text]

def headingBlock (level : Nat) (text : List Char) : Block :=
  { tag := "h" ++ toString level, text }

def headingRule : Rule := fun read modes parent text rest => do
  let (before, (level, title), after) ← findLine? Line.heading? (Text.lines text)
  let parent := readBefore read modes parent (Text.unlines before)
  let after := if isMode modes .looseList then after.map (Line.outdent 1) else after
  some (parent.append (headingBlock level title), leaving after rest)

def underlinedRule : Rule := fun _ _ parent text rest =>
  match Text.lines text with
  | title :: line :: after =>
    if Line.isUnderline line then
      let level := if line.head? = some '=' then 1 else 2
      some (parent.append (headingBlock level (Text.trim title)),
        if after.isEmpty then rest else Text.unlines after :: rest)
    else none
  | _ => none

def dividerRule : Rule := fun read modes parent text rest => do
  let read? (line : Line) : Option Unit := if Line.isRule line then some () else none
  let (before, _, after) ← findLine? read? (Text.lines text)
  let before := Text.dropEndWhile (· == '\n') (Text.unlines before)
  let after := (Text.unlines after).dropWhile (· == '\n')
  let parent := readBefore read modes parent before
  some (parent.append { tag := "hr" }, if after.isEmpty then rest else after :: rest)

/-- Items of a list, with the lines that continue them; deeper items stand for themselves. -/
def takeItems (items : List (List Char)) (line : Line) : List (List Char) :=
  match Line.item? line with
  | some content => items ++ [content]
  | none =>
    match items.getLast? with
    | none => [line]
    | some last =>
      if Line.isDeeperItem line && !Line.isIndented last then items ++ [line]
      else items.dropLast ++ [last ++ '\n' :: line]

def addItem (read : ReadInto) (list : Block) (item : List Char) : Block :=
  if Line.isIndented item then list.mapLast fun li => read [.list] li [item]
  else list.append (read [.list] { tag := "li" } [item])

/-- The last item of a list that goes on after an empty line: its text becomes paragraphs. -/
def closeItem (item : Block) : Block :=
  let item := item.loosen
  match item.lastChild? with
  | some child =>
    if child.tail.isEmpty then item
    else (item.mapLast fun c => { c with tail := [] }).append
      { tag := "p", text := Text.trimStart child.tail }
  | none => item

def listRule (tag : String) (item? : Line → Option Line) : Rule := fun read modes parent text rest =>
  if (item? ((Text.lines text).headD [])).isNone then none
  else
    let items := (Text.lines text).foldl takeItems []
    let addAll (list : Block) (items : List (List Char)) :=
      items.foldl (addItem fun inner b texts => read (inner ++ modes) b texts) list
    let parent :=
      if parent.lastChild?.any Block.isList then
        parent.mapLast fun list =>
          let first := read (.looseList :: modes) { tag := "li" } [items.headD []]
          addAll ((list.mapLast closeItem).append first) (items.drop 1)
      else if parent.isList then addAll parent items
      else parent.append (addAll { tag } items)
    some (parent, rest)

def quoteRule : Rule := fun read modes parent text rest => do
  let lines := Text.lines text
  let (before, _, _) ← findLine? Line.quoted? lines
  let parent := read modes parent [Text.unlines before]
  let quoted := Text.unlines ((lines.drop before.length).map Line.unquote)
  let readIn (quote : Block) := read (.quote :: modes) quote (splitBlocks quoted)
  some (if parent.lastChild?.any (·.tag == "blockquote") then parent.mapLast readIn
    else parent.append (readIn { tag := "blockquote" }), rest)

/-- In a tight list the text is the item's own, or the tail of what the item ends in. -/
def paragraph (modes : List Mode) (parent : Block) (text : List Char) : Block :=
  if (Text.trim text).isEmpty then parent
  else if isMode modes .list then
    if parent.children.isEmpty then
      if parent.text.isEmpty then { parent with text := Text.trimStart text }
      else { parent with text := parent.text ++ '\n' :: Text.trimStart text }
    else parent.mapLast fun c => { c with tail := c.tail ++ '\n' :: text }
  else parent.append { tag := "p", text := Text.trimStart text }

def rules : List Rule :=
  [emptyRule, indentRule, codeRule, tableRule, headingRule, underlinedRule, dividerRule,
    listRule "ol" Line.numberItem?, listRule "ul" Line.bulletItem?, quoteRule]

def readBlocks : (fuel : Nat) → ReadInto
  | 0, _, parent, _ => parent
  | _, _, parent, [] => parent
  | fuel + 1, modes, parent, text :: rest =>
    let taken := rules.findSome? fun rule => rule (readBlocks fuel) modes parent text rest
    let (parent, rest) := taken.getD (paragraph modes parent text, rest)
    readBlocks fuel modes parent rest

/-- Each step takes at least one character or text, and only one step in two leaves both. -/
def Block.ofText (text : List Char) : Block :=
  readBlocks (4 * (text.length + 2)) [] { tag := "div" } (splitBlocks text)

end Pagewright.Markdown
