import Pagewright.Text.Lines

/-! Cutting YAML text into tokens; indentation becomes tokens of its own. -/
namespace Pagewright.Yaml

/-- A place in a text; both are counted from zero. -/
structure Mark where
  line : Nat
  column : Nat
  deriving DecidableEq, Repr

inductive Token where
  | documentStart
  | blockSequenceStart | blockMappingStart | blockEnd
  | flowSequenceStart | flowSequenceEnd | flowMappingStart | flowMappingEnd | flowEntry
  | entry | key | value
  /-- A plain scalar has a type of its own; a quoted one is text. -/
  | scalar (plain : Bool) (text : List Char)
  deriving DecidableEq, Repr

/-- A token and where it begins. -/
structure Placed where
  token : Token
  mark : Mark
  deriving DecidableEq, Repr

inductive ScanCause where
  | unknownStart (c : Char)
  | misplacedValue
  | misplacedEntry
  | missingValue (key : Mark)
  | unclosedQuote (quote : Mark)
  | unknownEscape (quote : Mark) (c : Char)
  /-- So many digits have to follow an escape, and this character is none. -/
  | shortEscape (quote : Mark) (width : Nat) (c : Char)
  deriving DecidableEq, Repr

structure ScanError where
  cause : ScanCause
  mark : Mark
  deriving DecidableEq, Repr

/-- A token that would be a key if a value followed it on its line. -/
structure PossibleKey where
  /-- Number of tokens before it. -/
  index : Nat
  /-- A block mapping must go on with a key. -/
  isRequired : Bool
  mark : Mark
  offset : Nat

structure Scanner where
  rest : List Char
  offset : Nat := 0
  line : Nat := 0
  column : Nat := 0
  tokens : List Placed := []
  /-- Columns of the open block collections, innermost first. -/
  indents : List Nat := []
  /-- One entry for each open flow collection, and the last for the block outside. -/
  keys : List (Option PossibleKey) := [none]
  keyAllowed : Bool := true

abbrev Scan := Except ScanError Scanner

namespace Scanner

def mark (s : Scanner) : Mark := ⟨s.line, s.column⟩

def fail {α : Type} (s : Scanner) (cause : ScanCause) : Except ScanError α := .error ⟨cause, s.mark⟩

def inFlow (s : Scanner) : Bool := 1 < s.keys.length

def isBreak (c : Char) : Bool := c == '\n'

/-- Whether nothing but a blank, a line end or the end of the text follows. -/
def endsHere (cs : List Char) : Bool :=
  cs.head?.all fun c => c == ' ' || c == '\t' || isBreak c

/-- Moves over one character. -/
def forward (s : Scanner) : Scanner :=
  match s.rest with
  | [] => s
  | c :: rest =>
    if isBreak c then { s with rest, offset := s.offset + 1, line := s.line + 1, column := 0 }
    else { s with rest, offset := s.offset + 1, column := s.column + 1 }

def forwardBy : Nat → Scanner → Scanner
  | 0, s => s
  | n + 1, s => forwardBy n s.forward

def push (s : Scanner) (mark : Mark) (t : Token) : Scanner :=
  { s with tokens := s.tokens ++ [⟨t, mark⟩] }

def isIndentedBelow (s : Scanner) (column : Nat) : Bool := s.indents.head?.all (· < column)

/-- Closes the block collections that stand further right. -/
def unwind (column : Option Nat) (s : Scanner) : Scanner :=
  if s.inFlow then s
  else
    let closed := s.indents.takeWhile fun i => column.all (· < i)
    { s with
      indents := s.indents.drop closed.length
      tokens := s.tokens ++ closed.map fun _ => ⟨.blockEnd, s.mark⟩ }

def key? (s : Scanner) : Option PossibleKey := s.keys.head?.join

def setKey (s : Scanner) (key : Option PossibleKey) : Scanner :=
  { s with keys := key :: s.keys.drop 1 }

/-- A possible key is dropped, unless one was needed. -/
def dropKey (s : Scanner) : Scan :=
  match s.key?.filter (·.isRequired) with
  | some k => s.fail (.missingValue k.mark)
  | none => .ok (s.setKey none)

/-- A key ends on its own line and within 1024 characters. -/
def isStale (s : Scanner) (k : PossibleKey) : Bool :=
  k.mark.line != s.line || 1024 < s.offset - k.offset

def dropStaleKeys (s : Scanner) : Scan :=
  match s.keys.findSome? (·.filter fun k => s.isStale k && k.isRequired) with
  | some k => s.fail (.missingValue k.mark)
  | none => .ok { s with keys := s.keys.map (·.filter (!s.isStale ·)) }

def saveKey (s : Scanner) : Scan :=
  if s.keyAllowed then do
    let s ← s.dropKey
    .ok (s.setKey (some
      { index := s.tokens.length
        isRequired := !s.inFlow && s.indents.head? == some s.column
        mark := s.mark
        offset := s.offset }))
  else .ok s

/-- Skips blanks, comments and line ends; a new line may begin with a key. -/
def skipBlank : (fuel : Nat) → Scanner → Scanner
  | 0, s => s
  | fuel + 1, s =>
    let s := forwardBy (s.rest.takeWhile (· == ' ')).length s
    let s := if s.rest.head? = some '#' then
        forwardBy (s.rest.takeWhile (!isBreak ·)).length s
      else s
    if s.rest.head?.any isBreak then
      skipBlank fuel { s.forward with keyAllowed := s.keyAllowed || !s.inFlow }
    else s

/-! Scalars -/

/-- Folds a run of line ends: one is a space, more are as many less one. -/
def foldBreaks (n : Nat) : List Char := if n = 1 then [' '] else List.replicate (n - 1) '\n'

/-- The blanks after a part of a plain scalar, folded if they hold line ends. -/
def takeSpaces (s : Scanner) : List Char × Scanner :=
  let blanks := s.rest.takeWhile (· == ' ')
  let s := forwardBy blanks.length s
  if s.rest.head?.any isBreak then
    let run := s.rest.takeWhile fun c => c == ' ' || isBreak c
    (foldBreaks (run.countP isBreak), { forwardBy run.length s with keyAllowed := true })
  else (blanks, s)

/-- One part of a plain scalar: up to a blank or a sign that ends it. -/
def plainPart (inFlow : Bool) : List Char → List Char
  | [] => []
  | c :: cs =>
    if c == ' ' || c == '\t' || isBreak c then []
    else if c == ':' && (endsHere cs || (inFlow && cs.head?.any (",[]\x7b\x7d".toList.contains ·)))
    then []
    else if inFlow && ",?[]\x7b\x7d".toList.contains c then []
    else c :: plainPart inFlow cs

def takePlain (indent : Nat) : (fuel : Nat) → (text spaces : List Char) → Scanner →
    List Char × Scanner
  | 0, text, _, s => (text, s)
  | fuel + 1, text, spaces, s =>
    let part := plainPart s.inFlow s.rest
    if s.rest.head? = some '#' ∨ part.isEmpty then (text, s)
    else
      let text := text ++ spaces ++ part
      let (spaces, s) := takeSpaces { forwardBy part.length s with keyAllowed := false }
      if spaces.isEmpty || s.rest.head? == some '#' || (!s.inFlow && s.column < indent) then (text, s)
      else takePlain indent fuel text spaces s

/-- Blanks inside quotes: kept in a line, folded around line ends. -/
def takeQuotedSpaces (s : Scanner) : List Char × Scanner :=
  let blanks := s.rest.takeWhile fun c => c == ' ' || c == '\t'
  let s := forwardBy blanks.length s
  if s.rest.head?.any isBreak then
    let run := s.rest.takeWhile fun c => c == ' ' || c == '\t' || isBreak c
    (foldBreaks (run.countP isBreak), forwardBy run.length s)
  else (blanks, s)

def simpleEscape? (c : Char) : Option Char :=
  [('0', '\x00'), ('a', '\x07'), ('b', '\x08'), ('t', '\t'), ('\t', '\t'), ('n', '\n'),
    ('v', '\x0b'), ('f', '\x0c'), ('r', '\r'), ('e', '\x1b'), (' ', ' '), ('"', '"'),
    ('\\', '\\'), ('/', '/'), ('N', '\x85'), ('_', '\xa0'), ('L', '\u2028'),
    ('P', '\u2029')].lookup c

def hexValue? (c : Char) : Option Nat :=
  if c.isDigit then some (c.toNat - '0'.toNat)
  else if 'a' ≤ c ∧ c ≤ 'f' then some (c.toNat - 'a'.toNat + 10)
  else if 'A' ≤ c ∧ c ≤ 'F' then some (c.toNat - 'A'.toNat + 10)
  else none

/-- What the escape at a backslash stands for, and the rest behind it. A text that ends in an escape
is read as if a null character followed. -/
def takeEscape (quote : Mark) (s : Scanner) : Except ScanError (List Char × Scanner) :=
  let s := s.forward
  let c := s.rest.headD '\x00'
  match simpleEscape? c with
  | some d => .ok ([d], s.forward)
  | none =>
    match [('x', 2), ('u', 4), ('U', 8)].lookup c with
    | some width =>
      let s := s.forward
      let digits := (s.rest.take width).takeWhile fun c => (hexValue? c).isSome
      if digits.length < width then
        s.fail (.shortEscape quote width ((s.rest.drop digits.length).headD '\x00'))
      else
        let n := (digits.filterMap hexValue?).foldl (fun n d => n * 16 + d) 0
        .ok ([Char.ofNat n], forwardBy width s)
    | none => s.fail (.unknownEscape quote c)

/-- The content up to the closing quote; only double quotes know escapes. -/
def takeQuoted (quote : Char) (start : Mark) : (fuel : Nat) → (text : List Char) → Scanner →
    Except ScanError (List Char × Scanner)
  | 0, _, s => s.fail (.unclosedQuote start)
  | fuel + 1, text, s =>
    match s.rest with
    | [] => s.fail (.unclosedQuote start)
    | c :: rest =>
      if c = quote then
        if quote = '\'' ∧ rest.head? = some '\'' then
          takeQuoted quote start fuel (text ++ ['\'']) (forwardBy 2 s)
        else .ok (text, s.forward)
      else if c = '\\' ∧ quote = '"' then
        if rest.head?.any isBreak then
          let s := forwardBy 2 s
          takeQuoted quote start fuel text
            (forwardBy (s.rest.takeWhile fun c => c == ' ' || c == '\t').length s)
        else match takeEscape start s with
          | .ok (chars, s) => takeQuoted quote start fuel (text ++ chars) s
          | .error e => .error e
      else if c = ' ' ∨ c = '\t' ∨ isBreak c then
        let (spaces, s) := takeQuotedSpaces s
        takeQuoted quote start fuel (text ++ spaces) s
      else takeQuoted quote start fuel (text ++ [c]) s.forward

/-! Tokens -/

def insertAt (s : Scanner) (index : Nat) (t : Placed) : Scanner :=
  { s with tokens := s.tokens.take index ++ t :: s.tokens.drop index }

def addIndent (s : Scanner) (mark : Mark) (index : Nat) (t : Token) : Scanner :=
  if s.isIndentedBelow mark.column then
    { s.insertAt index ⟨t, mark⟩ with indents := mark.column :: s.indents }
  else s

def openFlow (s : Scanner) (t : Token) : Scan := do
  let s ← s.saveKey
  .ok { s.forward.push s.mark t with keys := none :: s.keys, keyAllowed := true }

def closeFlow (s : Scanner) (t : Token) : Scan := do
  let s ← s.dropKey
  .ok { s.forward.push s.mark t with
    keys := if s.inFlow then s.keys.drop 1 else s.keys
    keyAllowed := false }

def flowEntry (s : Scanner) : Scan := do
  let s ← { s with keyAllowed := true }.dropKey
  .ok (s.forward.push s.mark .flowEntry)

def blockEntry (s : Scanner) : Scan := do
  if !s.inFlow && !s.keyAllowed then s.fail .misplacedEntry
  else
    let s := if s.inFlow then s else s.addIndent s.mark s.tokens.length .blockSequenceStart
    let s ← { s with keyAllowed := true }.dropKey
    .ok (s.forward.push s.mark .entry)

/-- The value sign turns the token before it into a key. -/
def value (s : Scanner) : Scan := do
  match s.key? with
  | some k =>
    let s := s.setKey none
    let s := s.insertAt k.index ⟨.key, k.mark⟩
    let s := if s.inFlow then s else s.addIndent k.mark k.index .blockMappingStart
    .ok { s.forward.push s.mark .value with keyAllowed := false }
  | none =>
    if !s.inFlow && !s.keyAllowed then s.fail .misplacedValue
    else
      let s := if s.inFlow then s else s.addIndent s.mark s.tokens.length .blockMappingStart
      let s ← { s with keyAllowed := !s.inFlow }.dropKey
      .ok (s.forward.push s.mark .value)

def quotedScalar (s : Scanner) (quote : Char) : Scan := do
  let s ← s.saveKey
  let start := s.mark
  let s := { s with keyAllowed := false }
  let (text, s) ← takeQuoted quote start (s.rest.length + 1) [] s.forward
  .ok (s.push start (.scalar false text))

def plainScalar (s : Scanner) : Scan := do
  let s ← s.saveKey
  let start := s.mark
  let s := { s with keyAllowed := false }
  let indent := match s.indents.head? with
    | some i => i + 1
    | none => 0
  let (text, s) := takePlain indent (s.rest.length + 1) [] [] s
  .ok (s.push start (.scalar true text))

/-- Signs that cannot begin a plain scalar. -/
def isIndicator (c : Char) : Bool := " \t\n-?:,[]\x7b\x7d#&*!|>'\"%@\x60".toList.contains c

def startsPlain (s : Scanner) (c : Char) (rest : List Char) : Bool :=
  !isIndicator c || (!endsHere rest && (c == '-' || (!s.inFlow && (c == '?' || c == ':'))))

/-- Three hyphens at the start of a line begin a document. -/
def documentStart (s : Scanner) : Scan := do
  let s ← (s.unwind none).dropKey
  .ok { (forwardBy 3 s).push s.mark .documentStart with keyAllowed := false }

def token (s : Scanner) (c : Char) (rest : List Char) : Scan :=
  if s.column = 0 ∧ Text.startsWith "---".toList s.rest ∧ endsHere (s.rest.drop 3) then
    s.documentStart
  else if c = '[' then s.openFlow .flowSequenceStart
  else if c = '\x7b' then s.openFlow .flowMappingStart
  else if c = ']' then s.closeFlow .flowSequenceEnd
  else if c = '\x7d' then s.closeFlow .flowMappingEnd
  else if c = ',' then s.flowEntry
  else if c = '-' ∧ endsHere rest then s.blockEntry
  else if c = ':' ∧ (s.inFlow ∨ endsHere rest) then s.value
  else if c = '\'' ∨ c = '"' then s.quotedScalar c
  else if s.startsPlain c rest then s.plainScalar
  else s.fail (.unknownStart c)

/-- The tokens that nothing further on can change: those before the first possible key. -/
def settled (s : Scanner) : List Placed :=
  let open? := s.keys.filterMap fun key? => key?.filter fun k => k.isRequired || !s.isStale k
  s.tokens.take (open?.foldl (fun n k => min n k.index) s.tokens.length)

/-- Adds the next tokens; nothing where the text ends. -/
def next? (s : Scanner) : Except ScanError (Option Scanner) := do
  let s ← (skipBlank (s.rest.length + 1) s).dropStaleKeys
  match s.rest with
  | [] => return none
  | c :: rest => return some (← (s.unwind (some s.column)).token c rest)

/-- Reads tokens to the end of the text, or up to an error; then only those that are settled. Either
way it is told where. -/
def run : (fuel : Nat) → Scanner → List Placed × Except ScanError Mark
  | 0, s => (s.tokens, .ok s.mark)
  | fuel + 1, s =>
    match s.next? with
    | .error e => (s.settled, .error e)
    | .ok (some s) => run fuel s
    | .ok none =>
      let s := skipBlank (s.rest.length + 1) s
      match (s.unwind none).dropKey with
      | .error e => (s.settled, .error e)
      | .ok s => (s.tokens, .ok s.mark)

end Scanner

def tokens (cs : List Char) : List Placed × Except ScanError Mark :=
  let cs := if cs.head? = some '\uFEFF' then cs.drop 1 else cs
  Scanner.run (cs.length + 1) { rest := cs }

end Pagewright.Yaml
