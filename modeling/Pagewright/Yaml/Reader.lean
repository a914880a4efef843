import Pagewright.Text.Utf8
import Pagewright.Yaml.Scalar
import Pagewright.Yaml.Token

/-! Reading a YAML document as a value. -/
namespace Pagewright.Yaml

inductive Collection where
  | blockSequence | blockMapping | flowSequence | flowMapping
  deriving DecidableEq, Repr

inductive ParseCause where
  /-- A collection that begins here neither goes on nor ends. -/
  | unended (collection : Collection) (start : Mark) (found? : Option Token)
  | noContent (inFlow : Bool) (found? : Option Token)
  | noDocument (found? : Option Token)
  /-- There is a second document; the content of the first begins here. -/
  | secondDocument (first : Mark)
  deriving DecidableEq, Repr

structure ParseError where
  cause : ParseCause
  mark : Mark
  deriving DecidableEq, Repr

inductive ReadError where
  | notText (cause : Text.Utf8Error)
  | scan (cause : ScanError)
  | parse (cause : ParseError)
  /-- A number has the sign of its base and no digits. -/
  | noDigits (base : Nat)
  /-- Whatever else a reader may say. -/
  | other (message : String)
  deriving DecidableEq, Repr

/-- What is said of an error: what was being read and from where, what is wrong and where. -/
structure Report where
  context? : Option String := none
  start? : Option Mark := none
  problem : String
  mark : Mark

namespace Report

def place (file : String) (mark : Mark) : String :=
  s!"  in \"{file}\", line {mark.line + 1}, column {mark.column + 1}"

/-- A place that would be told twice is told once. -/
def message (file : String) (r : Report) : String :=
  let start? := r.start?.filter (· != r.mark)
  "\n".intercalate
    (r.context?.toList ++ start?.toList.map (place file) ++ [r.problem, place file r.mark])

end Report

def quotedChar (c : Char) : String := String.ofList (Text.quoted [c])

def ScanError.report (e : ScanError) : Report :=
  let inQuotes := "while scanning a quoted scalar"
  let inDoubleQuotes := "while scanning a double-quoted scalar"
  match e.cause with
  | .unknownStart c =>
    { context? := "while scanning for the next token"
      problem := s!"found character {quotedChar c} that cannot start any token"
      mark := e.mark }
  | .misplacedValue => { problem := "mapping values are not allowed here", mark := e.mark }
  | .misplacedEntry => { problem := "sequence entries are not allowed here", mark := e.mark }
  | .missingValue key =>
    { context? := "while scanning a simple key", start? := key
      problem := "could not find expected ':'", mark := e.mark }
  | .unclosedQuote quote =>
    { context? := inQuotes, start? := quote
      problem := "found unexpected end of stream", mark := e.mark }
  | .unknownEscape quote c =>
    { context? := inDoubleQuotes, start? := quote
      problem := s!"found unknown escape character {quotedChar c}", mark := e.mark }
  | .shortEscape quote width c =>
    { context? := inDoubleQuotes, start? := quote
      problem := s!"expected escape sequence of {width} hexadecimal numbers, " ++
        s!"but found {quotedChar c}"
      mark := e.mark }

/-- Where no token is left the text ends. -/
def tokenName : Option Token → String
  | none => "<stream end>"
  | some .documentStart => "<document start>"
  | some .blockSequenceStart => "<block sequence start>"
  | some .blockMappingStart => "<block mapping start>"
  | some .blockEnd => "<block end>"
  | some .flowSequenceStart => "["
  | some .flowSequenceEnd => "]"
  | some .flowMappingStart => "\x7b"
  | some .flowMappingEnd => "\x7d"
  | some .flowEntry => ","
  | some .entry => "-"
  | some .key => "?"
  | some .value => ":"
  | some (.scalar ..) => "<scalar>"

namespace Collection

def text : Collection → String
  | blockSequence => "block collection"
  | blockMapping => "block mapping"
  | flowSequence => "flow sequence"
  | flowMapping => "flow mapping"

/-- What has to come if a collection does not go on. -/
def expected : Collection → String
  | blockSequence | blockMapping => "expected <block end>, but found"
  | flowSequence => "expected ',' or ']', but got"
  | flowMapping => "expected ',' or '\x7d', but got"

end Collection

def ParseError.report (e : ParseError) : Report :=
  match e.cause with
  | .unended collection start found? =>
    { context? := s!"while parsing a {collection.text}", start? := start
      problem := s!"{collection.expected} '{tokenName found?}'", mark := e.mark }
  | .noContent inFlow found? =>
    { context? := if inFlow then "while parsing a flow node" else "while parsing a block node"
      problem := s!"expected the node content, but found '{tokenName found?}'", mark := e.mark }
  | .noDocument found? =>
    { problem := s!"expected '<document start>', but found '{tokenName found?}'", mark := e.mark }
  | .secondDocument first =>
    { context? := "expected a single document in the stream", start? := first
      problem := "but found another document", mark := e.mark }

/-- What is said of an error in a file of this name. -/
def ReadError.message (file : String) : ReadError → String
  | .notText cause => cause.message
  | .scan cause => cause.report.message file
  | .parse cause => cause.report.message file
  | .noDigits base => s!"invalid literal for int() with base {base}: ''"
  | .other message => message

/-- The tokens that are left, and behind them the error that ends them or the end of the text. -/
structure Input where
  tokens : List Placed
  stop : Except ScanError Mark
  /-- Base of the first number without digits; it spoils a document that is sound otherwise. -/
  noDigits? : Option Nat := none

abbrev Reading := StateT Input (Except ReadError)

namespace Reading

/-- The text ended in an error if it could not be cut up any further. -/
def fail {α : Type} (cause : Option Token → ParseCause) : Reading α := do
  let i ← get
  match i.tokens, i.stop with
  | t :: _, _ => throw (.parse ⟨cause (some t.token), t.mark⟩)
  | [], .error e => throw (.scan e)
  | [], .ok mark => throw (.parse ⟨cause none, mark⟩)

def isNext (ts : List Token) : Reading Bool := do
  return (← get).tokens.head?.any fun t => ts.contains t.token

def skip : Reading Unit := modify fun i => { i with tokens := i.tokens.drop 1 }

/-- Takes a token that has to come here, if the collection does not go on. -/
def expect (t : Token) (collection : Collection) (start : Mark) : Reading Unit := do
  if ← isNext [t] then skip else fail (.unended collection start)

/-- Takes a token if it comes here. -/
def accept (t : Token) : Reading Bool := do
  if ← isNext [t] then
    skip
    return true
  else return false

end Reading

/-- A key given again keeps its place and takes the new value. -/
def insertField (key v : Value) : List (Value × Value) → List (Value × Value)
  | [] => [(key, v)]
  | (k, w) :: rest => if k.isSameKey key then (k, v) :: rest else (k, w) :: insertField key v rest

def mapping (pairs : List (Value × Value)) : Value :=
  .object (pairs.foldl (fun fields (k, v) => insertField k v fields) [])

/-- Where a node stands decides which tokens can begin it. -/
inductive Place where
  | block
  /-- A sequence may stand as far left as the mapping it is in. -/
  | inMapping
  | flow
  deriving DecidableEq

open Reading

/-- A node unless one of these tokens comes in its place. -/
def orNothing (read : Reading Value) (ends : List Token) : Reading Value := do
  if ← isNext ends then return .null else read

/-- The value of a pair, which may be left out with its sign. -/
def pairValue (read : Reading Value) (ends : List Token) : Reading Value := do
  if ← accept .value then orNothing read ends else return .null

def readPlain (text : List Char) : Reading Value := do
  match plainValue text with
  | .ok v => return v
  | .error base =>
    modify fun i => { i with noDigits? := i.noDigits? <|> some base }
    return .null

mutual

def readNode : (fuel : Nat) → Place → Reading Value
  | 0, place => fail (.noContent (place == .flow))
  | fuel + 1, place => do
    let fail := fail (.noContent (place == .flow))
    match (← get).tokens.head? with
    | some ⟨.scalar plain text, _⟩ =>
      skip
      if plain then readPlain text else return .text (String.ofList text)
    | some ⟨.flowSequenceStart, start⟩ =>
      skip
      readFlowItems fuel start true []
    | some ⟨.flowMappingStart, start⟩ =>
      skip
      readFlowPairs fuel start true []
    | some ⟨.blockSequenceStart, start⟩ =>
      if place = .flow then fail
      else
        skip
        readItems fuel start []
    | some ⟨.blockMappingStart, start⟩ =>
      if place = .flow then fail
      else
        skip
        readPairs fuel start []
    | some ⟨.entry, _⟩ => if place = .inMapping then readEntries fuel [] else fail
    | _ => fail

/-- Entries of a block sequence up to its end. -/
def readItems : (fuel : Nat) → (start : Mark) → List Value → Reading Value
  | 0, start, _ => fail (.unended .blockSequence start)
  | fuel + 1, start, items => do
    if ← accept .entry then
      let item ← orNothing (readNode fuel .block) [.entry, .blockEnd]
      readItems fuel start (items ++ [item])
    else
      expect .blockEnd .blockSequence start
      return .list items

/-- Entries of a sequence without an indentation of its own. -/
def readEntries : (fuel : Nat) → List Value → Reading Value
  | 0, _ => fail (.noContent false)
  | fuel + 1, items => do
    if ← accept .entry then
      let item ← orNothing (readNode fuel .block) [.entry, .key, .value, .blockEnd]
      readEntries fuel (items ++ [item])
    else return .list items

/-- Pairs of a block mapping up to its end. -/
def readPairs : (fuel : Nat) → (start : Mark) → List (Value × Value) → Reading Value
  | 0, start, _ => fail (.unended .blockMapping start)
  | fuel + 1, start, pairs => do
    if ← accept .key then
      let ends := [.key, .value, .blockEnd]
      let key ← orNothing (readNode fuel .inMapping) ends
      let v ← pairValue (readNode fuel .inMapping) ends
      readPairs fuel start (pairs ++ [(key, v)])
    else
      expect .blockEnd .blockMapping start
      return mapping pairs

/-- Items between brackets; a pair among them is a mapping of its own. -/
def readFlowItems : (fuel : Nat) → (start : Mark) → (first : Bool) → List Value → Reading Value
  | 0, start, _, _ => fail (.unended .flowSequence start)
  | fuel + 1, start, first, items => do
    if !first && !(← isNext [.flowSequenceEnd]) then expect .flowEntry .flowSequence start
    if ← accept .flowSequenceEnd then return .list items
    else if ← accept .key then
      let ends := [.flowEntry, .flowSequenceEnd]
      let key ← orNothing (readNode fuel .flow) (.value :: ends)
      let v ← pairValue (readNode fuel .flow) ends
      readFlowItems fuel start false (items ++ [mapping [(key, v)]])
    else
      let item ← readNode fuel .flow
      readFlowItems fuel start false (items ++ [item])

/-- Pairs between braces. -/
def readFlowPairs : (fuel : Nat) → (start : Mark) → (first : Bool) → List (Value × Value) →
    Reading Value
  | 0, start, _, _ => fail (.unended .flowMapping start)
  | fuel + 1, start, first, pairs => do
    if !first && !(← isNext [.flowMappingEnd]) then expect .flowEntry .flowMapping start
    if ← accept .flowMappingEnd then return mapping pairs
    else if ← accept .key then
      let ends := [.flowEntry, .flowMappingEnd]
      let key ← orNothing (readNode fuel .flow) (.value :: ends)
      let v ← pairValue (readNode fuel .flow) ends
      readFlowPairs fuel start false (pairs ++ [(key, v)])
    else
      let key ← readNode fuel .flow
      readFlowPairs fuel start false (pairs ++ [(key, .null)])

end

/-- A text without tokens is nothing; a document is one node. -/
def readDocument (fuel : Nat) : Reading Value := do
  let _ ← accept .documentStart
  let i ← get
  if i.tokens.isEmpty && i.stop.isOk then return .null
  else
    let v ← orNothing (readNode fuel .block) [.documentStart]
    let j ← get
    if ← isNext [.documentStart] then
      fail fun _ => .secondDocument ((i.tokens.head?.map Placed.mark).getD ⟨0, 0⟩)
    else if !j.tokens.isEmpty || !j.stop.isOk then fail .noDocument
    else match j.noDigits? with
      | some base => throw (.noDigits base)
      | none => return v

def read (cs : List Char) : Except ReadError Value :=
  let (tokens, stop) := tokens cs
  (readDocument (3 * tokens.length + 3)).run' { tokens, stop }

/-- What a file with these bytes says. -/
def load (content : ByteArray) : Except ReadError Value :=
  match Text.decode content with
  | .ok text => read text.toList
  | .error cause => .error (.notText cause)

end Pagewright.Yaml
