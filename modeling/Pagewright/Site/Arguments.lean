import Pagewright.Text.Lines
import Pagewright.Text.Word

/-! The command line: one configuration file, and whether to build only once. -/
namespace Pagewright

inductive Command where
  | build (config : String) (once : Bool)
  | help
  | invalid
  deriving DecidableEq, Repr

namespace Command

/-- What an argument is read as. -/
inductive Argument where
  | plain (s : String)
  /-- All arguments after this are plain. -/
  | separator
  | once
  | help
  /-- An option that is not known; it makes the line invalid, but help may still come. -/
  | unknown
  /-- An option with a value it does not take. -/
  | wrong
  /-- A cut name that several options begin with; it spoils the line wherever it stands. -/
  | unclear
  deriving DecidableEq, Repr

def longOptions : List (List Char × Argument) :=
  [("--help".toList, .help), ("--once".toList, .once)]

/-- Long options may be cut short; the sign of a value makes them wrong. -/
def ofLong (cs : List Char) : Argument :=
  let name := cs.takeWhile (· != '=')
  match longOptions.filter fun (option, _) => name.isPrefixOf option with
  | [(_, a)] => if name.length < cs.length then .wrong else a
  | [] => if cs.contains ' ' then .plain (String.ofList cs) else .unknown
  | _ => .unclear

/-- Digits after a hyphen, perhaps with a point in them and a newline at the end, are no option. -/
def isNegativeNumber (cs : List Char) : Bool :=
  let number := if cs.getLast? = some '\n' then cs.dropLast else cs
  match Text.fields '.' number with
  | [whole] => !whole.isEmpty && whole.all Text.isDigit
  | [whole, part] => whole.all Text.isDigit && !part.isEmpty && part.all Text.isDigit
  | _ => false

/-- Letters after the short option for help are options of their own, and no other is known.
A sign of a value may stand before them. -/
def afterHelp (cs : List Char) : Argument :=
  let letters := if cs.head? = some '=' then cs.drop 1 else cs
  if letters.all (· == 'h') && (cs.isEmpty || !letters.isEmpty) then .help else .wrong

def ofShort (cs : List Char) : Argument :=
  if cs.head? = some 'h' then afterHelp (cs.drop 1)
  else if isNegativeNumber cs || cs.contains ' ' then .plain (String.ofList ('-' :: cs))
  else .unknown

def Argument.ofString (s : String) : Argument :=
  match s.toList with
  | ['-', '-'] => .separator
  | '-' :: '-' :: cs => ofLong ('-' :: '-' :: cs)
  | '-' :: c :: cs => ofShort (c :: cs)
  | _ => .plain s

def readArguments : List String → List Argument
  | [] => []
  | s :: rest =>
    match Argument.ofString s with
    | .separator => .separator :: rest.map .plain
    | a => a :: readArguments rest

structure State where
  config? : Option String := none
  once : Bool := false
  isInvalid : Bool := false
  /-- Whether a separator may still belong to the configuration. -/
  isOpen : Bool := true

/-- Takes the arguments in order; help ends the line, and so does a wrong option. -/
def take (s : State) : List Argument → Command
  | [] =>
    match s.config? with
    | some config => if s.isInvalid then .invalid else .build config s.once
    | none => .invalid
  | .help :: _ => .help
  | .wrong :: _ => .invalid
  | .unclear :: _ => .invalid
  | .once :: rest => take { s with once := true, isOpen := s.config?.isNone } rest
  | .unknown :: rest => take { s with isInvalid := true, isOpen := s.config?.isNone } rest
  | .separator :: rest => take { s with isInvalid := s.isInvalid || !s.isOpen } rest
  | .plain config :: rest =>
    if s.config?.isSome then take { s with isInvalid := true } rest
    else take { s with config? := some config } rest

def ofArguments (args : List String) : Command :=
  let read := readArguments args
  if read.contains .unclear then .invalid else take {} read

end Command

end Pagewright
