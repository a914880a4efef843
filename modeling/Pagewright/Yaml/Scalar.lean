import Pagewright.Text.Lines
import Pagewright.Text.Word
import Pagewright.Site.Value

/-! The types of plain scalars: nothing, truth values, numbers, and text for all else. -/
namespace Pagewright.Yaml

def trueWords : List String :=
  ["yes", "Yes", "YES", "true", "True", "TRUE", "on", "On", "ON"]

def falseWords : List String :=
  ["no", "No", "NO", "false", "False", "FALSE", "off", "Off", "OFF"]

def nullWords : List String := ["", "~", "null", "Null", "NULL"]

def isDigitOf (base : Nat) (c : Char) : Bool :=
  if base ≤ 10 then '0' ≤ c && c.toNat < '0'.toNat + base
  else Text.isHexDigit c

/-- Digits of a base with low lines among them. -/
def isNumeral (base : Nat) (cs : List Char) : Bool :=
  cs.all fun c => isDigitOf base c || c == '_'

/-- Low lines do not count. -/
def digitsValue (base : Nat) (cs : List Char) : Nat :=
  (cs.filter (· != '_')).foldl (fun n c => n * base + if c.isDigit then c.toNat - '0'.toNat
    else c.toLower.toNat - 'a'.toNat + 10) 0

def takeSign (cs : List Char) : Bool × List Char :=
  match cs with
  | '-' :: rest => (true, rest)
  | '+' :: rest => (false, rest)
  | cs => (false, cs)

/-- Numbers of base 60 are written with colons. -/
def sexagesimal? (cs : List Char) : Option Nat :=
  match Text.fields ':' cs with
  | first :: second :: more =>
    let isPart (part : List Char) : Bool :=
      match part with
      | [c] => c.isDigit
      | [c, d] => c.isDigit && c ≤ '5' && d.isDigit
      | _ => false
    if first.head?.any (fun c => c.isDigit && c != '0') && isNumeral 10 first &&
        (second :: more).all isPart then
      some ((second :: more).foldl (fun n part => n * 60 + digitsValue 10 part)
        (digitsValue 10 first))
    else none
  | _ => none

/-- What stands after the sign of a base is a number even if it is low lines alone, but then it
has no value, and the base is given back. -/
def based? (base : Nat) (cs : List Char) : Option (Except Nat Nat) :=
  if cs.isEmpty || !isNumeral base cs then none
  else if cs.all (· == '_') then some (.error base)
  else some (.ok (digitsValue base cs))

def magnitude? (cs : List Char) : Option (Except Nat Nat) :=
  match cs with
  | '0' :: 'b' :: rest => based? 2 rest
  | '0' :: 'x' :: rest => based? 16 rest
  | '0' :: rest => if isNumeral 8 rest then some (.ok (digitsValue 8 rest)) else none
  | c :: _ =>
    if !c.isDigit then none
    else if isNumeral 10 cs then some (.ok (digitsValue 10 cs))
    else (sexagesimal? cs).map .ok
  | [] => none

def int? (cs : List Char) : Option (Except Nat Int) :=
  let (negative, cs) := takeSign cs
  (magnitude? cs).map fun n? => n?.map fun n => if negative then -(n : Int) else n

/-- Digits, a point and digits, and perhaps an exponent with a sign. A point that comes first has
no sign before it. -/
def decimal? (cs : List Char) : Option Value := do
  let unsigned := cs
  let (negative, cs) := takeSign cs
  let isPart (c : Char) : Bool := c.isDigit || c == '_'
  let whole := cs.takeWhile isPart
  let '.' :: rest := cs.drop whole.length | none
  let places := rest.takeWhile isPart
  let exponent ← match rest.drop places.length with
    | [] => some (0 : Int)
    | e :: sign :: power =>
      if e.toLower = 'e' ∧ (sign = '+' ∨ sign = '-') ∧ !power.isEmpty ∧ power.all Char.isDigit then
        some (if sign = '-' then -(digitsValue 10 power : Int) else digitsValue 10 power)
      else none
    | _ => none
  if whole.head?.all Char.isDigit && (!whole.isEmpty || (cs == unsigned && places.head?.any Char.isDigit)) then
    let n : Int := digitsValue 10 (whole ++ places)
    let n := if negative then -n else n
    let scale := ((places.filter (· != '_')).length : Int) - exponent
    some (if scale < 0 then .decimal (n * Int.pow 10 (-scale).toNat) 0 else .decimal n scale.toNat)
  else none

/-- The value of a plain scalar, or the base of a number that has no digits. -/
def plainValue (cs : List Char) : Except Nat Value :=
  let s := String.ofList cs
  if nullWords.contains s then .ok .null
  else if trueWords.contains s then .ok (.bool true)
  else if falseWords.contains s then .ok (.bool false)
  else match int? cs with
    | some n? => n?.map .int
    | none => .ok ((decimal? cs).getD (.text s))

end Pagewright.Yaml
