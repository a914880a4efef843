/-! Values that a configuration is made of. -/
namespace Pagewright

inductive Value where
  | null
  | bool (b : Bool)
  | int (n : Int)
  /-- The mantissa with so many of its digits behind the point. -/
  | decimal (mantissa : Int) (places : Nat)
  /-- Infinite, or no number although it is written as one. -/
  | unbounded
  | text (s : String)
  | bytes (content : List UInt8)
  | date
  /-- A date with a time of the day. -/
  | moment
  | list (items : List Value)
  | tuple (items : List Value)
  /-- Each member is there once. -/
  | set (members : List Value)
  | object (fields : List (Value × Value))
  deriving Inhabited, Repr

namespace Value

/-- Nothing, zero and what is empty count as no. -/
def isSet : Value → Bool
  | null => false
  | bool b => b
  | int n => n != 0
  | decimal m _ => m != 0
  | unbounded | date | moment => true
  | text s => !s.isEmpty
  | bytes content => !content.isEmpty
  | list items | tuple items | set items => !items.isEmpty
  | object fields => !fields.isEmpty

def get? (key : String) : Value → Option Value
  | object fields => fields.findSome? fun (k, v) => match k with
    | text s => if s = key then some v else none
    | _ => none
  | _ => none

def text? : Value → Option String
  | text s => some s
  | _ => none

def items? : Value → Option (List Value)
  | list items | tuple items => some items
  | _ => none

/-- The members in order: characters of a text, items of a list, keys of an object. -/
def members? : Value → Option (List Value)
  | text s => some (s.toList.map fun c => text (String.singleton c))
  | bytes content => some (content.map fun byte => int byte.toNat)
  | list items | tuple items | set items => some items
  | object fields => some (fields.map (·.1))
  | _ => none

/-- A number as a mantissa with so many of its digits behind the point; truth counts as one. -/
def number? : Value → Option (Int × Nat)
  | bool b => some (if b then 1 else 0, 0)
  | int n => some (n, 0)
  | decimal m places => some (m, places)
  | _ => none

/-- Whether two values are one key of an object. -/
def isSameKey : Value → Value → Bool
  | null, null => true
  | text s, text t => s == t
  | v, w =>
    match v.number?, w.number? with
    | some (m, p), some (n, q) => m * Int.pow 10 q == n * Int.pow 10 p
    | _, _ => false

/-- The name of a kind of value in messages. -/
def kind : Value → String
  | null => "NoneType"
  | bool _ => "bool"
  | int _ => "int"
  | decimal .. | unbounded => "float"
  | text _ => "str"
  | bytes _ => "bytes"
  | date => "datetime.date"
  | moment => "datetime.datetime"
  | list _ => "list"
  | tuple _ => "tuple"
  | set _ => "set"
  | object _ => "dict"

/-- How a value that counts as no is written. -/
def unsetText : Value → String
  | null => "None"
  | bool _ => "False"
  | int _ => "0"
  | decimal .. => "0.0"
  | text _ => "''"
  | bytes _ => "b''"
  | list _ => "[]"
  | tuple _ => "()"
  | set _ => "set()"
  | object _ => "\x7b\x7d"
  | unbounded | date | moment => ""

/-- The name of a kind of value without the module that it comes from. -/
def shortKind : Value → String
  | date => "date"
  | moment => "datetime"
  | v => v.kind

end Value

end Pagewright
