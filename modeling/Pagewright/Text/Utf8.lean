import Pagewright.Text.Quoted

/-! Bytes as text: UTF-8, and what is said of bytes that are none. -/
namespace Pagewright.Text

inductive Utf8Cause where
  | badStart | badContinuation | endOfData
  deriving DecidableEq, Repr

def Utf8Cause.message : Utf8Cause → String
  | .badStart => "invalid start byte"
  | .badContinuation => "invalid continuation byte"
  | .endOfData => "unexpected end of data"

/-- The first bytes that are no character. -/
structure Utf8Error where
  cause : Utf8Cause
  offset : Nat
  first : UInt8
  /-- How many bytes after the first one would go on with it. -/
  more : Nat
  deriving DecidableEq, Repr

def Utf8Error.message (e : Utf8Error) : String :=
  let bytes :=
    if e.more = 0 then
      s!"byte 0x{String.ofList (hexDigits 2 e.first.toNat)} in position {e.offset}"
    else s!"bytes in position {e.offset}-{e.offset + e.more}"
  s!"'utf-8' codec can't decode {bytes}: {e.cause.message}"

/-- The bytes that have to follow the first one of a character, each as a range. There are none
after a byte that stands alone or begins no character. -/
def continuations (first : UInt8) : List (UInt8 × UInt8) :=
  let any := (0x80, 0xBF)
  if first < 0xC2 then []
  else if first < 0xE0 then [any]
  else if first = 0xE0 then [(0xA0, 0xBF), any]
  else if first = 0xED then [(0x80, 0x9F), any]
  else if first < 0xF0 then [any, any]
  else if first = 0xF0 then [(0x90, 0xBF), any, any]
  else if first < 0xF4 then [any, any, any]
  else if first = 0xF4 then [(0x80, 0x8F), any, any]
  else []

/-- How many of the bytes lie in these ranges, each in its own, before one that does not. -/
def fitting : List (UInt8 × UInt8) → List UInt8 → Nat
  | (low, high) :: ranges, byte :: bytes =>
    if low ≤ byte ∧ byte ≤ high then fitting ranges bytes + 1 else 0
  | _, _ => 0

/-- The length of the longest front that is a text, among those of at most so many bytes. -/
def textLength (bytes : ByteArray) : (most : Nat) → Nat
  | 0 => 0
  | n + 1 => if (bytes.extract 0 (n + 1)).validateUTF8 then n + 1 else textLength bytes n

/-- What is said of bytes that are no text. -/
def utf8Error (bytes : ByteArray) : Utf8Error :=
  let offset := textLength bytes bytes.size
  let rest := bytes.toList.drop offset
  let first := rest.headD 0
  let ranges := continuations first
  let more := fitting ranges (rest.drop 1)
  let cause :=
    if ranges.isEmpty then .badStart
    else if more + 1 < rest.length then .badContinuation
    else .endOfData
  { cause, offset, first, more }

/-- Every kind of line end is read as a newline. -/
def unifyNewlines : List Char → List Char
  | [] => []
  | '\r' :: '\n' :: cs => '\n' :: unifyNewlines cs
  | c :: cs => (if c = '\r' then '\n' else c) :: unifyNewlines cs

/-- The text that a file holds. -/
def decode (bytes : ByteArray) : Except Utf8Error String :=
  match String.fromUTF8? bytes with
  | some s => .ok (String.ofList (unifyNewlines s.toList))
  | none => .error (utf8Error bytes)

end Pagewright.Text
