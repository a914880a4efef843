import Pagewright.Markdown.Piece

/-! Links and images: a text in brackets, then a target and perhaps a title in parentheses. -/
namespace Pagewright.Markdown.Link

/-- The pieces up to the bracket that closes one already open, and those after it. -/
def takeLabel : (depth : Nat) → List Piece → Option (List Piece × List Piece)
  | _, [] => none
  | depth, p :: rest =>
    if p.isChar ']' ∧ depth = 0 then some ([], rest)
    else
      let depth :=
        if p.isChar ']' then depth - 1 else if p.isChar '[' then depth + 1 else depth
      (takeLabel depth rest).map fun (label, rest) => (p :: label, rest)

structure Target where
  href : List Piece
  title : Option (List Piece) := none

def skipBlank (ps : List Piece) : List Piece := ps.dropWhile Piece.isBlank

/-- A title in one kind of quotes. -/
def takeQuoted (ps : List Piece) : Option (List Piece × List Piece) :=
  match ps with
  | .char q :: rest =>
    if q = '"' ∨ q = '\'' then
      let title := rest.takeWhile (!·.isChar q)
      match rest.drop title.length with
      | _ :: after => some (title, after)
      | [] => none
    else none
  | _ => none

/-- A target in angle brackets, up to the closing parenthesis. -/
def takeAngled (ps : List Piece) : Option (Target × List Piece) :=
  match ps with
  | .char '<' :: rest =>
    let href := rest.takeWhile fun p => !p.isChar '<' && !p.isChar '>'
    match rest.drop href.length with
    | .char '>' :: after =>
      let after := skipBlank after
      let (title, after) := match takeQuoted after with
        | some (title, after) => (some title, skipBlank after)
        | none => (none, after)
      match after with
      | .char ')' :: after => some ({ href := Piece.trim href, title }, after)
      | _ => none
    | _ => none
  | _ => none

/-- A quote that has begun; `last` is the place after its last sign so far. -/
structure Quote where
  sign : Char
  start : Nat
  last? : Option Nat := none

/-- What is known of a bare target at some place. A quote suspends the parentheses; `spare`
counts those that would be open if it turned out to be none. -/
structure Scan where
  depth : Nat := 1
  spare : Nat := 1
  fallback? : Option Nat := none
  quote? : Option Quote := none
  other? : Option Quote := none
  before : Option Char := none

namespace Scan

/-- Whether the quote ended directly before this place. -/
def isEnded (s : Scan) (q? : Option Quote) : Bool :=
  q?.any fun q => q.last?.isSome && s.before == some q.sign

def addQuote (s : Scan) (c : Char) (pos : Nat) : Scan :=
  match s.quote? with
  | none => { s with spare := s.depth, depth := 1, quote? := some ⟨c, pos + 1, none⟩ }
  | some q =>
    if c = q.sign then { s with quote? := some { q with last? := some (pos + 1) } }
    else
      match s.other? with
      | none => { s with other? := some ⟨c, pos + 1, none⟩ }
      | some o => { s with other? := some { o with last? := some (pos + 1) } }

def step (s : Scan) (p : Piece) (pos : Nat) : Scan :=
  match p.char? with
  | some '(' =>
    if s.quote?.isNone then { s with depth := s.depth + 1 } else { s with spare := s.spare - 1 }
  | some ')' =>
    if s.isEnded s.quote? || s.isEnded s.other? then { s with depth := 0 }
    else if s.quote?.isNone then { s with depth := s.depth - 1 }
    else if s.spare = 1 then { s with spare := 0, fallback? := some (pos + 1) }
    else { s with spare := s.spare - 1 }
  | some c => if c = '"' ∨ c = '\'' then s.addQuote c pos else s
  | none => s

/-- The target once its parenthesis is closed at a place. -/
def target (s : Scan) (all : List Piece) (pos : Nat) : Target :=
  let quoted (q : Quote) : Target :=
    { href := all.take (q.start - 1)
      title := some ((all.take (q.last?.getD 0 - 1)).drop q.start) }
  match s.quote?, s.other? with
  | some q, o? =>
    if s.isEnded (some q) then quoted q
    else match o? with
      | some o => if s.isEnded (some o) then quoted o else { href := all.take pos }
      | none => { href := all.take pos }
  | none, _ => { href := all.take pos }

end Scan

/-- The target when no parenthesis closes it: it ends where one would have closed it without the
quote. Parentheses that open in the quote can use those up before any closes; then all but the
last two pieces are the target, and the last one stands after it. -/
def Scan.unclosed (s : Scan) (all : List Piece) : Option (Target × List Piece) :=
  if s.spare = 0 then
    let stop := s.fallback?.getD (all.length - 1)
    some ({ href := all.take (stop - 1) }, all.drop stop)
  else none

def takeBare (all : List Piece) (s : Scan) (pos : Nat) :
    List Piece → Option (Target × List Piece)
  | [] => s.unclosed all
  | p :: rest =>
    let s := s.step p pos
    if s.depth = 0 then some (s.target all pos, rest)
    else
      let before := if p.isChar ' ' then s.before else p.char?
      takeBare all { s with before } (pos + 1) rest

/-- Quotes that are left around a title go. -/
def unquote (title : List Piece) : List Piece :=
  let framed (c : Char) := title.head?.any (Piece.isChar c) && title.getLast?.any (Piece.isChar c)
  if framed '"' || framed '\'' then (title.drop 1).dropLast else title

def cleanTitle (title : List Piece) : List Piece :=
  (unquote (plainAll (Piece.trim title))).map fun p => if p.isBlank then .char ' ' else p

def takeTarget (ps : List Piece) : Option (Target × List Piece) :=
  match ps with
  | .char '(' :: rest =>
    let rest := skipBlank rest
    (takeAngled rest <|> takeBare rest {} 0 rest).map fun (t, after) =>
      ({ href := Piece.trim (plainAll t.href), title := t.title.map cleanTitle }, after)
  | _ => none

def Target.attributes (t : Target) (key : String) : List (String × List Piece) :=
  (key, t.href) :: t.title.toList.map fun title => ("title", title)

def look : Look := fun behind ahead =>
  match ahead with
  | .char '[' :: rest =>
    if behind.head?.any (Piece.isChar '!') then none
    else do
      let (label, rest) ← takeLabel 0 rest
      let (target, after) ← takeTarget rest
      some (.element "a" (target.attributes "href") label, after)
  | _ => none

def lookImage : Look := fun _ ahead =>
  match ahead with
  | .char '!' :: .char '[' :: rest => do
    let (label, rest) ← takeLabel 0 rest
    let (target, after) ← takeTarget rest
    let attributes := target.attributes "src" ++ [("alt", plainAll label)]
    some (.pieces [.span (.mk "img" attributes true [])], after)
  | _ => none

end Pagewright.Markdown.Link
