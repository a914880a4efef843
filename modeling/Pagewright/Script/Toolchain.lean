import Pagewright.Script.Command

/-! The script compiler that pages share: looked up once, at its first use, under the name that was
configured. -/
namespace Pagewright.Script

inductive Lookup where
  | found (path : String)
  | missing
  deriving DecidableEq, Repr

structure Toolchain where
  executable : String := "esbuild"
  lookup? : Option Lookup := none
  deriving DecidableEq, Repr

/-- Told once by every toolchain, when it has been looked up. -/
inductive Notice where
  | loaded (path : String)
  | unavailable (executable : String)
  deriving DecidableEq, Repr

namespace Toolchain

def ready (t : Toolchain) : Bool := t.lookup?.isSome

def resolve (t : Toolchain) (env : Environment) : Lookup :=
  t.lookup?.getD <| match env.locate t.executable with
    | some path => .found path
    | none => .missing

def started (t : Toolchain) (env : Environment) : Toolchain :=
  { t with lookup? := some (t.resolve env) }

/-- A toolchain that is ready looks for nothing. -/
def sought (t : Toolchain) : List String := if t.ready then [] else [t.executable]

/-- A toolchain that is ready has nothing more to tell. -/
def notices (t : Toolchain) (env : Environment) : List Notice :=
  if t.ready then []
  else match t.resolve env with
    | .found path => [.loaded path]
    | .missing => [.unavailable t.executable]

/-- A missing compiler leaves the source as it is. -/
def compile (t : Toolchain) (env : Environment) (r : Request) : Except Rejection String :=
  match t.resolve env with
  | .found path => r.run env path
  | .missing => .ok r.source

end Toolchain

/-- The script compiler that pages share, as it was configured. -/
inductive Shared where
  | named (tool : Toolchain)
  /-- There is nothing to look for, and each compilation fails. -/
  | unnamed (cause : NoName)
  deriving DecidableEq, Repr

/-- What is found for a shared compiler, if it has a name to be looked for. -/
abbrev Found := Except NoName Lookup

namespace Shared

def configured : Except NoName String → Shared
  | .ok executable => named { executable }
  | .error cause => unnamed cause

def ready : Shared → Bool
  | named tool => tool.ready
  | unnamed _ => false

def resolve (s : Shared) (env : Environment) : Found :=
  match s with
  | named tool => .ok (tool.resolve env)
  | unnamed cause => .error cause

def started (s : Shared) (env : Environment) : Shared :=
  match s with
  | named tool => named (tool.started env)
  | unnamed cause => unnamed cause

def notices (s : Shared) (env : Environment) : List Notice :=
  match s with
  | named tool => tool.notices env
  | unnamed _ => []

def compile (s : Shared) (env : Environment) (r : Request) : Except Error String :=
  match s with
  | named tool => (tool.compile env r).mapError .rejected
  | unnamed cause => .error (.noName cause)

end Shared

end Pagewright.Script
