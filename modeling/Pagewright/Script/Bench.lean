import Pagewright.Script.Toolchain

/-! All toolchains of a run, each with its own handle; one of them is shared. -/
namespace Pagewright.Script

structure Bench where
  env : Environment
  /-- A handle is the place of a toolchain here, and stays with it. -/
  tools : List Toolchain
  shared : Nat
  shared_lt : shared < tools.length

/-- What may happen to a bench. A toolchain may be started in the background, which is waited for
before anything else happens. -/
inductive Job where
  | start (handle : Nat)
  | compile (handle : Nat) (request : Request)
  | startShared
  | compileShared (request : Request)
  | configure (executable : String)
  /-- Executables appear or disappear. -/
  | change (env : Environment)

/-- What can be observed of a job. -/
structure Report where
  /-- Executables that were looked for. -/
  sought : List String := []
  notices : List Notice := []
  result? : Option (Except Rejection String) := none

/-- A toolchain is started, and compiles if there is something to compile. -/
def Toolchain.report (t : Toolchain) (env : Environment) (request? : Option Request) : Report where
  sought := t.sought
  notices := t.notices env
  result? := request?.map (t.compile env)

namespace Bench

def put (b : Bench) (handle : Nat) (t : Toolchain) : Bench where
  env := b.env
  tools := b.tools.set handle t
  shared := b.shared
  shared_lt := by rw [List.length_set]; exact b.shared_lt

/-- A handle without a toolchain does nothing. -/
def use (b : Bench) (handle : Nat) (request? : Option Request) : Report × Bench :=
  match b.tools[handle]? with
  | none => ({}, b)
  | some t => (t.report b.env request?, b.put handle (t.started b.env))

/-- A configured toolchain takes the place of the shared one, which stays with its handle. -/
def configure (b : Bench) (executable : String) : Bench where
  env := b.env
  tools := b.tools ++ [{ executable := executable }]
  shared := b.tools.length
  shared_lt := by simp

def perform (b : Bench) : Job → Report × Bench
  | .start handle => b.use handle none
  | .compile handle request => b.use handle (some request)
  | .startShared => b.use b.shared none
  | .compileShared request => b.use b.shared (some request)
  | .configure executable => ({}, b.configure executable)
  | .change env => ({}, { b with env })

end Bench

end Pagewright.Script
