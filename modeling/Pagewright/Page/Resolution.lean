import Pagewright.Text.Lines
import Pagewright.Outline.Scanner
import Pagewright.Script.Command
import Pagewright.Page.Component

/-! Resolving a forest: components, style and script elements, and tags that move to the head. -/
namespace Pagewright

/-- Why a page cannot be made. -/
inductive Failure where
  | unclosed (cause : Outline.Unclosed)
  | script (cause : Script.Error)
  /-- A component that holds itself would never end. -/
  | endlessComponent
  deriving DecidableEq, Repr

/-- The rules that one page is resolved by. -/
structure Rules where
  compileScript : String → Except Script.Error String
  linkCompiledScripts : Bool := false

/-- What resolving keeps from one forest to the next, also when one of them fails. -/
structure Workshop where
  registry : Registry := []
  /-- Inline scripts that were given to the compiler. -/
  compiled : Nat := 0

abbrev Resolving := ExceptT Failure (StateM Workshop)

structure Resolution where
  kept : List Element := []
  /-- Elements that move to the head. -/
  hoisted : List Element := []
  scriptSources : List String := []

namespace Resolution

def append (a b : Resolution) : Resolution where
  kept := a.kept ++ b.kept
  hoisted := a.hoisted ++ b.hoisted
  scriptSources := a.scriptSources ++ b.scriptSources

instance : Append Resolution := ⟨append⟩

end Resolution

/-- The link to a compiled script; the name may stand in double quotes. -/
def compiledLink (src : String) : String :=
  let cs := src.toList
  if Text.endsWith ".ts".toList cs then String.ofList (cs.take (cs.length - 2) ++ ['j', 's'])
  else if Text.endsWith ".ts\"".toList cs then
    String.ofList (cs.take (cs.length - 3) ++ ['j', 's', '"'])
  else src

namespace Element

def withStyleTag (el : Element) : Element :=
  if el.tag = "css" then { el with tag := "style" } else el

/-- A style sheet with a source is a link to it. -/
def withStyleLink (el : Element) : Element :=
  match el.attributes.get? "src" with
  | some src =>
    if el.tag = "style" then
      { el with tag := "link", attributes := [("rel", some "\"stylesheet\""), ("href", src)] }
    else el
  | none => el

end Element

namespace Rules

/-- A script either names its source or holds code; a bare source key names nothing. -/
def resolveScript (rules : Rules) (el : Element) : Resolving (Element × List String) := do
  match el.attributes.get? "src" with
  | some (some src) =>
    if src.isEmpty then pure (el, [])
    else
      let attributes :=
        if rules.linkCompiledScripts then el.attributes.insert "src" (some (compiledLink src))
        else el.attributes
      pure ({ el with attributes }, [src])
  | some none => pure (el, [])
  | none =>
    match el.text with
    | none => pure (el, [])
    | some code =>
      if code.isEmpty then pure (el, [])
      else
        modify fun w => { w with compiled := w.compiled + 1 }
        match rules.compileScript code with
        | .ok code => pure ({ el with text := some code }, [])
        | .error e => throw (.script e)

/-- Resolves an unmarked element, with `descend` for its children. -/
def resolvePlain (rules : Rules) (inHead : Bool) (descend : List Element → Resolving Resolution)
    (el : Element) : Resolving Resolution := do
  let (el, sources) ←
    if el.tag = "script" then rules.resolveScript el else pure (el.withStyleLink, [])
  let inner ← if el.children.isEmpty then pure {} else descend el.children
  let el := { el with children := inner.kept }
  let scriptSources := sources ++ inner.scriptSources
  if !inHead && el.isHeadOnly then
    pure { hoisted := inner.hoisted ++ [el], scriptSources }
  else
    pure { kept := [el], hoisted := inner.hoisted, scriptSources }

/-- A marked element defines a component or is replaced by an instance of it. -/
def resolveElement (rules : Rules) (inHead : Bool)
    (descend : List Element → Resolving Resolution) (el : Element) : Resolving Resolution := do
  let el := el.withStyleTag
  if el.isMarked then
    match (← get).registry.lookup el.tag with
    | none =>
      modify fun w => { w with registry := w.registry ++ [(el.tag, el.template)] }
      pure {}
    | some template =>
      let copy := template.instantiate el
      let inner ← descend copy.children
      pure { inner with kept := [{ copy with children := inner.kept }] }
  else rules.resolvePlain inHead descend el

end Rules

/-- Resolves siblings in order; each sees the components defined before it. -/
def resolveAll (resolveOne : Element → Resolving Resolution) : List Element → Resolving Resolution
  | [] => pure {}
  | el :: rest => do
    let first ← resolveOne el
    let others ← resolveAll resolveOne rest
    pure (first ++ others)

/-- Resolves at most `levels` levels of elements and instances. -/
def resolveLevels (rules : Rules) (inHead : Bool) : (levels : Nat) → List Element →
    Resolving Resolution
  | 0, _ => throw .endlessComponent
  | levels + 1, els =>
    resolveAll (rules.resolveElement inHead (resolveLevels rules inHead levels)) els

/-- More levels than a forest can have whose components do not hold themselves: a path goes
down the forest and then at most once down each template. -/
def levelBound (registry : Registry) (els : List Element) : Nat :=
  let templates := registry.map (·.2)
  let names := registry.length + Element.countMarkedIn templates + Element.countMarkedIn els
  (names + 1) * (max (Element.heightOf templates) (Element.heightOf els) + 1) + 1000

def resolve (rules : Rules) (inHead : Bool) (els : List Element) : Resolving Resolution := do
  resolveLevels rules inHead (levelBound (← get).registry els) els

end Pagewright
