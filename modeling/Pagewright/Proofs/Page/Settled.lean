import Pagewright.Proofs.Page.NormalForm
import Pagewright.Proofs.Site.ScriptLink

/-! Settled forests: resolving leaves them as they are. What leaves a run is settled if code that
was compiled is not compiled any further. -/
namespace Pagewright

namespace Element

section relabel

variable (f : String → String) (link : Bool) {el : Element}

theorem relabel_relabel_sheet (h : el.isStyleSheet = true) :
    (el.relabel f link).relabel f link = el.relabel f link := by
  have hscript : el.tag ≠ "script" := by
    intro htag
    simp [isStyleSheet, htag] at h
  cases hsrc : el.attributes.get? "src" with
  | some src =>
    have htag : (el.relabel f link).tag = "link" := by
      simp [relabel, finalTag, h, Attributes.has_eq, hsrc]
    apply relabel_eq_self
    · simp [isStyleSheet, htag]
    · simp [htag]
  | none =>
    have hstyle : el.relabel f link = { el with tag := "style" } := by
      simp [relabel, finalTag, finalAttributes, finalText, h, hscript, Attributes.has_eq, hsrc]
    rw [hstyle]
    simp [relabel, finalTag, finalAttributes, finalText, isStyleSheet, Attributes.has_eq, hsrc]

theorem relabel_relabel_code {f : String → String} (hff : ∀ code, f (f code) = f code)
    (htag : el.tag = "script") (hsrc : el.attributes.get? "src" = none) :
    (el.relabel f link).relabel f link = el.relabel f link := by
  have hcode : el.relabel f link =
      { el with text := el.text.map fun code => if code = "" then code else f code } := by
    simp [relabel, finalTag, finalAttributes, finalText, isStyleSheet, htag, Attributes.has_eq,
      hsrc]
  rw [hcode]
  cases htext : el.text with
  | none => simp [relabel, finalTag, finalAttributes, finalText, isStyleSheet, htag, hsrc]
  | some code =>
    simp only [relabel, finalTag, finalAttributes, finalText, isStyleSheet, htag,
      Attributes.has_eq, hsrc]
    by_cases hempty : code = ""
    · simp [hempty]
    · simp [hempty, hff]

theorem relabel_relabel_linked {src? : Option String} (htag : el.tag = "script")
    (hsrc : el.attributes.get? "src" = some src?) :
    (el.relabel f link).relabel f link = el.relabel f link := by
  have hsame : src? = none ∨ link = false → el.relabel f link = el := by
    intro hkept
    have hattributes : el.finalAttributes link = el.attributes := by
      rcases hkept with rfl | rfl
      · simp [finalAttributes, isStyleSheet, htag, hsrc]
      · cases src? <;> simp [finalAttributes, isStyleSheet, htag, hsrc]
    apply relabel_eq_of_final
    · simp [finalTag, isStyleSheet, htag]
    · exact hattributes
    · simp [finalText, Attributes.has_eq, hsrc]
  cases src? with
  | none => rw [hsame (.inl rfl), hsame (.inl rfl)]
  | some src =>
    cases link with
    | false => rw [hsame (.inr rfl), hsame (.inr rfl)]
    | true =>
      have hlink := relabel_script f htag hsrc
      have hsrc' : (el.relabel f true).attributes.get? "src" = some (some (compiledLink src)) := by
        rw [hlink]
        exact Attributes.get?_insert_self
      have htag' : (el.relabel f true).tag = "script" := by
        rw [hlink]
        exact htag
      rw [relabel_script f htag' hsrc', ScriptTarget.compiledLink_compiledLink,
        Attributes.insert_of_get? hsrc']
      exact (el.relabel f true).withChildren_children

/-- A rewritten node is not rewritten any more if code is not. -/
theorem relabel_relabel {f : String → String} (hff : ∀ code, f (f code) = f code)
    (el : Element) : (el.relabel f link).relabel f link = el.relabel f link := by
  by_cases hscript : el.tag = "script"
  · cases hsrc : el.attributes.get? "src" with
    | none => exact relabel_relabel_code link hff hscript hsrc
    | some src? => exact relabel_relabel_linked f link hscript hsrc
  · cases hsheet : el.isStyleSheet with
    | true => exact relabel_relabel_sheet f link hsheet
    | false =>
      have hsame := relabel_eq_self f link hsheet hscript
      rw [hsame, hsame]

end relabel

/-- Resolving leaves the node as it is and where it is. -/
structure IsSettled (f : String → String) (link inHead : Bool) (node : Element) : Prop where
  not_marked : node.isMarked = false
  relabel_eq : node.relabel f link = node
  stays : inHead = false → node.isHeadOnly = false

def Settled (f : String → String) (link inHead : Bool) (els : List Element) : Prop :=
  ∀ node ∈ nodesOf els, node.IsSettled f link inHead

section Settled

variable {f : String → String} {link inHead : Bool} {front back : List Element} {el : Element}

@[simp] theorem settled_cons : Settled f link inHead (el :: back) ↔ el.IsSettled f link inHead ∧
    Settled f link inHead el.children ∧ Settled f link inHead back := by
  simp only [Settled, nodesOf_cons, List.mem_cons, List.mem_append, or_imp, forall_and, forall_eq]

@[simp] theorem settled_append : Settled f link inHead (front ++ back) ↔
    Settled f link inHead front ∧ Settled f link inHead back := by
  simp only [Settled, nodesOf_append, List.mem_append, or_imp, forall_and]

theorem isSettled_viewport : viewport.IsSettled f link true := ⟨rfl, rfl, nofun⟩

end Settled

end Element

open Element

section settled

variable {rules : Rules} {f : String → String} {inHead : Bool} {els : List Element}

/-- A settled forest resolves to itself. -/
theorem resolves_of_settled (hf : ∀ code, rules.compileScript code = .ok (f code))
    (hels : Settled f rules.linkCompiledScripts inHead els) (w : Workshop) :
    ∃ scriptSources n, Resolves rules inHead w els { kept := els, scriptSources }
      { w with compiled := w.compiled + n } := by
  induction els using forest_induction generalizing w with
  | nil => exact ⟨[], 0, .nil w⟩
  | cons el rest hchildren hrest =>
    obtain ⟨hel, hbelow, hlater⟩ := settled_cons.mp hels
    obtain ⟨n₁, hstyle⟩ := Returns.restyle_of_total hf el w
    obtain ⟨sources₂, n₂, hinner⟩ := hchildren hbelow { w with compiled := w.compiled + n₁ }
    obtain ⟨sources₃, n₃, hothers⟩ := hrest hlater { w with compiled := w.compiled + n₁ + n₂ }
    have hruns := Resolves.plain hel.not_marked hstyle hinner hothers
    rw [hel.relabel_eq, Resolution.ofElement_self hel.stays] at hruns
    refine ⟨el.linkedScripts ++ sources₂ ++ sources₃, n₁ + n₂ + n₃, ?_⟩
    rw [← Nat.add_assoc, ← Nat.add_assoc]
    exact hruns

end settled

namespace Resolves

variable {rules : Rules} {f : String → String} {inHead : Bool} {w w' : Workshop} {r : Resolution}
  {els : List Element}

/-- What leaves a run is settled where it is kept. -/
theorem settled_kept (h : Resolves rules inHead w els r w') (hw : w.registry.WellFormed)
    (hf : ∀ code, rules.compileScript code = .ok (f code)) (hff : ∀ code, f (f code) = f code) :
    Settled f rules.linkCompiledScripts inHead r.kept ∧
      Settled f rules.linkCompiledScripts true r.hoisted := by
  have hnodes : ∀ node ∈ r.nodes, node.IsSettled f rules.linkCompiledScripts true := by
    intro node hnode
    have hrewrites := h.rewrites hw node hnode
    refine ⟨hrewrites.isResolved.not_marked, ?_, nofun⟩
    obtain ⟨el, el', sources, v, v', hmark, hstyle, heq⟩ := hrewrites
    obtain ⟨n, hstyle'⟩ := Returns.restyle_of_total hf el v
    obtain ⟨rfl, -⟩ := Prod.mk.inj (hstyle.unique hstyle').1
    have hagain := relabel_relabel rules.linkCompiledScripts hff el
    rw [heq]
    exact congrArg (withChildren · node.children) hagain
  rw [Resolution.nodes, nodesOf_append, List.forall_mem_append] at hnodes
  refine ⟨fun node hnode => ?_, hnodes.2⟩
  obtain ⟨hmark, hrelabel, -⟩ := hnodes.1 node hnode
  refine ⟨hmark, hrelabel, ?_⟩
  rintro rfl
  exact h.kept_not_isHeadOnly hw node hnode

end Resolves

end Pagewright
