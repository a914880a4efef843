import Pagewright.Proofs.Html.Attributes
import Pagewright.Proofs.Html.Nodes
import Pagewright.Proofs.Page.Returns

/-! How resolving rewrites a single node: style sheets, links and scripts. -/
namespace Pagewright

namespace Element

/-- What is written on a node itself. -/
def label (el : Element) : Element := el.withChildren []

@[simp] theorem label_withChildren (el : Element) (children : List Element) :
    (el.withChildren children).label = el.label := rfl

def isStyleSheet (el : Element) : Bool := el.tag == "css" || el.tag == "style"

/-- A style sheet with a source becomes a link. -/
def finalTag (el : Element) : String :=
  if el.isStyleSheet then if el.attributes.has "src" then "link" else "style" else el.tag

/-- The link to a style sheet has no other keys; a script link may name the compiled script. -/
def finalAttributes (link : Bool) (el : Element) : Attributes :=
  match el.attributes.get? "src" with
  | none => el.attributes
  | some src =>
    if el.isStyleSheet then [("rel", some "\"stylesheet\""), ("href", src)]
    else match src with
      | none => el.attributes
      | some src =>
        if el.tag = "script" ∧ link ∧ src ≠ "" then
          el.attributes.insert "src" (some (compiledLink src))
        else el.attributes

/-- Code in a script without a source is compiled by `f`. -/
def finalText (f : String → String) (el : Element) : Option String :=
  if el.tag = "script" ∧ ¬ el.attributes.has "src" then
    el.text.map fun code => if code = "" then code else f code
  else el.text

/-- A node as it stands on the page. -/
def relabel (f : String → String) (link : Bool) (el : Element) : Element :=
  { el with
    tag := el.finalTag
    attributes := el.finalAttributes link
    text := el.finalText f }

/-- The code that is handed to the script compiler. -/
def inlineCode? (el : Element) : Option String :=
  if el.tag = "script" ∧ ¬ el.attributes.has "src" then el.text.filter (· ≠ "") else none

/-- A script names at most one source. -/
def linkedScripts (el : Element) : List String :=
  if el.tag = "script" then ((el.attributes.get? "src").join.filter (· ≠ "")).toList else []

section relabel

variable (f : String → String) (link : Bool) (el : Element)

@[simp] theorem children_relabel : (el.relabel f link).children = el.children := rfl

theorem relabel_label : el.label.relabel f link = (el.relabel f link).label := rfl

@[simp] theorem isHeadOnly_relabel : (el.relabel f link).isHeadOnly = el.isHeadOnly := by
  by_cases h : el.isStyleSheet
  · have hel : el.isHeadOnly = true := by
      rcases Bool.or_eq_true _ _ ▸ h with h | h <;> simp [isHeadOnly, beq_iff_eq.mp h]
    rw [hel, isHeadOnly, relabel, finalTag, if_pos h]
    split <;> rfl
  · rw [isHeadOnly, isHeadOnly, relabel, finalTag, if_neg h]

variable {el}

theorem not_isStyleSheet (h : el.isHeadOnly = false) : el.isStyleSheet = false := by
  simp [isHeadOnly] at h
  simp [isStyleSheet, h]

theorem tag_relabel (h : el.isHeadOnly = false) : (el.relabel f link).tag = el.tag := by
  simp [relabel, finalTag, not_isStyleSheet h]

theorem relabel_eq_of_final (htag : el.finalTag = el.tag)
    (hattributes : el.finalAttributes link = el.attributes) (htext : el.finalText f = el.text) :
    el.relabel f link = el := by
  rw [relabel, htag, hattributes, htext]
  exact el.withChildren_children

theorem relabel_eq_self (hstyle : el.isStyleSheet = false) (hscript : el.tag ≠ "script") :
    el.relabel f link = el := by
  have htag : el.finalTag = el.tag := by simp [finalTag, hstyle]
  have htext : el.finalText f = el.text := by simp [finalText, hscript]
  have hattributes : el.finalAttributes link = el.attributes := by
    rw [finalAttributes]
    split
    · rfl
    · rw [if_neg (by simp [hstyle])]
      split
      · rfl
      · rw [if_neg (by simp [hscript])]
  exact relabel_eq_of_final f link htag hattributes htext

end relabel

end Element

/-- An unmarked element as it is written itself, and the script that it links to. -/
def Rules.restyle (rules : Rules) (el : Element) : Resolving (Element × List String) :=
  if el.withStyleTag.tag = "script" then rules.resolveScript el.withStyleTag
  else pure (el.withStyleTag.withStyleLink, [])

theorem restyle_of_not_script (f : String → String) (link : Bool) {el : Element}
    (h : el.tag ≠ "script") :
    el.withStyleTag.withStyleLink = el.relabel f link ∧ el.inlineCode? = none ∧
      el.linkedScripts = [] := by
  refine ⟨?_, by simp [Element.inlineCode?, h], by simp [Element.linkedScripts, h]⟩
  obtain ⟨tag, attributes, classes, id, text, children, void⟩ := el
  dsimp only at h
  by_cases hsheet : tag = "css" ∨ tag = "style"
  · cases hsrc : attributes.get? "src"
    all_goals
      rcases hsheet with rfl | rfl
      all_goals simp [Element.withStyleTag, Element.withStyleLink, Element.relabel,
        Element.finalTag, Element.finalAttributes, Element.finalText, Element.isStyleSheet,
        Attributes.has_eq, hsrc]
  · obtain ⟨hcss, hstyle⟩ := not_or.mp hsheet
    rw [Element.relabel_eq_self f link (by simp [Element.isStyleSheet, hcss, hstyle]) h]
    cases hsrc : attributes.get? "src"
    all_goals simp [Element.withStyleTag, Element.withStyleLink, hsrc, hcss, hstyle]

theorem outcome_resolveScript (rules : Rules) (f : String → String) {el : Element}
    (h : el.tag = "script") (w : Workshop) :
    outcome (rules.resolveScript el) w = match el.inlineCode? with
      | none => (.ok (el.relabel f rules.linkCompiledScripts, el.linkedScripts), w)
      | some code => match rules.compileScript code with
        | .ok out => (.ok ({ el with text := some out }, []), { w with compiled := w.compiled + 1 })
        | .error e => (.error (.script e), { w with compiled := w.compiled + 1 }) := by
  obtain ⟨tag, attributes, classes, id, text, children, void⟩ := el
  dsimp only at h
  subst h
  rw [Rules.resolveScript]
  dsimp only
  cases hcode : Element.inlineCode?
      { tag := "script", attributes, classes, id, text, children, void } with
  | some code =>
    obtain ⟨hsrc, rfl, hne⟩ : attributes.get? "src" = none ∧ text = some code ∧ code ≠ "" := by
      simpa [Element.inlineCode?, Attributes.has_eq, Option.filter_eq_some_iff] using hcode
    simp only [hsrc, String.isEmpty_iff, if_neg hne]
    cases rules.compileScript code <;> rfl
  | none =>
    have hempty : attributes.get? "src" = none → text = none ∨ text = some "" := by
      intro hsrc
      rcases text with _ | code
      · exact .inl rfl
      · simpa [Element.inlineCode?, Attributes.has_eq, hsrc, Option.filter] using hcode
    rcases hsrc : attributes.get? "src" with _ | _ | src
    case' none => rcases hempty hsrc with rfl | rfl
    case' some.some =>
      by_cases hname : src = ""
      all_goals cases hlink : rules.linkCompiledScripts
    all_goals simp [Element.relabel, Element.finalTag, Element.finalAttributes, Element.finalText,
      Element.isStyleSheet, Element.linkedScripts, Attributes.has_eq, Option.filter, *]

theorem outcome_restyle (rules : Rules) (f : String → String) (el : Element) (w : Workshop) :
    outcome (rules.restyle el) w = match el.inlineCode? with
      | none => (.ok (el.relabel f rules.linkCompiledScripts, el.linkedScripts), w)
      | some code => match rules.compileScript code with
        | .ok out => (.ok ({ el with text := some out }, []), { w with compiled := w.compiled + 1 })
        | .error e => (.error (.script e), { w with compiled := w.compiled + 1 }) := by
  by_cases h : el.tag = "script"
  · have hstyle : el.withStyleTag = el := by rw [Element.withStyleTag, if_neg (by simp [h])]
    rw [Rules.restyle, hstyle, if_pos h]
    exact outcome_resolveScript rules f h w
  · have htag : el.withStyleTag.tag ≠ "script" := by
      rw [Element.withStyleTag]
      split <;> simp [h]
    obtain ⟨hlink, hcode, hsources⟩ := restyle_of_not_script f rules.linkCompiledScripts h
    rw [Rules.restyle, if_neg htag, hlink, hcode, hsources]
    rfl

theorem Element.relabel_of_inlineCode (f : String → String) (link : Bool) {el : Element}
    {code : String} (h : el.inlineCode? = some code) :
    el.relabel f link = { el with text := some (f code) } ∧ el.linkedScripts = [] := by
  simp only [inlineCode?] at h
  split at h
  next hscript =>
    obtain ⟨htag, hsrc⟩ := hscript
    obtain ⟨htext, hcode⟩ := Option.filter_eq_some_iff.mp h
    have hget : el.attributes.get? "src" = none := by
      simpa [Attributes.has_eq] using hsrc
    simp_all [relabel, finalTag, finalAttributes, finalText, isStyleSheet, linkedScripts]
  next => cases h

namespace Returns

variable {rules : Rules} {el el' : Element} {sources : List String} {w w' : Workshop}

/-- An element is rewritten in one way only, up to what its code is compiled to. -/
theorem exists_relabel (h : Returns (rules.restyle el) w (el', sources) w') :
    ∃ f, el' = el.relabel f rules.linkCompiledScripts := by
  rw [Returns, outcome_restyle rules id] at h
  split at h
  · simp only [Prod.mk.injEq, Except.ok.injEq] at h
    exact ⟨id, h.1.1.symm⟩
  next code hcode =>
    split at h
    next out _ =>
      refine ⟨fun _ => out, ?_⟩
      rw [(el.relabel_of_inlineCode _ _ hcode).1]
      simp_all
    next => simp at h

/-- Rewriting an element neither reads nor changes the registry. -/
theorem restyle_registry (h : Returns (rules.restyle el) w (el', sources) w') :
    w'.registry = w.registry ∧ ∀ registry, Returns (rules.restyle el) { w with registry }
      (el', sources) { w' with registry } := by
  simp only [Returns, outcome_restyle rules id] at h ⊢
  cases hcode : el.inlineCode? with
  | none =>
    simp only [hcode, Prod.mk.injEq] at h
    obtain ⟨hel, rfl⟩ := h
    exact ⟨rfl, fun _ => by rw [hel]⟩
  | some code =>
    cases hout : rules.compileScript code with
    | error e => simp [hcode, hout] at h
    | ok out =>
      simp only [hcode, hout, Prod.mk.injEq] at h
      obtain ⟨hel, rfl⟩ := h
      exact ⟨rfl, fun _ => by simp only [hout, hel]⟩

theorem restyle_of_total {f : String → String}
    (hf : ∀ code, rules.compileScript code = .ok (f code)) (el : Element) (w : Workshop) :
    ∃ n, Returns (rules.restyle el) w
      (el.relabel f rules.linkCompiledScripts, el.linkedScripts)
      { w with compiled := w.compiled + n } := by
  simp only [Returns, outcome_restyle rules f]
  cases hcode : el.inlineCode? with
  | none => exact ⟨0, rfl⟩
  | some code =>
    obtain ⟨hel, hsources⟩ := el.relabel_of_inlineCode f rules.linkCompiledScripts hcode
    exact ⟨1, by simp only [hf, hel, hsources]⟩

end Returns

end Pagewright
