import Mathlib.Data.List.Basic
import Pagewright.Proofs.Page.Label

/-! Resolving as a relation: a derivation for each run that ends, whatever its depth. -/
namespace Pagewright

namespace Resolution

@[simp] theorem kept_append (a b : Resolution) : (a ++ b).kept = a.kept ++ b.kept := rfl

@[simp] theorem hoisted_append (a b : Resolution) : (a ++ b).hoisted = a.hoisted ++ b.hoisted := rfl

@[simp] theorem scriptSources_append (a b : Resolution) :
    (a ++ b).scriptSources = a.scriptSources ++ b.scriptSources := rfl

attribute [ext] Resolution

@[simp] theorem empty_append (a : Resolution) : ({} : Resolution) ++ a = a := rfl

theorem append_assoc (a b c : Resolution) : a ++ b ++ c = a ++ (b ++ c) := by
  ext1 <;> simp

/-- An element with its resolved children, kept in its place or moved to the head. -/
def ofElement (inHead : Bool) (el : Element) (sources : List String) (inner : Resolution) :
    Resolution :=
  let el := el.withChildren inner.kept
  let scriptSources := sources ++ inner.scriptSources
  if !inHead && el.isHeadOnly then { hoisted := inner.hoisted ++ [el], scriptSources }
  else { kept := [el], hoisted := inner.hoisted, scriptSources }

theorem kept_ofElement (inHead : Bool) (el : Element) (sources : List String)
    (inner : Resolution) : (ofElement inHead el sources inner).kept =
      if !inHead && el.isHeadOnly then [] else [el.withChildren inner.kept] := by
  cases inHead <;> cases h : el.isHeadOnly <;> simp [ofElement, h]

theorem ofElement_of_stays (inHead : Bool) {el : Element} (h : el.isHeadOnly = false)
    (sources : List String) (inner : Resolution) : ofElement inHead el sources inner =
      { kept := [el.withChildren inner.kept], hoisted := inner.hoisted,
        scriptSources := sources ++ inner.scriptSources } := by
  rw [ofElement]
  simp [h]

/-- An element that may stay and whose children were kept is itself kept. -/
theorem ofElement_self {inHead : Bool} {el : Element} (h : inHead = false → el.isHeadOnly = false)
    (sources inner : List String) :
    ofElement inHead el sources { kept := el.children, scriptSources := inner } =
      { kept := [el], scriptSources := sources ++ inner } := by
  have hstays : (!inHead && el.isHeadOnly) = false := by
    cases inHead with
    | true => rfl
    | false => exact h rfl
  rw [ofElement]
  simp only [Element.withChildren_children, hstays, Bool.false_eq_true, if_false]

/-- An instance of a template with its resolved content. -/
def ofCopy (template : Element) (inner : Resolution) : Resolution :=
  { inner with kept := [template.withChildren inner.kept] }

end Resolution

namespace Element

/-- The name under which a marked element is defined or used. -/
def name (el : Element) : String := el.withStyleTag.tag

@[simp] theorem children_withStyleTag (el : Element) : el.withStyleTag.children = el.children := by
  rw [withStyleTag]; split <;> rfl

@[simp] theorem attributes_withStyleTag (el : Element) :
    el.withStyleTag.attributes = el.attributes := by
  rw [withStyleTag]; split <;> rfl

@[simp] theorem isMarked_withStyleTag (el : Element) : el.withStyleTag.isMarked = el.isMarked := by
  simp [isMarked]

@[simp] theorem template_withStyleTag (el : Element) : el.withStyleTag.template = el.template := by
  rw [withStyleTag]; split <;> rfl

end Element

def Workshop.define (w : Workshop) (el : Element) : Workshop :=
  { w with registry := w.registry ++ [(el.name, el.template)] }

/-- A run that ends, from one workshop to another. A copy resolves the content of its template and
then its own, so that the two can be told apart. -/
inductive Resolves (rules : Rules) (inHead : Bool) :
    Workshop → List Element → Resolution → Workshop → Prop where
  | nil (w) : Resolves rules inHead w [] {} w
  | define {w el rest r w'} (hmark : el.isMarked = true) (hname : w.registry.lookup el.name = none)
      (hrest : Resolves rules inHead (w.define el) rest r w') :
      Resolves rules inHead w (el :: rest) r w'
  | copy {w el rest template own given r w₁ w₂ w'} (hmark : el.isMarked = true)
      (hname : w.registry.lookup el.name = some template)
      (hown : Resolves rules inHead w template.children own w₁)
      (hgiven : Resolves rules inHead w₁ el.children given w₂)
      (hrest : Resolves rules inHead w₂ rest r w') :
      Resolves rules inHead w (el :: rest) (.ofCopy template (own ++ given) ++ r) w'
  | plain {w el rest el' sources inner r w₁ w₂ w'} (hmark : el.isMarked = false)
      (hstyle : Returns (rules.restyle el) w (el', sources) w₁)
      (hinner : Resolves rules inHead w₁ el.children inner w₂)
      (hrest : Resolves rules inHead w₂ rest r w') :
      Resolves rules inHead w (el :: rest) (.ofElement inHead el' sources inner ++ r) w'

section Returns

variable {rules : Rules} {inHead : Bool} {w w' : Workshop} {r : Resolution}
  {descend : List Element → Resolving Resolution} {el : Element}

theorem resolveElement_of_not_marked (hmark : el.isMarked = false) :
    rules.resolveElement inHead descend el = rules.restyle el >>= fun styled =>
      (if styled.1.children.isEmpty then pure {} else descend styled.1.children) >>= fun inner =>
        pure (.ofElement inHead styled.1 styled.2 inner) := by
  rw [Rules.resolveElement]
  simp only [Element.isMarked_withStyleTag, hmark, Bool.false_eq_true, if_false]
  rw [Rules.resolvePlain, Rules.restyle]
  split
  all_goals
    refine congrArg (_ >>= ·) (funext fun styled => ?_)
    dsimp only
    split
    all_goals
      refine congrArg (_ >>= ·) (funext fun inner => ?_)
      rw [Resolution.ofElement, apply_ite pure]
      rfl

theorem returns_define (hmark : el.isMarked = true)
    (hname : w.registry.lookup el.name = none) :
    Returns (rules.resolveElement inHead descend el) w r w' ↔ r = {} ∧ w' = w.define el := by
  rw [Element.name] at hname
  rw [Rules.resolveElement]
  simp only [Element.isMarked_withStyleTag, hmark, if_true, Returns.bind_iff, Returns.get_iff]
  constructor
  · rintro ⟨_, _, ⟨rfl, rfl⟩, h⟩
    simp only [hname, Returns.bind_iff, Returns.modify_iff, Returns.pure_iff] at h
    obtain ⟨_, _, rfl, rfl, rfl⟩ := h
    simp [Workshop.define, Element.name]
  · rintro ⟨rfl, rfl⟩
    refine ⟨_, _, ⟨rfl, rfl⟩, ?_⟩
    simp only [hname, Returns.bind_iff, Returns.modify_iff, Returns.pure_iff]
    exact ⟨(), _, rfl, trivial, by simp [Workshop.define, Element.name]⟩

theorem returns_copy {template : Element} (hmark : el.isMarked = true)
    (hname : w.registry.lookup el.name = some template) :
    Returns (rules.resolveElement inHead descend el) w r w' ↔
      ∃ inner, Returns (descend (template.children ++ el.children)) w inner w' ∧
        r = .ofCopy template inner := by
  rw [Element.name] at hname
  rw [Rules.resolveElement]
  simp only [Element.isMarked_withStyleTag, hmark, if_true, Returns.bind_iff, Returns.get_iff]
  constructor
  · rintro ⟨_, _, ⟨rfl, rfl⟩, h⟩
    simp only [hname, Returns.bind_iff, Returns.pure_iff] at h
    obtain ⟨inner, _, h, rfl, rfl⟩ := h
    exact ⟨inner, by simpa [Element.instantiate] using h, rfl⟩
  · rintro ⟨inner, h, rfl⟩
    refine ⟨_, _, ⟨rfl, rfl⟩, ?_⟩
    simp only [hname, Returns.bind_iff, Returns.pure_iff]
    exact ⟨inner, w', by simpa [Element.instantiate] using h, rfl, rfl⟩

theorem returns_plain (hmark : el.isMarked = false) :
    Returns (rules.resolveElement inHead descend el) w r w' ↔
      ∃ el' sources inner w₁, Returns (rules.restyle el) w (el', sources) w₁ ∧
        Returns (if el.children.isEmpty then pure {} else descend el.children) w₁ inner w' ∧
        r = .ofElement inHead el' sources inner := by
  simp only [resolveElement_of_not_marked hmark, Returns.bind_iff, Returns.pure_iff]
  constructor
  · rintro ⟨⟨el', sources⟩, w₁, hstyle, inner, _, hinner, rfl, rfl⟩
    obtain ⟨f, rfl⟩ := hstyle.exists_relabel
    exact ⟨_, sources, inner, w₁, hstyle, hinner, rfl⟩
  · rintro ⟨el', sources, inner, w₁, hstyle, hinner, rfl⟩
    refine ⟨(el', sources), w₁, hstyle, inner, w', ?_, rfl, rfl⟩
    obtain ⟨f, rfl⟩ := hstyle.exists_relabel
    exact hinner

theorem returns_resolveAll_cons {f : Element → Resolving Resolution} {rest : List Element} :
    Returns (resolveAll f (el :: rest)) w r w' ↔
      ∃ first others w₁, Returns (f el) w first w₁ ∧ Returns (resolveAll f rest) w₁ others w' ∧
        r = first ++ others := by
  simp only [resolveAll, Returns.bind_iff, Returns.pure_iff]
  constructor
  · rintro ⟨first, w₁, hfirst, others, w₂, hothers, rfl, rfl⟩
    exact ⟨first, others, w₁, hfirst, hothers, rfl⟩
  · rintro ⟨first, others, w₁, hfirst, hothers, rfl⟩
    exact ⟨first, w₁, hfirst, others, w', hothers, rfl, rfl⟩

theorem returns_resolveAll_append {f : Element → Resolving Resolution} {front back : List Element} :
    Returns (resolveAll f (front ++ back)) w r w' ↔
      ∃ first others w₁, Returns (resolveAll f front) w first w₁ ∧
        Returns (resolveAll f back) w₁ others w' ∧ r = first ++ others := by
  induction front generalizing w r with
  | nil => simp [resolveAll]
  | cons el rest ih =>
    rw [List.cons_append, returns_resolveAll_cons]
    constructor
    · rintro ⟨first, tail, w₁, hfirst, htail, rfl⟩
      obtain ⟨others, last, w₂, hothers, hlast, rfl⟩ := ih.mp htail
      exact ⟨first ++ others, last, w₂, returns_resolveAll_cons.mpr ⟨_, _, _, hfirst, hothers, rfl⟩,
        hlast, (Resolution.append_assoc ..).symm⟩
    · rintro ⟨head, last, w₂, hhead, hlast, rfl⟩
      obtain ⟨first, others, w₁, hfirst, hothers, rfl⟩ := returns_resolveAll_cons.mp hhead
      exact ⟨first, _, w₁, hfirst, ih.mpr ⟨_, _, _, hothers, hlast, rfl⟩,
        Resolution.append_assoc ..⟩

end Returns

theorem lookup_of_isPrefix {registry registry' : Registry} {name : String} {template : Element}
    (h : registry <+: registry') (hname : registry.lookup name = some template) :
    registry'.lookup name = some template := by
  obtain ⟨more, rfl⟩ := h
  rw [List.lookup_append, hname, Option.some_or]

namespace Resolves

variable {rules : Rules} {inHead : Bool} {w w₁ w' : Workshop} {r r' : Resolution}
  {front back els : List Element}

theorem append (hfront : Resolves rules inHead w front r w₁)
    (hback : Resolves rules inHead w₁ back r' w') :
    Resolves rules inHead w (front ++ back) (r ++ r') w' := by
  induction hfront with
  | nil => exact hback
  | define hmark hname _ ih => exact .define hmark hname (ih hback)
  | copy hmark hname hown hgiven _ _ _ ih =>
    rw [Resolution.append_assoc]
    exact .copy hmark hname hown hgiven (ih hback)
  | plain hmark hstyle hinner _ _ ih =>
    rw [Resolution.append_assoc]
    exact .plain hmark hstyle hinner (ih hback)

theorem of_append (h : Resolves rules inHead w (front ++ back) r w') :
    ∃ first others w₁, Resolves rules inHead w front first w₁ ∧
      Resolves rules inHead w₁ back others w' ∧ r = first ++ others := by
  induction front generalizing w r with
  | nil => exact ⟨{}, r, w, .nil w, h, rfl⟩
  | cons el rest ih =>
    cases h with
    | define hmark hname hrest =>
      obtain ⟨first, others, w₁, hfirst, hothers, rfl⟩ := ih hrest
      exact ⟨first, others, w₁, .define hmark hname hfirst, hothers, rfl⟩
    | copy hmark hname hown hgiven hrest =>
      obtain ⟨first, others, w₁, hfirst, hothers, rfl⟩ := ih hrest
      exact ⟨_, others, w₁, .copy hmark hname hown hgiven hfirst, hothers,
        (Resolution.append_assoc ..).symm⟩
    | plain hmark hstyle hinner hrest =>
      obtain ⟨first, others, w₁, hfirst, hothers, rfl⟩ := ih hrest
      exact ⟨_, others, w₁, .plain hmark hstyle hinner hfirst, hothers,
        (Resolution.append_assoc ..).symm⟩

/-- A run only adds to the registry. -/
theorem registry_prefix (h : Resolves rules inHead w els r w') : w.registry <+: w'.registry := by
  induction h with
  | nil => exact List.prefix_rfl
  | define _ _ _ ih => exact (List.prefix_append ..).trans ih
  | copy _ _ _ _ _ hown hgiven hrest => exact (hown.trans hgiven).trans hrest
  | plain _ hstyle _ _ hinner hrest =>
    rw [← hstyle.restyle_registry.1]
    exact hinner.trans hrest

theorem of_not_marked {el : Element} {rest : List Element}
    (h : Resolves rules inHead w (el :: rest) r w') (hmark : el.isMarked = false) :
    ∃ el' sources inner others w₁ w₂, Returns (rules.restyle el) w (el', sources) w₁ ∧
      Resolves rules inHead w₁ el.children inner w₂ ∧ Resolves rules inHead w₂ rest others w' ∧
      r = .ofElement inHead el' sources inner ++ others := by
  cases h with
  | define hmark' _ _ => simp [hmark] at hmark'
  | copy hmark' _ _ _ _ => simp [hmark] at hmark'
  | plain _ hstyle hinner hrest => exact ⟨_, _, _, _, _, _, hstyle, hinner, hrest, rfl⟩

theorem of_levels {levels : Nat} (h : Returns (resolveLevels rules inHead levels els) w r w') :
    Resolves rules inHead w els r w' := by
  induction levels generalizing els w r w' with
  | zero => exact ((Returns.throw_iff ..).mp h).elim
  | succ levels ihlevels =>
    rw [resolveLevels] at h
    induction els generalizing w r with
    | nil =>
      obtain ⟨rfl, rfl⟩ := (Returns.pure_iff ..).mp h
      exact .nil _
    | cons el rest ih =>
      obtain ⟨first, others, w₁, hfirst, hothers, rfl⟩ := returns_resolveAll_cons.mp h
      have hrest := ih hothers
      cases hmark : el.isMarked with
      | true =>
        cases hname : w.registry.lookup el.name with
        | none =>
          obtain ⟨rfl, rfl⟩ := (returns_define hmark hname).mp hfirst
          exact .define hmark hname hrest
        | some template =>
          obtain ⟨inner, hinner, rfl⟩ := (returns_copy hmark hname).mp hfirst
          obtain ⟨own, given, w₂, hown, hgiven, rfl⟩ := of_append (ihlevels hinner)
          exact .copy hmark hname hown hgiven hrest
      | false =>
        obtain ⟨el', sources, inner, w₂, hstyle, hinner, rfl⟩ := (returns_plain hmark).mp hfirst
        refine .plain hmark hstyle ?_ hrest
        split at hinner
        next hleaf =>
          obtain ⟨rfl, rfl⟩ := (Returns.pure_iff ..).mp hinner
          rw [List.isEmpty_iff.mp hleaf]
          exact .nil _
        next => exact ihlevels hinner

end Resolves

end Pagewright
