import Pagewright.Proofs.Page.Expansion

/-! The normal form that resolving leaves behind: nothing in a forest is left to be resolved, and
the registry holds templates under distinct names. -/
namespace Pagewright

/-- Templates are unmarked divs, under distinct names other than that of a style sheet. -/
structure Registry.WellFormed (registry : Registry) : Prop where
  sound : registry.Sound
  name_ne : ∀ pair ∈ registry, pair.1 ≠ "css"
  nodup : (registry.map (·.1)).Nodup

/-- There is nothing to resolve on a node: it is no component, no style sheet under its short tag
and none that names its source. -/
structure Element.IsResolved (el : Element) : Prop where
  not_marked : el.isMarked = false
  tag_ne : el.tag ≠ "css"
  not_linked : el.tag = "style" → el.attributes.has "src" = false

/-- An unmarked element as it was rewritten, over other children. -/
def Rules.Rewrites (rules : Rules) (node : Element) : Prop :=
  ∃ el el' sources w w', el.isMarked = false ∧ Returns (rules.restyle el) w (el', sources) w' ∧
    node = el'.withChildren node.children

namespace Registry.WellFormed

theorem nil : Registry.WellFormed [] := ⟨nofun, nofun, List.nodup_nil⟩

theorem define {registry : Registry} (h : registry.WellFormed) {el : Element}
    (hname : registry.lookup el.name = none) :
    Registry.WellFormed (registry ++ [(el.name, el.template)]) := by
  constructor
  · exact h.sound.define el
  · intro pair hpair
    rcases List.mem_append.mp hpair with hpair | hpair
    · exact h.name_ne pair hpair
    · rw [List.mem_singleton.mp hpair]
      change el.name ≠ "css"
      rw [Element.name, Element.withStyleTag]
      split
      next => simp
      next htag => exact htag
  · have hnew : el.name ∉ registry.map (·.1) := by
      intro hmem
      obtain ⟨pair, hpair, heq⟩ := List.mem_map.mp hmem
      have hne := List.lookup_eq_none_iff.mp hname pair hpair
      simp [heq] at hne
    rw [List.map_append, List.map_cons, List.map_nil, List.nodup_append]
    refine ⟨h.nodup, List.nodup_singleton _, ?_⟩
    intro key hkey name hlast heq
    rw [heq, List.mem_singleton.mp hlast] at hkey
    exact hnew hkey

end Registry.WellFormed

namespace Element

theorem isMarked_eq (el : Element) : el.isMarked = (el.attributes.get? marker).isSome := rfl

theorem isMarked_relabel (f : String → String) (link : Bool) {el : Element}
    (h : el.isMarked = false) : (el.relabel f link).isMarked = false := by
  have hkeys : (el.finalAttributes link).get? marker = none := by
    rw [isMarked_eq, Option.isSome_eq_false_iff, Option.isNone_iff_eq_none] at h
    rw [finalAttributes]
    split
    next => exact h
    next src _ =>
      split
      next => simp [marker, Attributes.get?]
      next =>
        split
        next => exact h
        next =>
          split
          next => rw [Attributes.get?_insert_of_ne (by decide), h]
          next => exact h
  rw [isMarked_eq]
  exact Option.isSome_eq_false_iff.mpr (Option.isNone_iff_eq_none.mpr hkeys)

theorem isResolved_relabel (f : String → String) (link : Bool) {el : Element}
    (h : el.isMarked = false) : (el.relabel f link).IsResolved := by
  refine ⟨isMarked_relabel f link h, ?_, ?_⟩
  · change el.finalTag ≠ "css"
    rw [finalTag]
    split
    next => split <;> decide
    next hsheet => exact fun htag => hsheet (by simp [isStyleSheet, htag])
  · intro htag
    change el.finalTag = "style" at htag
    change (el.finalAttributes link).has "src" = false
    rw [finalTag] at htag
    split at htag
    next =>
      split at htag
      next => simp at htag
      next hsrc =>
        have hnone : el.attributes.get? "src" = none := by
          simpa [Attributes.has_eq] using hsrc
        rw [Attributes.has_eq, finalAttributes, hnone]
        dsimp only
        rw [hnone]
        rfl
    next hsheet => exact absurd (by simp [isStyleSheet, htag]) hsheet

end Element

namespace Rules

variable {rules : Rules} {node : Element}

theorem Rewrites.isResolved (h : rules.Rewrites node) : node.IsResolved := by
  obtain ⟨el, el', sources, w, w', hmark, hstyle, hnode⟩ := h
  obtain ⟨f, rfl⟩ := hstyle.exists_relabel
  have hel := Element.isResolved_relabel f rules.linkCompiledScripts hmark
  rw [hnode]
  exact ⟨hel.not_marked, hel.tag_ne, hel.not_linked⟩

theorem rewrites_withChildren {el el' : Element} {sources : List String} {w w' : Workshop}
    (hmark : el.isMarked = false) (hstyle : Returns (rules.restyle el) w (el', sources) w')
    (children : List Element) : rules.Rewrites (el'.withChildren children) :=
  ⟨el, el', sources, w, w', hmark, hstyle, rfl⟩

/-- An unmarked div stays as it is, so that a copy of a template counts as rewritten. -/
theorem rewrites_div {el : Element} (htag : el.tag = "div") (hmark : el.isMarked = false)
    (children : List Element) : rules.Rewrites (el.withChildren children) :=
  rewrites_withChildren hmark (returns_restyle_div rules htag {}) children

end Rules

namespace Resolution

/-- What is kept and what moves to the head, with all that it holds. -/
def nodes (r : Resolution) : List Element := Element.nodesOf (r.kept ++ r.hoisted)

variable {node : Element}

@[simp] theorem nodes_empty : ({} : Resolution).nodes = [] := by
  rw [nodes, List.append_nil, Element.nodesOf_nil]

@[simp] theorem mem_nodes_append {a b : Resolution} :
    node ∈ (a ++ b).nodes ↔ node ∈ a.nodes ∨ node ∈ b.nodes := by
  simp only [nodes, kept_append, hoisted_append, Element.nodesOf_append, List.mem_append]
  tauto

@[simp] theorem mem_nodes_ofCopy {template : Element} {inner : Resolution} :
    node ∈ (ofCopy template inner).nodes ↔
      node = template.withChildren inner.kept ∨ node ∈ inner.nodes := by
  simp [nodes, ofCopy]

@[simp] theorem mem_nodes_ofElement {inHead : Bool} {el : Element} {sources : List String}
    {inner : Resolution} : node ∈ (ofElement inHead el sources inner).nodes ↔
      node = el.withChildren inner.kept ∨ node ∈ inner.nodes := by
  simp only [nodes, ofElement]
  split
  all_goals
    simp only [Element.nodesOf_append, Element.nodesOf_cons, Element.nodesOf_nil,
      Element.children_withChildren, List.mem_append, List.mem_cons, List.append_nil,
      List.not_mem_nil, false_or]
    tauto

end Resolution

namespace Resolves

variable {rules : Rules} {inHead : Bool} {w w' : Workshop} {r : Resolution} {els : List Element}

theorem wellFormed (h : Resolves rules inHead w els r w') (hw : w.registry.WellFormed) :
    w'.registry.WellFormed := by
  induction h with
  | nil => exact hw
  | define _ hname _ ih => exact ih (hw.define hname)
  | copy _ _ _ _ _ ihown ihgiven ih => exact ih (ihgiven (ihown hw))
  | plain _ hstyle _ _ ihinner ih =>
    rw [← hstyle.restyle_registry.1] at hw
    exact ih (ihinner hw)

/-- Whatever leaves a run was rewritten, also what comes from templates, which are not. -/
theorem rewrites (h : Resolves rules inHead w els r w') (hw : w.registry.WellFormed) :
    ∀ node ∈ r.nodes, rules.Rewrites node := by
  induction h with
  | nil => simp
  | define _ hname _ ih => exact ih (hw.define hname)
  | copy _ hname hown hgiven _ ihown ihgiven ih =>
    obtain ⟨htag, htemplate⟩ := hw.sound.lookup hname
    have hw₁ := hown.wellFormed hw
    have hw₂ := hgiven.wellFormed hw₁
    intro node hnode
    simp only [Resolution.mem_nodes_append, Resolution.mem_nodes_ofCopy] at hnode
    rcases hnode with (rfl | hnode | hnode) | hnode
    · exact Rules.rewrites_div htag htemplate _
    · exact ihown hw node hnode
    · exact ihgiven hw₁ node hnode
    · exact ih hw₂ node hnode
  | plain hmark hstyle hinner _ ihinner ih =>
    have hw₁ := hstyle.restyle_registry.1 ▸ hw
    intro node hnode
    simp only [Resolution.mem_nodes_append, Resolution.mem_nodes_ofElement] at hnode
    rcases hnode with (rfl | hnode) | hnode
    · exact Rules.rewrites_withChildren hmark hstyle _
    · exact ihinner hw₁ node hnode
    · exact ih (hinner.wellFormed hw₁) node hnode

theorem hoisted_eq_nil (h : Resolves rules true w els r w') : r.hoisted = [] := by
  induction h with
  | nil => rfl
  | define _ _ _ ih => exact ih
  | copy _ _ _ _ _ ihown ihgiven ih => simp [Resolution.ofCopy, ihown, ihgiven, ih]
  | plain _ _ _ _ ihinner ih => simp [Resolution.ofElement, ihinner, ih]

/-- Out of the head, what is kept may stand where it is, at every depth. -/
theorem kept_not_isHeadOnly (h : Resolves rules false w els r w') (hw : w.registry.WellFormed) :
    ∀ node ∈ Element.nodesOf r.kept, node.isHeadOnly = false := by
  induction h with
  | nil => simp
  | define _ hname _ ih => exact ih (hw.define hname)
  | copy _ hname hown hgiven _ ihown ihgiven ih =>
    have htag := (hw.sound.lookup hname).1
    have hw₁ := hown.wellFormed hw
    have hw₂ := hgiven.wellFormed hw₁
    intro node hnode
    simp only [Resolution.kept_append, Resolution.ofCopy, List.singleton_append,
      Element.nodesOf_cons, Element.nodesOf_append, Element.children_withChildren, List.mem_cons,
      List.mem_append] at hnode
    rcases hnode with rfl | (hnode | hnode) | hnode
    · simp [Element.isHeadOnly, htag]
    · exact ihown hw node hnode
    · exact ihgiven hw₁ node hnode
    · exact ih hw₂ node hnode
  | @plain w el rest el' sources inner r w₁ w₂ w' hmark hstyle hinner _ ihinner ih =>
    have hw₁ := hstyle.restyle_registry.1 ▸ hw
    intro node hnode
    rw [Resolution.kept_append, Resolution.kept_ofElement, Element.nodesOf_append,
      List.mem_append] at hnode
    rcases hnode with hnode | hnode
    · split at hnode
      next => simp at hnode
      next hstays =>
        rw [Element.nodesOf_cons, Element.children_withChildren, Element.nodesOf_nil,
          List.append_nil, List.mem_cons] at hnode
        rcases hnode with rfl | hnode
        · simpa using hstays
        · exact ihinner hw₁ node hnode
    · exact ih (hinner.wellFormed hw₁) node hnode

end Resolves

section turns

/-- A forest that is resolved, what comes of it, and the workshops around it. -/
structure Turn where
  rules : Rules
  inHead : Bool
  forest : List Element
  before : Workshop
  result : Resolution
  after : Workshop

/-- Forests that are resolved one after the other, each with the registry that the last one left. -/
inductive InTurn : Workshop → List Turn → Prop where
  | nil (w) : InTurn w []
  | cons {t : Turn} {turns : List Turn}
      (hruns : Returns (resolve t.rules t.inHead t.forest) t.before t.result t.after)
      (hrest : InTurn t.after turns) : InTurn t.before (t :: turns)

/-- A turn leaves nothing to be resolved, and it only adds to the registry. -/
structure Turn.LeavesNormal (t : Turn) : Prop where
  resolved : ∀ node ∈ Element.nodesOf (t.result.kept ++ t.result.hoisted), node.IsResolved
  kept : t.inHead = false → ∀ node ∈ Element.nodesOf t.result.kept, node.isHeadOnly = false
  hoisted : t.inHead = true → t.result.hoisted = []
  registry : t.after.registry.WellFormed
  grows : t.before.registry <+: t.after.registry

theorem Turn.leavesNormal {t : Turn}
    (h : Returns (resolve t.rules t.inHead t.forest) t.before t.result t.after)
    (hbefore : t.before.registry.WellFormed) : t.LeavesNormal := by
  have hruns := returns_resolve_iff.mp h
  constructor
  · intro node hnode
    exact (hruns.rewrites hbefore node hnode).isResolved
  · intro hplace
    rw [hplace] at hruns
    exact hruns.kept_not_isHeadOnly hbefore
  · intro hplace
    rw [hplace] at hruns
    exact hruns.hoisted_eq_nil
  · exact hruns.wellFormed hbefore
  · exact hruns.registry_prefix

theorem InTurn.leavesNormal {w : Workshop} {turns : List Turn} (h : InTurn w turns)
    (hw : w.registry.WellFormed) : ∀ t ∈ turns, t.LeavesNormal := by
  induction h with
  | nil => nofun
  | cons hruns _ ih =>
    have hturn := Turn.leavesNormal hruns hw
    exact List.forall_mem_cons.mpr ⟨hturn, ih hturn.registry⟩

/-- Every turn in a row that begins without components leaves the normal form. -/
theorem leavesNormal_of_inTurn {w : Workshop} {turns : List Turn} (h : InTurn w turns)
    (hempty : w.registry = []) : ∀ t ∈ turns, t.LeavesNormal := by
  apply h.leavesNormal
  rw [hempty]
  exact Registry.WellFormed.nil

/-- A card is defined in a head beside a style sheet, and then used in a body: its title moves. -/
theorem leavesNormal_of_inTurn_card :
    let use : Element := { tag := "card", attributes := [("@", none)] }
    let card := use.withChildren [{ tag := "title" }]
    let sheet : Element := { tag := "css", attributes := [("src", some "a.css")] }
    let link : Element :=
      { tag := "link", attributes := [("rel", some "\"stylesheet\""), ("href", some "a.css")] }
    let w : Workshop := { registry := [("card", card.template)] }
    let first : Turn := ⟨{ compileScript := .ok }, true, [card, sheet], {}, { kept := [link] }, w⟩
    let second : Turn := ⟨{ compileScript := .ok }, false, [use], w,
      { kept := [{ tag := "div" }], hoisted := [{ tag := "title" }] }, w⟩
    InTurn {} [first, second] ∧ first.LeavesNormal ∧ second.LeavesNormal := by
  intro use card sheet link w first second
  have hsecond : InTurn w [second] := .cons (t := second) rfl (.nil w)
  have hturns : InTurn {} [first, second] := .cons (t := first) rfl hsecond
  have hnormal := leavesNormal_of_inTurn hturns rfl
  exact ⟨hturns, hnormal first (by simp), hnormal second (by simp)⟩

end turns

end Pagewright
