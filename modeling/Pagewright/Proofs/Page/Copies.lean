import Pagewright.Proofs.Page.Expansion

/-! Copies of a component: two of them are equal unless the first defines other components, which
the second then copies. -/
namespace Pagewright

/-- A use of a component in a run with what is made of it, and the workshops around it. -/
structure Copy where
  use : Element
  made : Element
  /-- Components that are defined in the copy as it stays, and not in what moves to the head. -/
  defined : List String
  before : Workshop
  after : Workshop

/-- A run with all its copies in document order, and with the components that are defined in what
it keeps. -/
inductive Copies (rules : Rules) (inHead : Bool) :
    Workshop → List Element → List Copy → List String → Resolution → Workshop → Prop where
  | nil (w) : Copies rules inHead w [] [] [] {} w
  | define {w el rest copies names r w'} (hmark : el.isMarked = true)
      (hname : w.registry.lookup el.name = none)
      (hrest : Copies rules inHead (w.define el) rest copies names r w') :
      Copies rules inHead w (el :: rest) copies (el.name :: names) r w'
  | copy {w el rest template copies₁ copies₂ copies₃ names₁ names₂ names₃ own given r w₁ w₂ w'}
      (hmark : el.isMarked = true) (hname : w.registry.lookup el.name = some template)
      (hown : Copies rules inHead w template.children copies₁ names₁ own w₁)
      (hgiven : Copies rules inHead w₁ el.children copies₂ names₂ given w₂)
      (hrest : Copies rules inHead w₂ rest copies₃ names₃ r w') :
      Copies rules inHead w (el :: rest)
        (⟨el, template.withChildren (own.kept ++ given.kept), names₁ ++ names₂, w, w₂⟩ ::
          (copies₁ ++ copies₂ ++ copies₃))
        (names₁ ++ names₂ ++ names₃) (.ofCopy template (own ++ given) ++ r) w'
  | plain {w el rest el' sources copies₁ copies₂ names₁ names₂ inner r w₁ w₂ w'}
      (hmark : el.isMarked = false)
      (hstyle : Returns (rules.restyle el) w (el', sources) w₁)
      (hinner : Copies rules inHead w₁ el.children copies₁ names₁ inner w₂)
      (hrest : Copies rules inHead w₂ rest copies₂ names₂ r w') :
      Copies rules inHead w (el :: rest) (copies₁ ++ copies₂)
        ((if !inHead && el.isHeadOnly then [] else names₁) ++ names₂)
        (.ofElement inHead el' sources inner ++ r) w'

/-- A use without content of its own becomes a copy of the template with the template's content as
it is resolved there. -/
def Copy.Copied (rules : Rules) (inHead : Bool) (c : Copy) : Prop :=
  ∃ template, c.before.registry.lookup c.use.name = some template ∧
    (c.use.children = [] → ∃ copies own,
      Copies rules inHead c.before template.children copies c.defined own c.after ∧
      c.made = template.withChildren own.kept)

/-- What is kept is the same if nothing was defined in it, and otherwise the larger for each
component that was. -/
structure GrowsInto (names : List String) (r s : Resolution) : Prop where
  kept_eq : names = [] → r.kept = s.kept
  size_le : (Element.nodesOf r.kept).length + names.length ≤ (Element.nodesOf s.kept).length

namespace GrowsInto

variable {names names' : List String} {r r' s s' : Resolution}

theorem nil : GrowsInto [] {} {} := ⟨fun _ => rfl, by simp⟩

theorem append (h : GrowsInto names r s) (h' : GrowsInto names' r' s') :
    GrowsInto (names ++ names') (r ++ r') (s ++ s') := by
  constructor
  · intro hnil
    obtain ⟨hfront, hback⟩ := List.append_eq_nil_iff.mp hnil
    rw [Resolution.kept_append, Resolution.kept_append, h.kept_eq hfront, h'.kept_eq hback]
  · have hfront := h.size_le
    have hback := h'.size_le
    simp only [Resolution.kept_append, Element.nodesOf_append, List.length_append]
    omega

/-- Where a component was defined before, a copy of it is kept now. -/
theorem define (name : String) (template : Element) (s : Resolution) :
    GrowsInto [name] {} (.ofCopy template s) := by
  constructor
  · nofun
  · simp [Resolution.ofCopy]

theorem ofCopy (template : Element) (h : GrowsInto names r s) :
    GrowsInto names (.ofCopy template r) (.ofCopy template s) := by
  constructor
  · intro hnil
    simp only [Resolution.ofCopy, h.kept_eq hnil]
  · have hsize := h.size_le
    simp only [Resolution.ofCopy, Element.nodesOf_cons, Element.children_withChildren,
      List.length_cons, List.length_append]
    omega

theorem ofElement (inHead : Bool) (el : Element) (sources : List String)
    (h : GrowsInto names r s) :
    GrowsInto (if !inHead && el.isHeadOnly then [] else names) (.ofElement inHead el sources r)
      (.ofElement inHead el sources s) := by
  cases hmoves : !inHead && el.isHeadOnly with
  | true =>
    constructor
    · intro _
      simp only [Resolution.kept_ofElement, hmoves, if_true]
    · simp [Resolution.kept_ofElement, hmoves]
  | false =>
    have hsize := h.size_le
    constructor
    · intro hnil
      simp only [Resolution.kept_ofElement, hmoves, h.kept_eq hnil]
    · simp only [Resolution.kept_ofElement, hmoves, Bool.false_eq_true, if_false,
        Element.nodesOf_cons, Element.children_withChildren, List.length_cons, List.length_append]
      omega

theorem kept_eq_iff (h : GrowsInto names r s) : r.kept = s.kept ↔ names = [] := by
  refine ⟨fun heq => ?_, h.kept_eq⟩
  have hsize := h.size_le
  rw [heq] at hsize
  exact List.length_eq_zero_iff.mp (by omega)

end GrowsInto

/-- How an element is rewritten does not depend on the workshop. -/
theorem Returns.restyle_unique {rules : Rules} {el : Element} {a b : Element × List String}
    {w w' v v' : Workshop} (h : Returns (rules.restyle el) w a w')
    (h' : Returns (rules.restyle el) v b v') : a = b := by
  simp only [Returns, outcome_restyle rules id] at h h'
  cases hcode : el.inlineCode? with
  | none =>
    simp only [hcode, Prod.mk.injEq, Except.ok.injEq] at h h'
    exact h.1.symm.trans h'.1
  | some code =>
    cases hout : rules.compileScript code with
    | error e => simp [hcode, hout] at h
    | ok out =>
      simp only [hcode, hout, Prod.mk.injEq, Except.ok.injEq] at h h'
      exact h.1.symm.trans h'.1

namespace Resolves

variable {rules : Rules} {inHead : Bool} {w w' : Workshop} {r : Resolution} {els : List Element}

theorem of_copy {el template : Element} {rest : List Element}
    (h : Resolves rules inHead w (el :: rest) r w') (hmark : el.isMarked = true)
    (hname : w.registry.lookup el.name = some template) : ∃ own given others w₁ w₂,
      Resolves rules inHead w template.children own w₁ ∧
      Resolves rules inHead w₁ el.children given w₂ ∧ Resolves rules inHead w₂ rest others w' ∧
      r = .ofCopy template (own ++ given) ++ others := by
  cases h with
  | define _ hname' _ => simp [hname] at hname'
  | copy _ hname' hown hgiven hrest =>
    obtain rfl := Option.some.inj (hname.symm.trans hname')
    exact ⟨_, _, _, _, _, hown, hgiven, hrest, rfl⟩
  | plain hmark' _ _ _ => simp [hmark] at hmark'

theorem exists_copies (h : Resolves rules inHead w els r w') :
    ∃ copies names, Copies rules inHead w els copies names r w' := by
  induction h with
  | nil w => exact ⟨_, _, .nil w⟩
  | define hmark hname _ ih =>
    obtain ⟨_, _, hrest⟩ := ih
    exact ⟨_, _, .define hmark hname hrest⟩
  | copy hmark hname _ _ _ ihown ihgiven ih =>
    obtain ⟨_, _, hown⟩ := ihown
    obtain ⟨_, _, hgiven⟩ := ihgiven
    obtain ⟨_, _, hrest⟩ := ih
    exact ⟨_, _, .copy hmark hname hown hgiven hrest⟩
  | plain hmark hstyle _ _ ihinner ih =>
    obtain ⟨_, _, hinner⟩ := ihinner
    obtain ⟨_, _, hrest⟩ := ih
    exact ⟨_, _, .plain hmark hstyle hinner hrest⟩

end Resolves

namespace Copies

variable {rules : Rules} {inHead : Bool} {w w' v v' : Workshop} {els : List Element}
  {copies : List Copy} {names : List String} {r s : Resolution}

theorem resolves (h : Copies rules inHead w els copies names r w') :
    Resolves rules inHead w els r w' := by
  induction h with
  | nil w => exact .nil w
  | define hmark hname _ ih => exact .define hmark hname ih
  | copy hmark hname _ _ _ ihown ihgiven ih => exact .copy hmark hname ihown ihgiven ih
  | plain hmark hstyle _ _ ihinner ih => exact .plain hmark hstyle ihinner ih

/-- A forest that is resolved again, once all that it defined is known, gives the same or more. -/
theorem growsInto (h : Copies rules inHead w els copies names r w')
    (hagain : Resolves rules inHead v els s v') (hgrows : w'.registry <+: v.registry) :
    GrowsInto names r s := by
  induction h generalizing v s v' with
  | nil w =>
    cases hagain
    exact .nil
  | @define w el rest copies names r w' hmark hname hrest ih =>
    have hdefined : (w.define el).registry.lookup el.name = some el.template := by
      simp [Workshop.define, List.lookup_append, hname]
    have hknown := lookup_of_isPrefix (hrest.resolves.registry_prefix.trans hgrows) hdefined
    obtain ⟨own, given, others, v₁, v₂, hown, hgiven, hothers, rfl⟩ := hagain.of_copy hmark hknown
    have hlater := (hgrows.trans hown.registry_prefix).trans hgiven.registry_prefix
    exact (GrowsInto.define el.name el.template (own ++ given)).append (ih hothers hlater)
  | @copy w el rest template copies₁ copies₂ copies₃ names₁ names₂ names₃ own given r w₁ w₂ w' hmark
      hname hown hgiven hrest ihown ihgiven ih =>
    have hrest' := hrest.resolves.registry_prefix.trans hgrows
    have hgiven' := hgiven.resolves.registry_prefix.trans hrest'
    have hknown := lookup_of_isPrefix (hown.resolves.registry_prefix.trans hgiven') hname
    obtain ⟨own', given', others, v₁, v₂, hown₂, hgiven₂, hothers, rfl⟩ :=
      hagain.of_copy hmark hknown
    have hcopy := (ihown hown₂ hgiven').append
      (ihgiven hgiven₂ (hrest'.trans hown₂.registry_prefix))
    have hlater := (hgrows.trans hown₂.registry_prefix).trans hgiven₂.registry_prefix
    exact (hcopy.ofCopy template).append (ih hothers hlater)
  | @plain w el rest el' sources copies₁ copies₂ names₁ names₂ inner r w₁ w₂ w' hmark hstyle hinner
      hrest ihinner ih =>
    obtain ⟨el'', sources', inner', others, v₁, v₂, hstyle', hinner', hothers, rfl⟩ :=
      hagain.of_not_marked hmark
    obtain ⟨rfl, rfl⟩ := Prod.mk.inj (hstyle.restyle_unique hstyle')
    obtain ⟨f, rfl⟩ := hstyle.exists_relabel
    have hrest' := hrest.resolves.registry_prefix.trans hgrows
    rw [← hstyle'.restyle_registry.1] at hrest' hgrows
    have hgrown := (ihinner hinner' hrest').ofElement inHead
      (el.relabel f rules.linkCompiledScripts) sources
    rw [Element.isHeadOnly_relabel] at hgrown
    exact hgrown.append (ih hothers (hgrows.trans hinner'.registry_prefix))

/-- A use is met only where its component is known, and what it comes to is a run of its own. -/
theorem of_mem (h : Copies rules inHead w els copies names r w') {c : Copy} (hc : c ∈ copies) :
    w.registry <+: c.before.registry ∧ c.after.registry <+: w'.registry ∧
      c.Copied rules inHead := by
  induction h with
  | nil => cases hc
  | define _ _ _ ih =>
    obtain ⟨hbefore, hafter, hcopied⟩ := ih hc
    exact ⟨(List.prefix_append ..).trans hbefore, hafter, hcopied⟩
  | @copy w el rest template copies₁ copies₂ copies₃ names₁ names₂ names₃ own given r w₁ w₂ w' hmark
      hname hown hgiven hrest ihown ihgiven ih =>
    have hown' := hown.resolves.registry_prefix
    have hgiven' := hgiven.resolves.registry_prefix
    have hrest' := hrest.resolves.registry_prefix
    simp only [List.mem_cons, List.mem_append] at hc
    rcases hc with rfl | (hc | hc) | hc
    · refine ⟨List.prefix_rfl, hrest', template, hname, fun hnone => ?_⟩
      dsimp only at hnone
      rw [hnone] at hgiven
      cases hgiven
      simp only [List.append_nil]
      exact ⟨copies₁, own, hown, rfl⟩
    · obtain ⟨hbefore, hafter, hcopied⟩ := ihown hc
      exact ⟨hbefore, hafter.trans (hgiven'.trans hrest'), hcopied⟩
    · obtain ⟨hbefore, hafter, hcopied⟩ := ihgiven hc
      exact ⟨hown'.trans hbefore, hafter.trans hrest', hcopied⟩
    · obtain ⟨hbefore, hafter, hcopied⟩ := ih hc
      exact ⟨(hown'.trans hgiven').trans hbefore, hafter, hcopied⟩
  | plain _ hstyle hinner hrest ihinner ih =>
    have hinner' := hinner.resolves.registry_prefix
    rw [← hstyle.restyle_registry.1]
    rcases List.mem_append.mp hc with hc | hc
    · obtain ⟨hbefore, hafter, hcopied⟩ := ihinner hc
      exact ⟨hbefore, hafter.trans hrest.resolves.registry_prefix, hcopied⟩
    · obtain ⟨hbefore, hafter, hcopied⟩ := ih hc
      exact ⟨hinner'.trans hbefore, hafter, hcopied⟩

theorem reaches (h : Copies rules inHead w els copies names r w') {c : Copy} (hc : c ∈ copies) :
    Reaches c.before.registry c.use.name els := by
  induction h with
  | nil => cases hc
  | define _ _ _ ih => exact .later (ih hc)
  | @copy w el rest template copies₁ copies₂ copies₃ names₁ names₂ names₃ own given r w₁ w₂ w' hmark
      hname hown hgiven hrest ihown ihgiven ih =>
    simp only [List.mem_cons, List.mem_append] at hc
    rcases hc with rfl | (hc | hc) | hc
    · exact .here hmark rfl hname
    · exact .own hmark (lookup_of_isPrefix (hown.of_mem hc).1 hname) (ihown hc)
    · have hbefore := hown.resolves.registry_prefix.trans (hgiven.of_mem hc).1
      exact .given hmark (lookup_of_isPrefix hbefore hname) (ihgiven hc)
    · exact .later (ih hc)
  | plain hmark _ _ _ ihinner ih =>
    rcases List.mem_append.mp hc with hc | hc
    · exact .inner hmark (ihinner hc)
    · exact .later (ih hc)

/-- A copy without content of its own is done before the next of the same component begins. -/
theorem pairwise_precedes (h : Copies rules inHead w els copies names r w') :
    copies.Pairwise fun first later => first.use.name = later.use.name →
      first.use.children = [] → later.use.children = [] →
      first.after.registry <+: later.before.registry := by
  induction h with
  | nil => exact .nil
  | define _ _ _ ih => exact ih
  | @copy w el rest template copies₁ copies₂ copies₃ names₁ names₂ names₃ own given r w₁ w₂ w' hmark
      hname hown hgiven hrest ihown ihgiven ih =>
    have hgiven' := hgiven.resolves.registry_prefix
    refine List.pairwise_cons.mpr ⟨fun later hlater heq hnone hnone' => ?_, ?_⟩
    · simp only [List.mem_append] at hlater
      dsimp only at heq hnone ⊢
      rcases hlater with (hlater | hlater) | hlater
      · -- The template would hold itself, and then its own run would not end.
        have hreach := hown.reaches hlater
        obtain ⟨hbefore, -, template', hname', hcopied⟩ := hown.of_mem hlater
        obtain ⟨_, _, hagain, _⟩ := hcopied hnone'
        have hknown := lookup_of_isPrefix hbefore hname
        rw [heq] at hknown
        obtain rfl := Option.some.inj (hknown.symm.trans hname')
        exact (hagain.resolves.not_reaches hname' hreach hreach).elim
      · rw [hnone] at hgiven
        cases hgiven
        cases hlater
      · exact (hrest.of_mem hlater).1
    · refine List.pairwise_append.mpr ⟨List.pairwise_append.mpr ⟨ihown, ihgiven, ?_⟩, ih, ?_⟩
      · intro first hfirst later hlater _ _ _
        exact (hown.of_mem hfirst).2.1.trans (hgiven.of_mem hlater).1
      · intro first hfirst later hlater _ _ _
        refine List.IsPrefix.trans ?_ (hrest.of_mem hlater).1
        rcases List.mem_append.mp hfirst with hfirst | hfirst
        · exact (hown.of_mem hfirst).2.1.trans hgiven'
        · exact (hgiven.of_mem hfirst).2.1
  | plain _ _ hinner hrest ihinner ih =>
    refine List.pairwise_append.mpr ⟨ihinner, ih, fun first hfirst later hlater _ _ _ => ?_⟩
    exact (hinner.of_mem hfirst).2.1.trans (hrest.of_mem hlater).1

end Copies

/-- Two copies of a component, for uses without content of their own, are equal exactly if the
first defines no component in what stays of it. -/
theorem copies_made_eq_iff (rules : Rules) (inHead : Bool) (els : List Element) (w w' : Workshop)
    (r : Resolution) :
    (Returns (resolve rules inHead els) w r w' ↔
      ∃ copies names, Copies rules inHead w els copies names r w') ∧
    ∀ copies names, Copies rules inHead w els copies names r w' →
      copies.Pairwise fun first later => first.use.name = later.use.name →
        first.use.children = [] → later.use.children = [] →
        (first.made = later.made ↔ first.defined = []) := by
  constructor
  · rw [returns_resolve_iff]
    constructor
    · exact Resolves.exists_copies
    · rintro ⟨copies, names, h⟩
      exact h.resolves
  · intro copies names h
    refine h.pairwise_precedes.imp_of_mem fun {first later} hfirst hlater hprecedes => ?_
    intro heq hnone hnone'
    obtain ⟨-, -, template, hname, hcopied⟩ := h.of_mem hfirst
    obtain ⟨-, -, template', hname', hcopied'⟩ := h.of_mem hlater
    obtain ⟨_, own, hown, hmade⟩ := hcopied hnone
    obtain ⟨_, own', hown', hmade'⟩ := hcopied' hnone'
    have hgrows := hprecedes heq hnone hnone'
    have hknown := lookup_of_isPrefix (hown.resolves.registry_prefix.trans hgrows) hname
    rw [heq] at hknown
    obtain rfl := Option.some.inj (hknown.symm.trans hname')
    have hkept := (hown.growsInto hown'.resolves hgrows).kept_eq_iff
    rw [hmade, hmade', ← hkept]
    constructor
    · intro hsame
      exact congrArg Element.children hsame
    · intro hsame
      rw [hsame]

section cards

/-- The second copy of a card holds the same paragraph as the first. -/
theorem copies_made_eq_card :
    let use : Element := { tag := "card", attributes := [("@", none)] }
    let card := use.withChildren [{ tag := "p" }]
    let made : Element := { tag := "div", children := [{ tag := "p" }] }
    let w : Workshop := { registry := [("card", made)] }
    let first : Copy := ⟨use, made, [], w, w⟩
    Returns (resolve { compileScript := .ok } false [card, use, use]) {} { kept := [made, made] }
        w ∧
      Copies { compileScript := .ok } false {} [card, use, use] [first, first] ["card"]
        { kept := [made, made] } w ∧ (first.made = first.made ↔ first.defined = []) := by
  intro use card made w first
  have hmark : use.isMarked = true := rfl
  have hname : w.registry.lookup use.name = some made := rfl
  have hstyle : Returns (Rules.restyle { compileScript := .ok } { tag := "p" }) w
      ({ tag := "p" }, []) w := rfl
  have hnil : Copies { compileScript := .ok } false w [] [] [] {} w := .nil w
  have hparagraph := Copies.plain rfl hstyle hnil hnil
  have hone := Copies.copy hmark hname hparagraph hnil hnil
  have hruns : Copies { compileScript := .ok } false {} [card, use, use] [first, first] ["card"]
      { kept := [made, made] } w :=
    .define rfl rfl (.copy hmark hname hparagraph hnil hone)
  obtain ⟨hiff, hpairs⟩ := copies_made_eq_iff { compileScript := .ok } false [card, use, use] {} w
    { kept := [made, made] }
  have hpair := (List.pairwise_cons.mp (hpairs _ _ hruns)).1 first (by simp)
  exact ⟨hiff.mpr ⟨_, _, hruns⟩, hruns, hpair rfl rfl rfl⟩

/-- The first copy of a card defines the badge that its template holds, and the second shows it. -/
theorem not_copies_alike : ¬ ∀ rules inHead els w r w' copies names, w.registry.Built →
    Returns (resolve rules inHead els) w r w' →
    Copies rules inHead w els copies names r w' →
    copies.Pairwise fun first later => first.use.name = later.use.name →
      first.use.children = [] → later.use.children = [] → first.made = later.made := by
  intro h
  let badge : Element := { tag := "badge", attributes := [("@", none)], text := some "x" }
  let use : Element := { tag := "card", attributes := [("@", none)] }
  let card := use.withChildren [badge]
  let shown : Element := { tag := "div", text := some "x" }
  let w : Workshop := { registry := [("card", card.template)] }
  let w' : Workshop := { registry := [("card", card.template), ("badge", shown)] }
  let first : Copy := ⟨use, { tag := "div" }, ["badge"], w, w'⟩
  let inner : Copy := ⟨badge, shown, [], w', w'⟩
  let second : Copy := ⟨use, { tag := "div", children := [shown] }, [], w', w'⟩
  have hmark : use.isMarked = true := rfl
  have hname : w.registry.lookup use.name = some card.template := rfl
  have hname' : w'.registry.lookup use.name = some card.template := rfl
  have hbadge : badge.isMarked = true := rfl
  have hknown : w'.registry.lookup badge.name = some shown := rfl
  have hnil : Copies { compileScript := .ok } false w' [] [] [] {} w' := .nil w'
  have hdefined : Copies { compileScript := .ok } false w [badge] [] ["badge"] {} w' :=
    .define rfl rfl hnil
  have hshown := Copies.copy hbadge hknown hnil hnil hnil
  have hsecond := Copies.copy hmark hname' hshown hnil hnil
  have hruns : Copies { compileScript := .ok } false {} [card, use, use] [first, second, inner]
      ["card", "badge"] { kept := [{ tag := "div" }, second.made] } w' :=
    .define rfl rfl (.copy hmark hname hdefined hnil hsecond)
  have hpairs := h _ _ _ {} _ _ _ _ .empty (returns_resolve_iff.mpr hruns.resolves) hruns
  have hsame := (List.pairwise_cons.mp hpairs).1 second (by simp) rfl rfl rfl
  exact absurd (congrArg Element.children hsame) (by simp [first, second])

end cards

end Pagewright
