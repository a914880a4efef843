import Pagewright.Proofs.Page.LevelBound

/-! Components are macros: a forest resolves as its expansion does, which holds none. -/
namespace Pagewright

/-- Expands the components of a forest in document order and leaves all else as it is written. -/
inductive Expands : Registry → List Element → List Element → Registry → Prop where
  | nil (registry) : Expands registry [] [] registry
  | define {registry el rest plain registry'} (hmark : el.isMarked = true)
      (hname : registry.lookup el.name = none)
      (hrest : Expands (registry ++ [(el.name, el.template)]) rest plain registry') :
      Expands registry (el :: rest) plain registry'
  | copy {registry el rest template content plain registry₁ registry'} (hmark : el.isMarked = true)
      (hname : registry.lookup el.name = some template)
      (hcontent : Expands registry (template.children ++ el.children) content registry₁)
      (hrest : Expands registry₁ rest plain registry') :
      Expands registry (el :: rest) (template.withChildren content :: plain) registry'
  | keep {registry el rest content plain registry₁ registry'} (hmark : el.isMarked = false)
      (hcontent : Expands registry el.children content registry₁)
      (hrest : Expands registry₁ rest plain registry') :
      Expands registry (el :: rest) (el.withChildren content :: plain) registry'

/-- Templates are unmarked divs. -/
def Registry.Sound (registry : Registry) : Prop :=
  ∀ pair ∈ registry, pair.2.tag = "div" ∧ pair.2.isMarked = false

/-- A registry that earlier runs have left, also those that failed. -/
inductive Registry.Built : Registry → Prop where
  | empty : Registry.Built []
  | resolve (rules inHead els) {w : Workshop} (h : w.registry.Built) :
      Registry.Built (outcome (Pagewright.resolve rules inHead els) w).2.registry

/-- Whatever comes of a computation, it leaves the registry sound. -/
def KeepsSound {α : Type} (x : Resolving α) : Prop :=
  ∀ w, w.registry.Sound → (outcome x w).2.registry.Sound

namespace KeepsSound

variable {α β : Type}

theorem pure (a : α) : KeepsSound (pure a) := by
  intro w h
  exact h

theorem throw (e : Failure) : KeepsSound (throw e : Resolving α) := by
  intro w h
  exact h

theorem bind {x : Resolving α} {f : α → Resolving β} (hx : KeepsSound x)
    (hf : ∀ a, KeepsSound (f a)) : KeepsSound (x >>= f) := by
  intro w h
  have hmid := hx w h
  rw [outcome_bind]
  generalize outcome x w = p at hmid
  obtain ⟨a | a, mid⟩ := p
  · exact hmid
  · exact hf a mid hmid

theorem restyle (rules : Rules) (el : Element) : KeepsSound (rules.restyle el) := by
  intro w h
  rw [outcome_restyle rules id]
  split
  · exact h
  · split <;> exact h

end KeepsSound

theorem isMarked_template (el : Element) : el.template.isMarked = false := by
  rw [Element.isMarked, Element.template, Attributes.has, Attributes.erase]
  rw [Option.isSome_eq_false_iff, Option.isNone_iff_eq_none, List.lookup_eq_none_iff]
  intro pair hpair
  have hkey := (List.mem_filter.mp hpair).2
  simpa [bne_comm] using hkey

namespace Registry.Sound

variable {registry : Registry}

theorem define (h : registry.Sound) (el : Element) :
    Registry.Sound (registry ++ [(el.name, el.template)]) := by
  intro pair hpair
  rcases List.mem_append.mp hpair with hpair | hpair
  · exact h pair hpair
  · rw [List.mem_singleton.mp hpair]
    exact ⟨rfl, isMarked_template el⟩

theorem lookup (h : registry.Sound) {name : String} {template : Element}
    (hname : registry.lookup name = some template) :
    template.tag = "div" ∧ template.isMarked = false :=
  h _ (mem_of_lookup hname)

end Registry.Sound

theorem keepsSound_resolveElement {rules : Rules} {inHead : Bool}
    {descend : List Element → Resolving Resolution} (hdescend : ∀ els, KeepsSound (descend els))
    (el : Element) : KeepsSound (rules.resolveElement inHead descend el) := by
  cases hmark : el.isMarked with
  | true =>
    intro w h
    rw [Rules.resolveElement]
    simp only [Element.isMarked_withStyleTag, hmark, if_true, outcome_bind, outcome_get]
    split
    · simp only [outcome_bind, outcome_modify, outcome_pure]
      rw [Element.template_withStyleTag]
      exact h.define el
    · exact (hdescend _).bind (fun _ => KeepsSound.pure _) w h
  | false =>
    rw [resolveElement_of_not_marked hmark]
    refine (KeepsSound.restyle rules el).bind fun styled => KeepsSound.bind ?_ fun inner => ?_
    · split
      · exact KeepsSound.pure _
      · exact hdescend _
    · exact KeepsSound.pure _

theorem keepsSound_resolveAll {resolveOne : Element → Resolving Resolution}
    (hone : ∀ el, KeepsSound (resolveOne el)) (els : List Element) :
    KeepsSound (resolveAll resolveOne els) := by
  induction els with
  | nil => exact KeepsSound.pure _
  | cons el rest ih =>
    exact (hone el).bind fun first => ih.bind fun others => KeepsSound.pure _

theorem keepsSound_resolveLevels (rules : Rules) (inHead : Bool) (levels : Nat)
    (els : List Element) : KeepsSound (resolveLevels rules inHead levels els) := by
  induction levels generalizing els with
  | zero => exact KeepsSound.throw _
  | succ levels ih => exact keepsSound_resolveAll (keepsSound_resolveElement ih) els

theorem Registry.Built.sound {registry : Registry} (h : registry.Built) : registry.Sound := by
  induction h with
  | empty => nofun
  | @resolve rules inHead els w _ ih =>
    simp only [Pagewright.resolve, outcome_bind, outcome_get]
    exact keepsSound_resolveLevels rules inHead _ els w ih

namespace Expands

variable {registry registry₁ registry' : Registry} {els front back plain plain' : List Element}

theorem append (hfront : Expands registry front plain registry₁)
    (hback : Expands registry₁ back plain' registry') :
    Expands registry (front ++ back) (plain ++ plain') registry' := by
  induction hfront with
  | nil => exact hback
  | define hmark hname _ ih => exact .define hmark hname (ih hback)
  | copy hmark hname hcontent _ _ ih => exact .copy hmark hname hcontent (ih hback)
  | keep hmark hcontent _ _ ih => exact .keep hmark hcontent (ih hback)

/-- There is one expansion at most. -/
theorem unique {registry'' : Registry} (h : Expands registry els plain registry')
    (h' : Expands registry els plain' registry'') : plain = plain' ∧ registry' = registry'' := by
  induction h generalizing plain' registry'' with
  | nil => cases h'; exact ⟨rfl, rfl⟩
  | define hmark hname _ ih =>
    cases h' with
    | define _ _ hrest => exact ih hrest
    | copy _ hname' _ _ => simp [hname] at hname'
    | keep hmark' _ _ => simp [hmark] at hmark'
  | copy hmark hname _ _ ihcontent ih =>
    cases h' with
    | define _ hname' _ => simp [hname] at hname'
    | copy _ hname' hcontent hrest =>
      obtain rfl := Option.some.inj (hname.symm.trans hname')
      obtain ⟨rfl, rfl⟩ := ihcontent hcontent
      obtain ⟨rfl, rfl⟩ := ih hrest
      exact ⟨rfl, rfl⟩
    | keep hmark' _ _ => simp [hmark] at hmark'
  | keep hmark _ _ ihcontent ih =>
    cases h' with
    | define hmark' _ _ => simp [hmark] at hmark'
    | copy hmark' _ _ _ => simp [hmark] at hmark'
    | keep _ hcontent hrest =>
      obtain ⟨rfl, rfl⟩ := ihcontent hcontent
      obtain ⟨rfl, rfl⟩ := ih hrest
      exact ⟨rfl, rfl⟩

theorem sound (h : Expands registry els plain registry') (hsound : registry.Sound) :
    registry'.Sound := by
  induction h with
  | nil => exact hsound
  | define _ _ _ ih => exact ih (hsound.define _)
  | copy _ _ _ _ ihcontent ih => exact ih (ihcontent hsound)
  | keep _ _ _ ihcontent ih => exact ih (ihcontent hsound)

/-- Nothing in an expansion is marked. -/
theorem unmarked (h : Expands registry els plain registry') (hsound : registry.Sound) :
    Element.Unmarked plain := by
  induction h with
  | nil => exact Element.unmarked_nil
  | define _ _ _ ih => exact ih (hsound.define _)
  | copy _ hname hcontent _ ihcontent ih =>
    have htemplate := (hsound.lookup hname).2
    exact (Element.unmarked_cons ..).mpr
      ⟨htemplate, ihcontent hsound, ih (hcontent.sound hsound)⟩
  | keep hmark hcontent _ ihcontent ih =>
    exact (Element.unmarked_cons ..).mpr ⟨hmark, ihcontent hsound, ih (hcontent.sound hsound)⟩

end Expands

theorem restyle_div (rules : Rules) {el : Element} (h : el.tag = "div") :
    rules.restyle el = pure (el, []) := by
  have hcss : el.withStyleTag = el := by
    rw [Element.withStyleTag, if_neg (by simp [h])]
  have hlink : el.withStyleLink = el := by
    rw [Element.withStyleLink]
    split
    · rw [if_neg (by simp [h])]
    · rfl
  rw [Rules.restyle, hcss, if_neg (by simp [h]), hlink]

theorem returns_restyle_div (rules : Rules) {el : Element} (h : el.tag = "div") (w : Workshop) :
    Returns (rules.restyle el) w (el, []) w := by
  rw [restyle_div rules h]
  exact (Returns.pure_iff ..).mpr ⟨rfl, rfl⟩

theorem ofElement_div (inHead : Bool) {el : Element} (h : el.tag = "div") (inner : Resolution) :
    Resolution.ofElement inHead el [] inner = .ofCopy el inner := by
  have hstays : el.isHeadOnly = false := by simp [Element.isHeadOnly, h]
  exact Resolution.ofElement_of_stays inHead hstays [] inner

/-- How an element is rewritten does not depend on its children. -/
theorem Returns.restyle_children {rules : Rules} {el el' : Element} {sources : List String}
    {w w' : Workshop} (h : Returns (rules.restyle el) w (el', sources) w')
    (children : List Element) :
    Returns (rules.restyle (el.withChildren children)) w (el'.withChildren children, sources)
      w' := by
  have hcode : (el.withChildren children).inlineCode? = el.inlineCode? := rfl
  have hlabel : (el.withChildren children).relabel id rules.linkCompiledScripts =
      (el.relabel id rules.linkCompiledScripts).withChildren children := rfl
  have hlinked : (el.withChildren children).linkedScripts = el.linkedScripts := rfl
  simp only [Returns, outcome_restyle rules id, hcode, hlabel, hlinked] at h ⊢
  cases hel : el.inlineCode? with
  | none =>
    simp only [hel, Prod.mk.injEq, Except.ok.injEq] at h ⊢
    obtain ⟨⟨rfl, rfl⟩, rfl⟩ := h
    exact ⟨⟨rfl, rfl⟩, rfl⟩
  | some code =>
    cases hout : rules.compileScript code with
    | error e => simp [hel, hout] at h
    | ok out =>
      simp only [hel, hout, Prod.mk.injEq, Except.ok.injEq] at h ⊢
      obtain ⟨⟨rfl, rfl⟩, rfl⟩ := h
      exact ⟨⟨rfl, rfl⟩, rfl⟩

namespace Resolves

variable {rules : Rules} {inHead : Bool} {w w' : Workshop} {r : Resolution} {els : List Element}

/-- An unmarked element with other children is rewritten alike. -/
theorem plain_children {el el' : Element} {sources : List String} {content rest : List Element}
    {inner : Resolution} {w₁ w₂ : Workshop} (hmark : el.isMarked = false)
    (hstyle : Returns (rules.restyle el) w (el', sources) w₁)
    (hinner : Resolves rules inHead w₁ content inner w₂)
    (hrest : Resolves rules inHead w₂ rest r w') :
    Resolves rules inHead w (el.withChildren content :: rest)
      (.ofElement inHead el' sources inner ++ r) w' := by
  have hplain : Resolves rules inHead w (el.withChildren content :: rest)
      (.ofElement inHead (el'.withChildren content) sources inner ++ r) w' :=
    .plain hmark (hstyle.restyle_children content) hinner hrest
  exact hplain

theorem expands (h : Resolves rules inHead w els r w') (hsound : w.registry.Sound) :
    ∃ plain, Expands w.registry els plain w'.registry ∧
      ∀ registry, Resolves rules inHead { w with registry } plain r { w' with registry } := by
  induction h with
  | nil w => exact ⟨[], .nil _, fun registry => .nil _⟩
  | define hmark hname _ ih =>
    obtain ⟨plain, hexpands, hruns⟩ := ih (hsound.define _)
    exact ⟨plain, .define hmark hname hexpands, hruns⟩
  | @copy w el rest template own given r w₁ w₂ w' hmark hname hown hgiven hrest ihown ihgiven ih =>
    obtain ⟨ownPlain, hownExpands, hownRuns⟩ := ihown hsound
    have hsound₁ := hownExpands.sound hsound
    obtain ⟨givenPlain, hgivenExpands, hgivenRuns⟩ := ihgiven hsound₁
    obtain ⟨plain, hexpands, hruns⟩ := ih (hgivenExpands.sound hsound₁)
    obtain ⟨htag, htemplate⟩ := hsound.lookup hname
    have hcontent := hownExpands.append hgivenExpands
    refine ⟨_, .copy hmark hname hcontent hexpands, fun registry => ?_⟩
    -- A copy is a div: as a plain element it is not rewritten and stays in its place.
    have hinner := (hownRuns registry).append (hgivenRuns registry)
    have hstyle := returns_restyle_div rules htag { w with registry }
    rw [← ofElement_div inHead htag]
    exact plain_children htemplate hstyle hinner (hruns registry)
  | @plain w el rest el' sources inner r w₁ w₂ w' hmark hstyle hinner hrest ihinner ih =>
    obtain ⟨hregistry, hstyles⟩ := hstyle.restyle_registry
    rw [hregistry] at ihinner
    obtain ⟨content, hcontent, hcontentRuns⟩ := ihinner hsound
    obtain ⟨plain, hexpands, hruns⟩ := ih (hcontent.sound hsound)
    refine ⟨_, .keep hmark hcontent hexpands, fun registry => ?_⟩
    exact plain_children hmark (hstyles registry) (hcontentRuns registry) (hruns registry)

theorem of_expands {registry registry' : Registry} {plain : List Element}
    (h : Expands registry els plain registry') (hsound : registry.Sound)
    (hruns : Resolves rules inHead w plain r w') : w'.registry = w.registry ∧
      Resolves rules inHead { w with registry } els r { w' with registry := registry' } := by
  induction h generalizing w r w' with
  | nil registry =>
    cases hruns
    exact ⟨rfl, .nil _⟩
  | define hmark hname _ ih =>
    obtain ⟨hsame, hrest⟩ := ih (hsound.define _) hruns
    exact ⟨hsame, .define hmark hname hrest⟩
  | @copy registry el rest template content plain registry₁ registry' hmark hname hcontent hrest
      ihcontent ih =>
    obtain ⟨htag, htemplate⟩ := hsound.lookup hname
    obtain ⟨copy, sources, inner, others, w₁, w₂, hstyle, hinner, hothers, rfl⟩ :=
      hruns.of_not_marked htemplate
    have hstyle' := (returns_restyle_div rules htag w).restyle_children content
    obtain ⟨hcopy, rfl⟩ := hstyle.unique hstyle'
    obtain ⟨rfl, rfl⟩ := Prod.mk.inj hcopy
    obtain ⟨hsame₂, hcontentRuns⟩ := ihcontent hsound hinner
    obtain ⟨hsame, hrestRuns⟩ := ih (hcontent.sound hsound) hothers
    obtain ⟨own, given, mid, hown, hgiven, rfl⟩ := hcontentRuns.of_append
    have hruns' := Resolves.copy hmark hname hown hgiven hrestRuns
    rw [← ofElement_div inHead htag] at hruns'
    exact ⟨hsame.trans hsame₂, hruns'⟩
  | @keep registry el rest content plain registry₁ registry' hmark hcontent hrest ihcontent ih =>
    obtain ⟨el', sources, inner, others, w₁, w₂, hstyle, hinner, hothers, rfl⟩ :=
      hruns.of_not_marked hmark
    have hstyle' := hstyle.restyle_children el.children
    rw [Element.withChildren_withChildren, Element.withChildren_children] at hstyle'
    obtain ⟨hsame₁, hstyles⟩ := hstyle'.restyle_registry
    obtain ⟨hsame₂, hcontentRuns⟩ := ihcontent hsound hinner
    obtain ⟨hsame, hrestRuns⟩ := ih (hcontent.sound hsound) hothers
    have hruns' := Resolves.plain hmark (hstyles registry) hcontentRuns hrestRuns
    exact ⟨hsame.trans (hsame₂.trans hsame₁), hruns'⟩

end Resolves

/-- A forest resolves as its expansion does once all components are known. -/
theorem returns_resolve_iff_expanded {rules : Rules} {inHead : Bool} {els : List Element}
    {w w' : Workshop} {r : Resolution} (h : w.registry.Built) :
    Returns (resolve rules inHead els) w r w' ↔
      ∃ plain, Expands w.registry els plain w'.registry ∧ Element.Unmarked plain ∧
        Returns (resolve rules inHead plain) { w with registry := w'.registry } r w' := by
  simp only [returns_resolve_iff]
  constructor
  · intro hruns
    obtain ⟨plain, hexpands, hplain⟩ := hruns.expands h.sound
    exact ⟨plain, hexpands, hexpands.unmarked h.sound, hplain w'.registry⟩
  · rintro ⟨plain, hexpands, _, hplain⟩
    exact (Resolves.of_expands hexpands h.sound hplain).2

/-- One run defines a card with a paragraph, the next uses it with an image of its own. -/
theorem returns_resolve_card :
    let card : Element := { tag := "div", children := [{ tag := "p" }] }
    let use : Element :=
      { tag := "card", attributes := [("@", none)], children := [{ tag := "img" }] }
    let copy := card.withChildren [{ tag := "p" }, { tag := "img" }]
    ∃ plain, Expands [("card", card)] [use] plain [("card", card)] ∧ Element.Unmarked plain ∧
      Returns (resolve { compileScript := .ok } false plain) { registry := [("card", card)] }
        { kept := [copy] } { registry := [("card", card)] } := by
  intro card use copy
  have hbuilt : Registry.Built [("card", card)] :=
    Registry.Built.resolve (w := {}) { compileScript := .ok } false
      [{ tag := "card", attributes := [("@", none)], children := [{ tag := "p" }] }] .empty
  have hrun : Returns (resolve { compileScript := .ok } false [use])
      { registry := [("card", card)] } { kept := [copy] } { registry := [("card", card)] } := rfl
  exact (returns_resolve_iff_expanded (w := { registry := [("card", card)] }) hbuilt).mp hrun

end Pagewright
