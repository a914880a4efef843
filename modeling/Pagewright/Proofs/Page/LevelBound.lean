import Mathlib.Data.Finset.Card
import Pagewright.Proofs.Html.Nodes
import Pagewright.Proofs.Page.Resolves

/-! The level bound is high enough: resolving gives up only where no number of levels would do. -/
namespace Pagewright

/-- By the definitions known so far, resolving a forest comes to a copy of a component. -/
inductive Reaches (registry : Registry) (name : String) : List Element → Prop where
  | here {el rest template} (hmark : el.isMarked = true) (heq : el.name = name)
      (hname : registry.lookup el.name = some template) : Reaches registry name (el :: rest)
  | own {el rest template} (hmark : el.isMarked = true)
      (hname : registry.lookup el.name = some template)
      (hown : Reaches registry name template.children) : Reaches registry name (el :: rest)
  | given {el rest template} (hmark : el.isMarked = true)
      (hname : registry.lookup el.name = some template)
      (hgiven : Reaches registry name el.children) : Reaches registry name (el :: rest)
  | inner {el rest} (hmark : el.isMarked = false) (hinner : Reaches registry name el.children) :
      Reaches registry name (el :: rest)
  | later {el rest} (hrest : Reaches registry name rest) : Reaches registry name (el :: rest)

theorem Reaches.mono {registry registry' : Registry} {name : String} {els : List Element}
    (h : Reaches registry name els) (hgrows : registry <+: registry') :
    Reaches registry' name els := by
  induction h with
  | here hmark heq hname => exact .here hmark heq (lookup_of_isPrefix hgrows hname)
  | own hmark hname _ ih => exact .own hmark (lookup_of_isPrefix hgrows hname) ih
  | given hmark hname _ ih => exact .given hmark (lookup_of_isPrefix hgrows hname) ih
  | inner hmark _ ih => exact .inner hmark ih
  | later _ ih => exact .later ih

/-- A run that copies only components with these names, and none inside its own template. -/
inductive ResolvesWithin (rules : Rules) (inHead : Bool) :
    Finset String → Workshop → List Element → Resolution → Workshop → Prop where
  | nil (names w) : ResolvesWithin rules inHead names w [] {} w
  | define {names w el rest r w'} (hmark : el.isMarked = true)
      (hname : w.registry.lookup el.name = none)
      (hrest : ResolvesWithin rules inHead names (w.define el) rest r w') :
      ResolvesWithin rules inHead names w (el :: rest) r w'
  | copy {names w el rest template own given r w₁ w₂ w'} (hmark : el.isMarked = true)
      (hname : w.registry.lookup el.name = some template) (hmem : el.name ∈ names)
      (hown : ResolvesWithin rules inHead (names.erase el.name) w template.children own w₁)
      (hgiven : ResolvesWithin rules inHead names w₁ el.children given w₂)
      (hrest : ResolvesWithin rules inHead names w₂ rest r w') :
      ResolvesWithin rules inHead names w (el :: rest) (.ofCopy template (own ++ given) ++ r) w'
  | plain {names w el rest el' sources inner r w₁ w₂ w'} (hmark : el.isMarked = false)
      (hstyle : Returns (rules.restyle el) w (el', sources) w₁)
      (hinner : ResolvesWithin rules inHead names w₁ el.children inner w₂)
      (hrest : ResolvesWithin rules inHead names w₂ rest r w') :
      ResolvesWithin rules inHead names w (el :: rest) (.ofElement inHead el' sources inner ++ r) w'

/-- Marked nodes have these names, and the forest is at most this high. -/
structure Bounded (names : Finset String) (height : Nat) (els : List Element) : Prop where
  name_mem : ∀ el ∈ Element.nodesOf els, el.isMarked = true → el.name ∈ names
  heightOf_le : Element.heightOf els ≤ height

structure Registry.Bounded (names : Finset String) (height : Nat) (registry : Registry) :
    Prop where
  name_mem : ∀ pair ∈ registry, pair.1 ∈ names
  children : ∀ pair ∈ registry, Pagewright.Bounded names height pair.2.children

section bounds

variable {names : Finset String} {height : Nat}

theorem bounded_cons {el : Element} {rest : List Element} (h : Bounded names height (el :: rest)) :
    (el.isMarked = true → el.name ∈ names) ∧ Bounded names height el.children ∧
      Bounded names height rest := by
  have hname := h.name_mem
  have hheight := h.heightOf_le
  simp only [Element.nodesOf_cons, List.mem_cons, List.mem_append, or_imp, forall_and,
    forall_eq] at hname
  rw [Element.heightOf_cons] at hheight
  exact ⟨hname.1, ⟨hname.2.1, by omega⟩, ⟨hname.2.2, by omega⟩⟩

theorem Registry.Bounded.define {w : Workshop} {el : Element}
    (h : w.registry.Bounded names height) (hname : el.name ∈ names)
    (hel : Pagewright.Bounded names height el.children) :
    (w.define el).registry.Bounded names height := by
  constructor
  · intro pair hpair
    rcases List.mem_append.mp hpair with hpair | hpair
    · exact h.name_mem pair hpair
    · rw [List.mem_singleton.mp hpair]
      exact hname
  · intro pair hpair
    rcases List.mem_append.mp hpair with hpair | hpair
    · exact h.children pair hpair
    · rw [List.mem_singleton.mp hpair]
      exact hel

theorem mem_of_lookup {registry : Registry} {name : String} {template : Element}
    (h : registry.lookup name = some template) : (name, template) ∈ registry := by
  obtain ⟨front, back, rfl, _⟩ := List.lookup_eq_some_iff.mp h
  simp

end bounds

namespace Resolves

variable {rules : Rules} {inHead : Bool} {w w' : Workshop} {r : Resolution} {els : List Element}

/-- A template that comes to a copy of itself has no run that ends. -/
theorem not_reaches {name : String} {template : Element}
    (h : Resolves rules inHead w els r w') (hname : w.registry.lookup name = some template)
    (hself : Reaches w.registry name template.children) : ¬ Reaches w.registry name els := by
  -- The derivation gets smaller along the path to the copy, and at its end the path starts again.
  induction h with
  | nil => nofun
  | @define w el rest r w' hmark hnew hrest ih =>
    have hgrows : w.registry <+: (w.define el).registry := List.prefix_append ..
    intro hreach
    cases hreach with
    | here _ _ hsome => simp [hnew] at hsome
    | own _ hsome _ => simp [hnew] at hsome
    | given _ hsome _ => simp [hnew] at hsome
    | inner hmark' _ => simp [hmark] at hmark'
    | later hreach =>
      exact ih (lookup_of_isPrefix hgrows hname) (hself.mono hgrows) (hreach.mono hgrows)
  | @copy w el rest template' own given r w₁ w₂ w' hmark hsome hown hgiven hrest ihown ihgiven ih =>
    have hgrows₁ := hown.registry_prefix
    have hgrows₂ := hgrows₁.trans hgiven.registry_prefix
    intro hreach
    cases hreach with
    | here _ heq _ =>
      rw [heq, hname] at hsome
      obtain rfl := Option.some.inj hsome
      exact ihown hname hself hself
    | own _ hsome' hreach =>
      rw [hsome] at hsome'
      obtain rfl := Option.some.inj hsome'
      exact ihown hname hself hreach
    | given _ _ hreach =>
      exact ihgiven (lookup_of_isPrefix hgrows₁ hname) (hself.mono hgrows₁) (hreach.mono hgrows₁)
    | inner hmark' _ => simp [hmark] at hmark'
    | later hreach =>
      exact ih (lookup_of_isPrefix hgrows₂ hname) (hself.mono hgrows₂) (hreach.mono hgrows₂)
  | @plain w el rest el' sources inner r w₁ w₂ w' hmark hstyle hinner hrest ihinner ih =>
    have hsame := hstyle.restyle_registry.1
    have hgrows := hinner.registry_prefix
    rw [hsame] at ihinner hgrows
    intro hreach
    cases hreach with
    | here hmark' _ _ => simp [hmark] at hmark'
    | own hmark' _ _ => simp [hmark] at hmark'
    | given hmark' _ _ => simp [hmark] at hmark'
    | inner _ hreach => exact ihinner hname hself hreach
    | later hreach =>
      exact ih (lookup_of_isPrefix hgrows hname) (hself.mono hgrows) (hreach.mono hgrows)

theorem registry_bounded {names : Finset String} {height : Nat}
    (h : Resolves rules inHead w els r w') (hregistry : w.registry.Bounded names height)
    (hels : Bounded names height els) : w'.registry.Bounded names height := by
  induction h with
  | nil => exact hregistry
  | define hmark _ _ ih =>
    obtain ⟨hname, hchildren, hrest⟩ := bounded_cons hels
    exact ih (hregistry.define (hname hmark) hchildren) hrest
  | copy hmark hname _ _ _ ihown ihgiven ih =>
    obtain ⟨_, hchildren, hrest⟩ := bounded_cons hels
    have hown := ihown hregistry (hregistry.children _ (mem_of_lookup hname))
    exact ih (ihgiven hown hchildren) hrest
  | plain _ hstyle _ _ ihinner ih =>
    obtain ⟨_, hchildren, hrest⟩ := bounded_cons hels
    rw [← hstyle.restyle_registry.1] at hregistry
    exact ih (ihinner hregistry hchildren) hrest

end Resolves

namespace ResolvesWithin

variable {rules : Rules} {inHead : Bool} {names : Finset String} {w w' : Workshop} {r : Resolution}
  {els : List Element}

theorem resolves (h : ResolvesWithin rules inHead names w els r w') :
    Resolves rules inHead w els r w' := by
  induction h with
  | nil names w => exact .nil w
  | define hmark hname _ ih => exact .define hmark hname ih
  | copy hmark hname _ _ _ _ ihown ihgiven ih => exact .copy hmark hname ihown ihgiven ih
  | plain hmark hstyle _ _ ihinner ih => exact .plain hmark hstyle ihinner ih

/-- A run does without a name, or it comes to a run of the template of that name. -/
theorem erase_or_reaches (h : ResolvesWithin rules inHead names w els r w') (name : String) :
    ResolvesWithin rules inHead (names.erase name) w els r w' ∨
      ∃ mid template own w₁, w.registry <+: mid.registry ∧
        mid.registry.lookup name = some template ∧
        Resolves rules inHead mid template.children own w₁ ∧
        Reaches mid.registry name els := by
  induction h with
  | nil names w => exact .inl (.nil _ w)
  | define hmark hname _ ih =>
    rcases ih with ih | ⟨mid, template, own, w₁, hgrows, hmid, hown, hreach⟩
    · exact .inl (.define hmark hname ih)
    · exact .inr ⟨mid, template, own, w₁, (List.prefix_append ..).trans hgrows, hmid, hown,
        .later hreach⟩
  | @copy names w el rest template own given r w₁ w₂ w' hmark hname hmem hown hgiven hrest ihown
      ihgiven ih =>
    have hgrows₁ := hown.resolves.registry_prefix
    have hgrows₂ := hgrows₁.trans hgiven.resolves.registry_prefix
    by_cases heq : el.name = name
    · subst heq
      exact .inr ⟨w, template, own, w₁, List.prefix_rfl, hname, hown.resolves,
        .here hmark rfl hname⟩
    · rcases ihown with ihown | ⟨mid, template', own', w₁', hgrows, hmid, hrun, hreach⟩
      · rcases ihgiven with ihgiven | ⟨mid, template', own', w₁', hgrows, hmid, hrun, hreach⟩
        · rcases ih with ih | ⟨mid, template', own', w₁', hgrows, hmid, hrun, hreach⟩
          · rw [Finset.erase_right_comm] at ihown
            have hmem' := Finset.mem_erase.mpr ⟨heq, hmem⟩
            exact .inl (.copy hmark hname hmem' ihown ihgiven ih)
          · exact .inr ⟨mid, template', own', w₁', hgrows₂.trans hgrows, hmid, hrun,
              .later hreach⟩
        · have hlater := hgrows₁.trans hgrows
          exact .inr ⟨mid, template', own', w₁', hlater, hmid, hrun,
            .given hmark (lookup_of_isPrefix hlater hname) hreach⟩
      · exact .inr ⟨mid, template', own', w₁', hgrows, hmid, hrun,
          .own hmark (lookup_of_isPrefix hgrows hname) hreach⟩
  | plain hmark hstyle hinner _ ihinner ih =>
    have hgrows := hinner.resolves.registry_prefix
    rw [hstyle.restyle_registry.1] at ihinner hgrows
    rcases ihinner with ihinner | ⟨mid, template, own, w₁, hinto, hmid, hown, hreach⟩
    · rcases ih with ih | ⟨mid, template, own, w₁, hinto, hmid, hown, hreach⟩
      · exact .inl (.plain hmark hstyle ihinner ih)
      · exact .inr ⟨mid, template, own, w₁, hgrows.trans hinto, hmid, hown, .later hreach⟩
    · exact .inr ⟨mid, template, own, w₁, hinto, hmid, hown, .inner hmark hreach⟩

/-- Each level goes down the forest, or into a template that is not entered again. -/
theorem returns {height levels : Nat} (h : ResolvesWithin rules inHead names w els r w')
    (hheight : ∀ pair ∈ w'.registry, Element.heightOf pair.2.children ≤ height)
    (hlevels : names.card * (height + 1) + Element.heightOf els ≤ levels) :
    Returns (resolveLevels rules inHead (levels + 1) els) w r w' := by
  induction h generalizing levels with
  | nil names w => exact (Returns.pure_iff ..).mpr ⟨rfl, rfl⟩
  | define hmark hname _ ih =>
    rw [Element.heightOf_cons] at hlevels
    have hrest := ih hheight ((Nat.add_le_add_left (Nat.le_max_right ..) _).trans hlevels)
    exact returns_resolveAll_cons.mpr ⟨{}, _, _, (returns_define hmark hname).mpr ⟨rfl, rfl⟩,
      hrest, rfl⟩
  | @copy names w el rest template own given r w₁ w₂ w' hmark hname hmem hown hgiven hrest ihown
      ihgiven ih =>
    have hgrows := hrest.resolves.registry_prefix
    have hgrows' := hgiven.resolves.registry_prefix.trans hgrows
    have htemplate := (hown.resolves.registry_prefix.trans hgrows').subset (mem_of_lookup hname)
    -- Entering the template gives up a name, which is worth the height of any template.
    have hcard := Finset.card_erase_add_one hmem
    have hsplit : names.card * (height + 1) =
        (names.erase el.name).card * (height + 1) + (height + 1) := by
      rw [← hcard, Nat.succ_mul]
    have htop := hheight _ htemplate
    dsimp only at htop
    rw [Element.heightOf_cons] at hlevels
    obtain ⟨levels, rfl⟩ : ∃ below, levels = below + 1 := ⟨levels - 1, by omega⟩
    have hlevels₁ : (names.erase el.name).card * (height + 1) +
        Element.heightOf template.children ≤ levels := by omega
    have hlevels₂ : names.card * (height + 1) + Element.heightOf el.children ≤ levels := by omega
    have hlevels₃ : names.card * (height + 1) + Element.heightOf rest ≤ levels + 1 := by omega
    have hown' := ihown (fun pair hpair => hheight pair (hgrows'.subset hpair)) hlevels₁
    have hgiven' := ihgiven (fun pair hpair => hheight pair (hgrows.subset hpair)) hlevels₂
    have hrest' := ih hheight hlevels₃
    refine returns_resolveAll_cons.mpr ⟨_, _, _, (returns_copy hmark hname).mpr ⟨_, ?_, rfl⟩,
      hrest', rfl⟩
    exact returns_resolveAll_append.mpr ⟨_, _, _, hown', hgiven', rfl⟩
  | @plain names w el rest el' sources inner r w₁ w₂ w' hmark hstyle hinner hrest ihinner ih =>
    have hgrows := hrest.resolves.registry_prefix
    rw [Element.heightOf_cons] at hlevels
    obtain ⟨levels, rfl⟩ : ∃ below, levels = below + 1 := ⟨levels - 1, by omega⟩
    have hlevels₁ : names.card * (height + 1) + Element.heightOf el.children ≤ levels := by omega
    have hlevels₂ : names.card * (height + 1) + Element.heightOf rest ≤ levels + 1 := by omega
    have hinner' := ihinner (fun pair hpair => hheight pair (hgrows.subset hpair)) hlevels₁
    have hrest' := ih hheight hlevels₂
    refine returns_resolveAll_cons.mpr ⟨_, _, _, (returns_plain hmark).mpr
      ⟨_, _, _, _, hstyle, ?_, rfl⟩, hrest', rfl⟩
    split
    next hleaf =>
      rw [List.isEmpty_iff.mp hleaf] at hinner
      cases hinner
      exact (Returns.pure_iff ..).mpr ⟨rfl, rfl⟩
    next => exact hinner'

end ResolvesWithin

namespace Resolves

variable {rules : Rules} {inHead : Bool} {w w' : Workshop} {r : Resolution} {els : List Element}

/-- A run that ends copies no component inside its own template. -/
theorem within {names : Finset String} (h : Resolves rules inHead w els r w')
    (hnames : ∀ pair ∈ w'.registry, pair.1 ∈ names) :
    ResolvesWithin rules inHead names w els r w' := by
  induction h with
  | nil w => exact .nil names w
  | define hmark hname _ ih => exact .define hmark hname (ih hnames)
  | @copy w el rest template own given r w₁ w₂ w' hmark hname hown hgiven hrest ihown ihgiven ih =>
    have hgrows := hrest.registry_prefix
    have hgrows' := hgiven.registry_prefix.trans hgrows
    have hown' := ihown fun pair hpair => hnames pair (hgrows'.subset hpair)
    have hgiven' := ihgiven fun pair hpair => hnames pair (hgrows.subset hpair)
    have hmem := hnames _ ((hown.registry_prefix.trans hgrows').subset (mem_of_lookup hname))
    rcases hown'.erase_or_reaches el.name with herase |
      ⟨mid, again, _, _, hinto, hmid, hrun, hreach⟩
    · exact .copy hmark hname hmem herase hgiven' (ih hnames)
    · -- The later run is of the same template, since the first definition of a name stays.
      obtain rfl := Option.some.inj ((lookup_of_isPrefix hinto hname).symm.trans hmid)
      exact (hrun.not_reaches hmid hreach hreach).elim
  | plain hmark hstyle _ hrest ihinner ih =>
    have hgrows := hrest.registry_prefix
    exact .plain hmark hstyle (ihinner fun pair hpair => hnames pair (hgrows.subset hpair))
      (ih hnames)

end Resolves

namespace Element

theorem heightOf_children_lt {el : Element} {els : List Element} (h : el ∈ els) :
    heightOf el.children < heightOf els := by
  induction els with
  | nil => cases h
  | cons first rest ih =>
    rw [heightOf_cons]
    rcases List.mem_cons.mp h with rfl | h
    · omega
    · have := ih h
      omega

/-- The names of the components that a forest defines or uses. -/
def markedNames (els : List Element) : Finset String :=
  (((nodesOf els).filter isMarked).map name).toFinset

theorem mem_markedNames {el : Element} {els : List Element} (h : el ∈ nodesOf els)
    (hmark : el.isMarked = true) : el.name ∈ markedNames els := by
  rw [markedNames, List.mem_toFinset]
  exact List.mem_map_of_mem (List.mem_filter.mpr ⟨h, hmark⟩)

theorem card_markedNames_le (els : List Element) : (markedNames els).card ≤ countMarkedIn els := by
  rw [markedNames, countMarkedIn_eq, List.countP_eq_length_filter]
  exact (List.toFinset_card_le _).trans (List.length_map ..).le

end Element

section levelBound

variable (registry : Registry) (els : List Element)

/-- Every name that a run can come to. -/
def namesOfRun : Finset String :=
  (registry.map (·.1)).toFinset ∪ Element.markedNames (registry.map (·.2)) ∪
    Element.markedNames els

/-- The height of the highest forest or template that a run starts from. -/
def heightOfRun : Nat :=
  max (Element.heightOf (registry.map (·.2))) (Element.heightOf els)

theorem card_namesOfRun_le : (namesOfRun registry els).card ≤
    registry.length + Element.countMarkedIn (registry.map (·.2)) + Element.countMarkedIn els := by
  have hunion := Finset.card_union_le
    ((registry.map (·.1)).toFinset ∪ Element.markedNames (registry.map (·.2)))
    (Element.markedNames els)
  have hunion' := Finset.card_union_le (registry.map (·.1)).toFinset
    (Element.markedNames (registry.map (·.2)))
  have hlength := List.toFinset_card_le (registry.map (·.1))
  have htemplates := Element.card_markedNames_le (registry.map (·.2))
  have hmarked := Element.card_markedNames_le els
  rw [List.length_map] at hlength
  rw [namesOfRun]
  omega

theorem bounded_of_run : Bounded (namesOfRun registry els) (heightOfRun registry els) els := by
  constructor
  · intro el hel hmark
    exact Finset.mem_union_right _ (Element.mem_markedNames hel hmark)
  · exact Nat.le_max_right ..

theorem registry_bounded_of_run :
    registry.Bounded (namesOfRun registry els) (heightOfRun registry els) := by
  constructor
  · intro pair hpair
    refine Finset.mem_union_left _ (Finset.mem_union_left _ ?_)
    exact List.mem_toFinset.mpr (List.mem_map_of_mem hpair)
  · intro pair hpair
    have htemplate : pair.2 ∈ registry.map (·.2) := List.mem_map_of_mem hpair
    constructor
    · intro el hel hmark
      have hnode := Element.nodesOf_children_subset htemplate hel
      refine Finset.mem_union_left _ (Finset.mem_union_right _ ?_)
      exact Element.mem_markedNames hnode hmark
    · exact (Element.heightOf_children_lt htemplate).le.trans (Nat.le_max_left ..)

theorem exists_levelBound : ∃ levels, levelBound registry els = levels + 1 ∧
    (namesOfRun registry els).card * (heightOfRun registry els + 1) + Element.heightOf els ≤
      levels := by
  have hmul := Nat.mul_le_mul_right (heightOfRun registry els + 1)
    (card_namesOfRun_le registry els)
  have hheight := (bounded_of_run registry els).heightOf_le
  have hbound : levelBound registry els = (registry.length +
      Element.countMarkedIn (registry.map (·.2)) + Element.countMarkedIn els) *
        (heightOfRun registry els + 1) + (heightOfRun registry els + 1) + 1000 := by
    rw [levelBound, ← Nat.succ_mul]
    rfl
  refine ⟨levelBound registry els - 1, ?_, ?_⟩
  all_goals omega

end levelBound

/-- The level bound changes nothing: it is kept by every run that ends. -/
theorem returns_resolve_iff {rules : Rules} {inHead : Bool} {els : List Element} {w w' : Workshop}
    {r : Resolution} :
    Returns (resolve rules inHead els) w r w' ↔ Resolves rules inHead w els r w' := by
  have hresolve : Returns (resolve rules inHead els) w r w' ↔
      Returns (resolveLevels rules inHead (levelBound w.registry els) els) w r w' := by
    simp only [resolve, Returns.bind_iff, Returns.get_iff]
    constructor
    · rintro ⟨_, _, ⟨rfl, rfl⟩, h⟩
      exact h
    · intro h
      exact ⟨w, w, ⟨rfl, rfl⟩, h⟩
  rw [hresolve]
  constructor
  · exact Resolves.of_levels
  · intro h
    obtain ⟨levels, hbound, hlevels⟩ := exists_levelBound w.registry els
    have hafter := h.registry_bounded (registry_bounded_of_run ..) (bounded_of_run w.registry els)
    have hheight := fun pair hpair => (hafter.children pair hpair).heightOf_le
    rw [hbound]
    exact (h.within hafter.name_mem).returns hheight hlevels

end Pagewright
