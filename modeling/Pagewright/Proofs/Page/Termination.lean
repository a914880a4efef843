import Mathlib.Order.WellFoundedSet
import Pagewright.Proofs.Page.Expansion

/-! Resolving ends if no component leads back to itself. The components that a template defines
count as well, since they are known once the template was copied. -/
namespace Pagewright

/-- A marked node with this name stands below an element, at any depth. -/
def Element.Holds (el : Element) (name : String) : Prop :=
  ∃ node ∈ Element.nodesOf el.children, node.isMarked = true ∧ node.name = name

/-- A name leads to what a marked node of that name holds in the forest, and to what the template
known by that name holds. -/
inductive Leads (registry : Registry) (els : List Element) : String → String → Prop where
  | node {el name} (hel : el ∈ Element.nodesOf els) (hmark : el.isMarked = true)
      (hholds : el.Holds name) : Leads registry els el.name name
  | template {name template held} (hname : registry.lookup name = some template)
      (hholds : template.Holds held) : Leads registry els name held

/-- No name leads back to itself. -/
def Acyclic (registry : Registry) (els : List Element) : Prop :=
  ∀ name, ¬ Relation.TransGen (Leads registry els) name name

/-- The marked nodes of a forest lead only where `E` does. -/
def Nests (E : String → String → Prop) (els : List Element) : Prop :=
  ∀ el ∈ Element.nodesOf els, el.isMarked = true → ∀ name, el.Holds name → E el.name name

structure Registry.Nests (E : String → String → Prop) (registry : Registry) : Prop where
  holds : ∀ {name template}, registry.lookup name = some template →
    ∀ held, template.Holds held → E name held
  children : ∀ {name template}, registry.lookup name = some template →
    Pagewright.Nests E template.children

section nests

variable {E : String → String → Prop}

theorem nests_cons {el : Element} {rest : List Element} (h : Nests E (el :: rest)) :
    (el.isMarked = true → ∀ name, el.Holds name → E el.name name) ∧ Nests E el.children ∧
      Nests E rest := by
  simpa only [Nests, Element.nodesOf_cons, List.mem_cons, List.mem_append, or_imp, forall_and,
    forall_eq] using h

theorem Registry.Nests.define {w : Workshop} (h : w.registry.Nests E) {el : Element}
    (hel : ∀ name, el.Holds name → E el.name name) (hchildren : Pagewright.Nests E el.children) :
    (w.define el).registry.Nests E := by
  have hlookup : ∀ {name template}, (w.define el).registry.lookup name = some template →
      w.registry.lookup name = some template ∨ name = el.name ∧ template = el.template := by
    intro name template hname
    rw [Workshop.define, List.lookup_append, Option.or_eq_some_iff] at hname
    rcases hname with hname | ⟨-, hname⟩
    · exact .inl hname
    · have hpair := mem_of_lookup hname
      rw [List.mem_singleton, Prod.mk.injEq] at hpair
      exact .inr hpair
  constructor
  · intro name template hname held hheld
    rcases hlookup hname with hname | ⟨rfl, rfl⟩
    · exact h.holds hname held hheld
    · exact hel held hheld
  · intro name template hname
    rcases hlookup hname with hname | ⟨rfl, rfl⟩
    · exact h.children hname
    · exact hchildren

end nests

/-- Every forest whose components `E` leads to from this name has a run that ends. -/
def EndsBelow (rules : Rules) (inHead : Bool) (E : String → String → Prop) (name : String) :
    Prop :=
  ∀ els w, Nests E els → (∀ el ∈ Element.nodesOf els, el.isMarked = true → E name el.name) →
    w.registry.Nests E → ∃ r w', Resolves rules inHead w els r w' ∧ w'.registry.Nests E

section ends

variable {rules : Rules} {inHead : Bool} {E : String → String → Prop} {f : String → String}

theorem exists_resolves (hf : ∀ code, rules.compileScript code = .ok (f code))
    {els : List Element} (hels : Nests E els)
    (hends : ∀ el ∈ Element.nodesOf els, el.isMarked = true → EndsBelow rules inHead E el.name)
    {w : Workshop} (hw : w.registry.Nests E) :
    ∃ r w', Resolves rules inHead w els r w' ∧ w'.registry.Nests E := by
  induction els using Element.forest_induction generalizing w with
  | nil => exact ⟨_, _, .nil w, hw⟩
  | cons el rest ihchildren ihrest =>
    obtain ⟨hholds, hchildren, hrest⟩ := nests_cons hels
    have hbelow : ∀ node ∈ Element.nodesOf el.children, node.isMarked = true →
        EndsBelow rules inHead E node.name := fun node hnode => hends node (by simp [hnode])
    have hlater : ∀ node ∈ Element.nodesOf rest, node.isMarked = true →
        EndsBelow rules inHead E node.name := fun node hnode => hends node (by simp [hnode])
    cases hmark : el.isMarked with
    | false =>
      obtain ⟨n, hstyle⟩ := Returns.restyle_of_total hf el w
      have hw₁ : Registry.Nests E { w with compiled := w.compiled + n }.registry := hw
      obtain ⟨inner, w₂, hinner, hw₂⟩ := ihchildren hchildren hbelow hw₁
      obtain ⟨r, w', hruns, hw'⟩ := ihrest hrest hlater hw₂
      exact ⟨_, _, .plain hmark hstyle hinner hruns, hw'⟩
    | true =>
      cases hname : w.registry.lookup el.name with
      | none =>
        obtain ⟨r, w', hruns, hw'⟩ := ihrest hrest hlater (hw.define (hholds hmark) hchildren)
        exact ⟨_, _, .define hmark hname hruns, hw'⟩
      | some template =>
        -- The template is no part of the forest: its run ends since it is below the name.
        have hend := hends el (by simp) hmark
        obtain ⟨own, w₁, hown, hw₁⟩ := hend template.children w (hw.children hname)
          (fun node hnode hnodeMark => hw.holds hname node.name ⟨node, hnode, hnodeMark, rfl⟩) hw
        obtain ⟨given, w₂, hgiven, hw₂⟩ := ihchildren hchildren hbelow hw₁
        obtain ⟨r, w', hruns, hw'⟩ := ihrest hrest hlater hw₂
        exact ⟨_, _, .copy hmark hname hown hgiven hruns, hw'⟩

theorem endsBelow_of_wellFounded (hf : ∀ code, rules.compileScript code = .ok (f code))
    (hwf : WellFounded fun held name => E name held) (name : String) :
    EndsBelow rules inHead E name := by
  induction name using hwf.induction with
  | _ name ih =>
    intro els w hels hbelow hw
    apply exists_resolves hf hels _ hw
    intro el hel hmark
    exact ih el.name (hbelow el hel hmark)

end ends

section acyclic

variable {registry : Registry} {els : List Element}

theorem mem_namesOfRun_of_node {el : Element}
    (hel : el ∈ Element.nodesOf (els ++ registry.map (·.2))) (hmark : el.isMarked = true) :
    el.name ∈ namesOfRun registry els := by
  rw [Element.nodesOf_append, List.mem_append] at hel
  rw [namesOfRun, Finset.mem_union, Finset.mem_union]
  rcases hel with hel | hel
  · exact .inr (Element.mem_markedNames hel hmark)
  · exact .inl (.inr (Element.mem_markedNames hel hmark))

theorem Leads.mem_namesOfRun {name held : String}
    (h : Leads registry (els ++ registry.map (·.2)) name held) :
    name ∈ namesOfRun registry els ∧ held ∈ namesOfRun registry els := by
  cases h with
  | node hel hmark hholds =>
    obtain ⟨node, hnode, hnodeMark, rfl⟩ := hholds
    have hbelow := Element.nodesOf_below_subset hel hnode
    exact ⟨mem_namesOfRun_of_node hel hmark, mem_namesOfRun_of_node hbelow hnodeMark⟩
  | template hname hholds =>
    obtain ⟨node, hnode, hnodeMark, rfl⟩ := hholds
    have hpair := mem_of_lookup hname
    have htemplates := registry_bounded_of_run registry els
    exact ⟨htemplates.name_mem _ hpair, (htemplates.children _ hpair).name_mem _ hnode hnodeMark⟩

/-- There are finitely many names, so that a way without cycles among them ends. -/
theorem wellFounded_leads (h : Acyclic registry (els ++ registry.map (·.2))) :
    WellFounded fun held name => Leads registry (els ++ registry.map (·.2)) name held := by
  let below : String → String → Prop :=
    fun held name => Relation.TransGen (Leads registry (els ++ registry.map (·.2))) name held
  have horder : IsStrictOrder String below :=
    { irrefl := h
      trans := fun a b c hab hbc => hbc.trans hab }
  have hfinite := Set.wellFoundedOn_iff.mp ((namesOfRun registry els).wellFoundedOn (r := below))
  refine Subrelation.wf (fun {held name} hleads => ?_) hfinite
  obtain ⟨hname, hheld⟩ := hleads.mem_namesOfRun
  exact ⟨.single hleads, hheld, hname⟩

/-- There is no cycle if the names that a node or template holds have a lower rank. -/
theorem acyclic_of_rank (rank : String → Nat)
    (hnodes : ∀ el ∈ Element.nodesOf els, el.isMarked = true →
      ∀ node ∈ Element.nodesOf el.children, node.isMarked = true → rank node.name < rank el.name)
    (htemplates : ∀ pair ∈ registry, ∀ node ∈ Element.nodesOf pair.2.children,
      node.isMarked = true → rank node.name < rank pair.1) : Acyclic registry els := by
  have hleads : ∀ {name held}, Leads registry els name held → rank held < rank name := by
    intro name held hleads
    cases hleads with
    | node hel hmark hholds =>
      obtain ⟨node, hnode, hnodeMark, rfl⟩ := hholds
      exact hnodes _ hel hmark node hnode hnodeMark
    | template hname hholds =>
      obtain ⟨node, hnode, hnodeMark, rfl⟩ := hholds
      exact htemplates _ (mem_of_lookup hname) node hnode hnodeMark
  have hpath : ∀ {name held}, Relation.TransGen (Leads registry els) name held →
      rank held < rank name := by
    intro name held hpath
    induction hpath with
    | single hstep => exact hleads hstep
    | tail _ hstep ih => exact (hleads hstep).trans ih
  intro name hcycle
  exact absurd (hpath hcycle) (Nat.lt_irrefl _)

end acyclic

/-- A forest resolves if no name leads back to itself, by what the forest holds and by what the
templates hold. -/
theorem exists_returns_of_acyclic {rules : Rules} {f : String → String}
    (hf : ∀ code, rules.compileScript code = .ok (f code)) (inHead : Bool) {els : List Element}
    {w : Workshop} (h : Acyclic w.registry (els ++ w.registry.map (·.2))) :
    ∃ r w', Returns (resolve rules inHead els) w r w' := by
  have hnests : Nests (Leads w.registry (els ++ w.registry.map (·.2))) els := by
    intro el hel hmark name hholds
    refine .node ?_ hmark hholds
    rw [Element.nodesOf_append]
    exact List.mem_append_left _ hel
  have hregistry : w.registry.Nests (Leads w.registry (els ++ w.registry.map (·.2))) := by
    constructor
    · intro name template hname held hheld
      exact .template hname hheld
    · intro name template hname el hel hmark held hholds
      have htemplate : template ∈ w.registry.map (·.2) := List.mem_map_of_mem (mem_of_lookup hname)
      refine .node ?_ hmark hholds
      rw [Element.nodesOf_append]
      exact List.mem_append_right _ (Element.nodesOf_children_subset htemplate hel)
  have hends : ∀ name,
      EndsBelow rules inHead (Leads w.registry (els ++ w.registry.map (·.2))) name :=
    endsBelow_of_wellFounded hf (wellFounded_leads h)
  obtain ⟨r, w', hruns, -⟩ := exists_resolves hf hnests (fun el _ _ => hends el.name) hregistry
  exact ⟨r, w', returns_resolve_iff.mpr hruns⟩

/-- A card holds the definition of a badge; the forest uses the card before it uses the badge. -/
theorem exists_returns_card :
    let badge : Element := { tag := "badge", attributes := [("@", none)] }
    let use : Element := { tag := "card", attributes := [("@", none)] }
    let w : Workshop := { registry := [("card", { tag := "div", children := [badge] })] }
    Acyclic w.registry ([use, badge] ++ w.registry.map (·.2)) ∧
      ∃ r w', Returns (resolve { compileScript := .ok } false [use, badge]) w r w' := by
  intro badge use w
  have hacyclic : Acyclic w.registry ([use, badge] ++ w.registry.map (·.2)) :=
    acyclic_of_rank (fun name => if name = "card" then 1 else 0) (by decide) (by decide)
  have hf : ∀ code, Rules.compileScript { compileScript := .ok } code = .ok (id code) :=
    fun _ => rfl
  exact ⟨hacyclic, exists_returns_of_acyclic hf false hacyclic⟩

/-- A template that defines a badge which holds itself: the names lead to no cycle as long as only
the forest and the templates of known names count. -/
theorem not_returns_badge_in_badge : ¬ ∀ (rules : Rules) (f : String → String) inHead els w,
    w.registry.Built → (∀ code, rules.compileScript code = .ok (f code)) →
    Acyclic w.registry els → ∃ r w', Returns (resolve rules inHead els) w r w' := by
  intro h
  let badge : Element := { tag := "badge", attributes := [("@", none)] }
  let holder := badge.withChildren [badge]
  let use : Element := { tag := "card", attributes := [("@", none)] }
  let w : Workshop := { registry := [("card", { tag := "div", children := [holder] })] }
  have hbuilt : w.registry.Built :=
    Registry.Built.resolve (w := {}) { compileScript := .ok } false [use.withChildren [holder]]
      .empty
  have hacyclic : Acyclic w.registry [use, badge] :=
    acyclic_of_rank (fun name => if name = "card" then 1 else 0) (by decide) (by decide)
  obtain ⟨r, w', hreturns⟩ := h { compileScript := .ok } id false [use, badge] w hbuilt
    (fun _ => rfl) hacyclic
  have hruns := returns_resolve_iff.mp hreturns
  -- The copy of the card defines the badge, and the next use of the badge does not end.
  have hknown : (w.define holder).registry.lookup "badge" = some holder.template := rfl
  have hself : Reaches (w.define holder).registry "badge" [badge] := .here rfl rfl hknown
  cases hruns with
  | define _ hname _ => cases hname
  | copy _ hname hown hgiven hrest =>
    obtain rfl := Option.some.inj hname
    cases hgiven
    cases hown with
    | define _ _ hnil =>
      cases hnil
      exact hrest.not_reaches hknown hself hself
    | copy _ hname' _ _ _ => cases hname'
    | plain hmark _ _ _ => cases hmark
  | plain hmark _ _ _ => cases hmark

end Pagewright
