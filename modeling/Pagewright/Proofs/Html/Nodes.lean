import Pagewright.Page.Component

/-! The nodes of a forest at every depth, in document order. -/
namespace Pagewright.Element

mutual

def nodes : Element → List Element
  | el@(.mk _ _ _ _ _ children _) => el :: nodesOf children

/-- Every node comes before the nodes below it. -/
def nodesOf : List Element → List Element
  | [] => []
  | el :: rest => el.nodes ++ nodesOf rest

end

/-- The same node over other children. -/
def withChildren (el : Element) (children : List Element) : Element := { el with children }

section withChildren

variable (el : Element) (children children' : List Element)

@[simp] theorem children_withChildren : (el.withChildren children).children = children := rfl

@[simp] theorem tag_withChildren : (el.withChildren children).tag = el.tag := rfl

@[simp] theorem isHeadOnly_withChildren :
    (el.withChildren children).isHeadOnly = el.isHeadOnly := rfl

@[simp] theorem withChildren_withChildren :
    (el.withChildren children).withChildren children' = el.withChildren children' := rfl

@[simp] theorem withChildren_children : el.withChildren el.children = el := by
  cases el
  rfl

end withChildren

/-- What holds of a forest if it holds of the children of the first element and of the rest. -/
@[elab_as_elim]
theorem forest_induction {motive : List Element → Prop} (els : List Element) (nil : motive [])
    (cons : ∀ el rest, motive el.children → motive rest → motive (el :: rest)) : motive els :=
  @Element.rec_1 (fun el => motive el.children) motive
    (fun _ _ _ _ _ _ _ hchildren => hchildren) nil cons els

theorem nodes_eq (el : Element) : el.nodes = el :: nodesOf el.children := by
  cases el
  rw [nodes]

@[simp] theorem nodesOf_nil : nodesOf [] = [] := by rw [nodesOf]

@[simp] theorem nodesOf_cons (el : Element) (rest : List Element) :
    nodesOf (el :: rest) = el :: (nodesOf el.children ++ nodesOf rest) := by
  rw [nodesOf, nodes_eq, List.cons_append]

@[simp] theorem nodesOf_append (front back : List Element) :
    nodesOf (front ++ back) = nodesOf front ++ nodesOf back := by
  induction front with
  | nil => simp
  | cons el rest ih => simp [ih]

theorem mem_nodesOf {el : Element} {els : List Element} (h : el ∈ els) : el ∈ nodesOf els := by
  obtain ⟨front, back, rfl⟩ := List.append_of_mem h
  simp

/-- What is below a node of a forest is in the forest. -/
theorem nodesOf_below_subset {el : Element} {els : List Element} (h : el ∈ nodesOf els) :
    nodesOf el.children ⊆ nodesOf els := by
  induction els using forest_induction with
  | nil => simp at h
  | cons first rest hchildren hrest =>
    rw [nodesOf_cons, List.mem_cons, List.mem_append] at h
    intro node hnode
    rw [nodesOf_cons, List.mem_cons, List.mem_append]
    rcases h with rfl | h | h
    · exact .inr (.inl hnode)
    · exact .inr (.inl (hchildren h hnode))
    · exact .inr (.inr (hrest h hnode))

theorem nodesOf_children_subset {el : Element} {els : List Element} (h : el ∈ els) :
    nodesOf el.children ⊆ nodesOf els := nodesOf_below_subset (mem_nodesOf h)

theorem height_eq (el : Element) : el.height = heightOf el.children + 1 := by
  cases el
  rw [height]

@[simp] theorem heightOf_cons (el : Element) (rest : List Element) :
    heightOf (el :: rest) = max (heightOf el.children + 1) (heightOf rest) := by
  rw [heightOf, height_eq]

theorem countMarkedIn_eq (els : List Element) :
    countMarkedIn els = (nodesOf els).countP isMarked := by
  induction els using forest_induction with
  | nil => simp [countMarkedIn]
  | cons el rest hchildren hrest =>
    have hel : el.countMarked = (if el.isMarked then 1 else 0) + countMarkedIn el.children := by
      cases el
      rw [countMarked]
    rw [countMarkedIn, hel, hchildren, hrest, nodesOf_cons, List.countP_cons, List.countP_append]
    omega

/-- No node carries the mark of a component. -/
def Unmarked (els : List Element) : Prop := ∀ el ∈ nodesOf els, el.isMarked = false

@[simp] theorem unmarked_nil : Unmarked [] := by simp [Unmarked]

@[simp] theorem unmarked_cons (el : Element) (rest : List Element) :
    Unmarked (el :: rest) ↔ el.isMarked = false ∧ Unmarked el.children ∧ Unmarked rest := by
  simp only [Unmarked, nodesOf_cons, List.mem_cons, List.mem_append, or_imp, forall_and, forall_eq]

@[simp] theorem unmarked_append (front back : List Element) :
    Unmarked (front ++ back) ↔ Unmarked front ∧ Unmarked back := by
  simp only [Unmarked, nodesOf_append, List.mem_append, or_imp, forall_and]

end Pagewright.Element
