import Pagewright.Proofs.Html.Nodes
import Pagewright.Proofs.Outline.Deeper

/-! The nodes of a forest that was read are the elements of its headings, in the order in which the
sweep meets them and each at the level of its heading. -/
namespace Pagewright

namespace Element

mutual

def nodesAt (level : Nat) : Element → List (Nat × Element)
  | el@(.mk _ _ _ _ _ children _) => (level, el) :: nodesFrom (level + 1) children

/-- The nodes of a forest in document order, each with its level. -/
def nodesFrom (level : Nat) : List Element → List (Nat × Element)
  | [] => []
  | el :: rest => nodesAt level el ++ nodesFrom level rest

end

variable {level : Nat}

theorem nodesAt_eq (level : Nat) (el : Element) :
    nodesAt level el = (level, el) :: nodesFrom (level + 1) el.children := by
  cases el
  rw [nodesAt]

@[simp] theorem nodesFrom_nil (level : Nat) : nodesFrom level [] = [] := by rw [nodesFrom]

theorem nodesFrom_cons (level : Nat) (el : Element) (rest : List Element) :
    nodesFrom level (el :: rest) =
      (level, el) :: (nodesFrom (level + 1) el.children ++ nodesFrom level rest) := by
  rw [nodesFrom, nodesAt_eq, List.cons_append]

theorem nodesFrom_append (level : Nat) (front back : List Element) :
    nodesFrom level (front ++ back) = nodesFrom level front ++ nodesFrom level back := by
  induction front with
  | nil => simp
  | cons el rest ih => simp [nodesFrom_cons, ih]

/-- Without their levels, these are the nodes of the forest. -/
theorem map_nodesFrom (level : Nat) (els : List Element) :
    (nodesFrom level els).map (·.2) = nodesOf els := by
  induction els using forest_induction generalizing level with
  | nil => simp
  | cons el rest hchildren hrest =>
    rw [nodesFrom_cons, nodesOf_cons, List.map_cons, List.map_append, hchildren, hrest]

end Element

namespace Outline

open Element

/-- The last branch of a forest goes down far enough for an element at this depth. -/
def Attachable : (depth : Nat) → List Element → Prop
  | 0, _ => True
  | depth + 1, els => ∃ last, els.getLast? = some last ∧ Attachable depth last.children

/-- A node as it is read, before there is anything below it. -/
def bare (node : Nat × Element) : Nat × Element := (node.1, node.2.withChildren [])

section attach

variable {depth depth' : Nat} {el : Element} {els : List Element}

theorem Attachable.mono (h : Attachable depth els) (hle : depth' ≤ depth) :
    Attachable depth' els := by
  induction depth' generalizing depth els with
  | zero => exact trivial
  | succ depth' ih =>
    obtain ⟨depth, rfl⟩ : ∃ d, depth = d + 1 := ⟨depth - 1, by omega⟩
    obtain ⟨last, hlast, hbelow⟩ := h
    exact ⟨last, hlast, ih hbelow (by omega)⟩

/-- Below the element that was attached, there is room for another. -/
theorem Attachable.attach (h : Attachable depth els) (el : Element) :
    Attachable (depth + 1) (attach el depth els) := by
  induction depth generalizing els with
  | zero => exact ⟨el, List.getLast?_concat, trivial⟩
  | succ depth ih =>
    obtain ⟨last, hlast, hbelow⟩ := h
    unfold Outline.attach
    rw [hlast]
    exact ⟨_, List.getLast?_concat, ih hbelow⟩

/-- An element that is attached comes after all nodes that were there. -/
theorem nodesFrom_attach (h : Attachable depth els) (hleaf : el.children = []) (level : Nat) :
    (nodesFrom level (attach el depth els)).map bare =
      (nodesFrom level els).map bare ++ [(level + depth, el)] := by
  induction depth generalizing level els with
  | zero =>
    have hbare : bare (level, el) = (level, el) := by
      have hsame := el.withChildren_children
      rw [hleaf] at hsame
      unfold bare
      rw [hsame]
    unfold attach
    simp only [nodesFrom_append, nodesFrom_cons, hleaf, nodesFrom_nil, List.map_append,
      List.map_cons, List.map_nil, hbare, Nat.add_zero, List.append_nil]
  | succ depth ih =>
    obtain ⟨last, hlast, hbelow⟩ := h
    obtain ⟨front, rfl⟩ := List.getLast?_eq_some_iff.mp hlast
    have hinner := ih hbelow (level + 1)
    have hlevel : level + 1 + depth = level + (depth + 1) := by omega
    unfold attach
    rw [hlast, List.dropLast_concat]
    simp only [nodesFrom_append, nodesFrom_cons, nodesFrom_nil, List.map_append, List.map_cons,
      List.append_nil, hinner, hlevel, List.append_assoc, List.cons_append]
    rfl

end attach

/-- The element that a heading begins, at the level of the heading. -/
def Heading.node? (h : Heading) : Option (Nat × Element) :=
  (h.line.readEntry h.column h.level).toOption.map fun entry => (h.level, entry.element)

theorem Heading.node?_of_readEntry {h : Heading} {entry : Entry}
    (hentry : h.line.readEntry h.column h.level = .ok entry) :
    h.node? = some (h.level, entry.element) := by
  unfold node?
  rw [hentry]
  rfl

section headings

variable {top limit : Nat} {forest els : List Element} {s t : Scanner}

theorem headings_of_end (hend : s.rest = []) : headings top limit s = [] := by
  rw [headings, dif_pos hend]

theorem headings_of_shallow {column : Nat} (hne : s.rest ≠ [])
    (hname : s.line.findIdx? isNameChar = some column) (hdepth : s.depth < top) :
    headings top limit s = [] := by
  rw [headings, dif_neg hne]
  split
  next heq => simp [hname] at heq
  next => rw [if_pos hdepth]

/-- A sweep adds the elements of its headings to the nodes of its forest, one after another. -/
theorem exists_nodesFrom_sweep (h : sweep top limit forest s = .ok (els, t)) (hlimit : top ≤ limit)
    (hforest : Attachable (limit - top) forest) :
    ∃ more, (nodesFrom top els).map bare = (nodesFrom top forest).map bare ++ more ∧
      (headings top limit s).map Heading.node? = more.map some := by
  fun_induction sweep top limit forest s with
  | case1 limit forest s hend =>
    cases h
    exact ⟨[], by simp, by simp [headings_of_end hend]⟩
  | case2 limit forest s hne hname ih =>
    rw [headings_of_no_name hne hname]
    exact ih h hlimit hforest
  | case3 limit forest s hne column hname hdepth =>
    cases h
    exact ⟨[], by simp, by simp [headings_of_shallow hne hname hdepth]⟩
  | case4 => cases h
  | case5 limit forest s hne column hname hdepth level entry hentry ih =>
    have htop : top ≤ level := by omega
    have hroom : Attachable (level - top) forest := hforest.mono (by omega)
    have hleaf := Scanner.readEntry_children hentry
    -- What follows a text block stands beside it, all else may stand below the element.
    have hnext : Attachable ((if entry.textBlock then level else level + 1) - top)
        (attach entry.element (level - top) forest) :=
      (hroom.attach entry.element).mono (by split <;> omega)
    obtain ⟨more, hmore, hheadings⟩ := ih h (by split <;> omega) hnext
    have hnode : Heading.node? ⟨s, column, level⟩ = some (level, entry.element) :=
      Heading.node?_of_readEntry hentry
    have hlevel : top + (level - top) = level := by omega
    refine ⟨(level, entry.element) :: more, ?_, ?_⟩
    · rw [hmore, nodesFrom_attach hroom hleaf, hlevel, List.append_assoc, List.singleton_append]
    · rw [headings_of_entry hne hname hdepth hentry, List.map_cons, List.map_cons, hnode]
      exact congrArg _ hheadings

end headings

/-- The headings of a text that is read from a place on. -/
def headingsOf (source : List Char) (level start : Nat) : List Heading :=
  headings level level ((Scanner.ofSource source).skip start)

theorem exists_sweep_of_read {source : List Char} {level start stop : Nat} {els : List Element}
    (h : read source level start = .ok (els, stop)) :
    ∃ t, sweep level level [] ((Scanner.ofSource source).skip start) = .ok (els, t) := by
  have hstart : { text := normalize source, pos := start } = (Scanner.ofSource source).skip start :=
    Scanner.ext rfl (Nat.zero_add start).symm
  rw [read_eq_sweep, hstart] at h
  cases hsweep : sweep level level [] ((Scanner.ofSource source).skip start) with
  | error e =>
    rw [hsweep] at h
    cases h
  | ok swept =>
    rw [hsweep] at h
    cases h
    exact ⟨swept.2, rfl⟩

theorem map_node?_headingsOf {source : List Char} {level start stop : Nat} {els : List Element}
    (h : read source level start = .ok (els, stop)) :
    (headingsOf source level start).map Heading.node? =
      (nodesFrom level els).map fun node => some (bare node) := by
  obtain ⟨t, hsweep⟩ := exists_sweep_of_read h
  have hroom : Attachable (level - level) [] := by
    rw [Nat.sub_self]
    trivial
  obtain ⟨more, hmore, hheadings⟩ := exists_nodesFrom_sweep hsweep (Nat.le_refl level) hroom
  rw [nodesFrom_nil, List.map_nil, List.nil_append] at hmore
  rw [headingsOf, hheadings, ← hmore, List.map_map]
  rfl

/-- The tag of an element is a name. -/
theorem tag_of_node? {h : Heading} {node : Nat × Element} (hnode : h.node? = some node) :
    ∀ c ∈ node.2.tag.toList, isNameChar c := by
  obtain ⟨entry, hentry, rfl⟩ := Option.map_eq_some_iff.mp hnode
  cases hread : h.line.readEntry h.column h.level with
  | error e =>
    rw [hread] at hentry
    cases hentry
  | ok read =>
    rw [hread] at hentry
    cases hentry
    obtain ⟨span, s', -, rfl⟩ := Scanner.readEntry_eq_ok hread
    intro c hc
    have hmem : c ∈ (h.line.skip h.column).rest.takeWhile isNameChar := by
      simpa [Entry.ofSpan, Scanner.takeWhile] using hc
    exact List.mem_takeWhile_imp hmem

theorem tag_of_read {source : List Char} {level start stop : Nat} {els : List Element}
    (h : read source level start = .ok (els, stop)) {node : Element} (hnode : node ∈ nodesOf els) :
    ∀ c ∈ node.tag.toList, isNameChar c := by
  rw [← map_nodesFrom level els] at hnode
  obtain ⟨found, hfound, rfl⟩ := List.mem_map.mp hnode
  have hmem : some (bare found) ∈ (headingsOf source level start).map Heading.node? := by
    rw [map_node?_headingsOf h]
    exact List.mem_map_of_mem hfound
  obtain ⟨heading, -, hheading⟩ := List.mem_map.mp hmem
  have htag := tag_of_node? hheading
  exact htag

end Outline

end Pagewright
