import Pagewright.Proofs.Html.Lines
import Pagewright.Proofs.Html.Nodes

/-! Raw text on a page. The print of an element is moved right once for each element around it, and
the lines of its text with it, also where they are code. -/
namespace Pagewright

/-- Puts tabs behind every line end. -/
def hang (levels : Nat) (cs : List Char) : List Char :=
  cs.flatMap fun c => if c = '\n' then '\n' :: List.replicate levels '\t' else [c]

section hang

variable (levels : Nat) {cs : List Char}

@[simp] theorem hang_nil : hang levels [] = [] := rfl

theorem hang_cons (c : Char) (cs : List Char) : hang levels (c :: cs) =
    (if c = '\n' then '\n' :: List.replicate levels '\t' else [c]) ++ hang levels cs :=
  List.flatMap_cons

theorem hang_append (front back : List Char) :
    hang levels (front ++ back) = hang levels front ++ hang levels back := List.flatMap_append

theorem hang_eq_self (h : '\n' ∉ cs) : hang levels cs = cs := by
  induction cs with
  | nil => rfl
  | cons c cs ih =>
    rw [List.mem_cons, not_or] at h
    rw [hang_cons, if_neg (Ne.symm h.1), ih h.2]
    rfl

theorem hang_zero (cs : List Char) : hang 0 cs = cs := by
  induction cs with
  | nil => rfl
  | cons c cs ih =>
    rw [hang_cons, ih]
    split
    next heq => rw [heq]; rfl
    next => rfl

theorem hang_hang (more : Nat) (cs : List Char) :
    hang more (hang levels cs) = hang (levels + more) cs := by
  induction cs with
  | nil => rfl
  | cons c cs ih =>
    rw [hang_cons, hang_append, ih, hang_cons]
    congr 1
    split
    · have htabs : '\n' ∉ List.replicate levels '\t' := by simp
      rw [hang_cons, if_pos rfl, hang_eq_self more htabs, List.cons_append,
        List.replicate_append_replicate, Nat.add_comm]
    next hne => rw [hang_cons, if_neg hne]; rfl

theorem indentLines_eq_hang (cs : List Char) : indentLines cs = '\t' :: hang 1 cs := rfl

end hang

/-- A place in a forest, at its top or below one of its elements. -/
inductive Place where
  | top (elder younger : List Element)
  | inside (elder : List Element) (parent : Element) (inner : Place) (younger : List Element)

namespace Place

/-- The forest with an element in this place. -/
def fill (el : Element) : Place → List Element
  | top elder younger => elder ++ el :: younger
  | inside elder parent inner younger => elder ++ parent.withChildren (inner.fill el) :: younger

def depth : Place → Nat
  | top _ _ => 0
  | inside _ _ inner _ => inner.depth + 1

section print

variable {m : Type → Type} [Monad m] (render : String → m String)

/-- What is printed in front of a place. -/
def front : Place → m (List Char)
  | top elder _ => do
    let above ← printLines render elder
    pure (above.flatMap (· ++ ['\n']))
  | inside elder parent inner _ => do
    let above ← printLines render elder
    let text ← parent.printText render
    let own ← inner.front
    pure (above.flatMap (· ++ ['\n']) ++ (parent.openTag ++ text ++ '\n' :: '\t' :: hang 1 own))

/-- What is printed behind a place. -/
def back : Place → m (List Char)
  | top _ younger => do
    let after ← printLines render younger
    pure (after.flatMap ('\n' :: ·))
  | inside _ parent inner younger => do
    let own ← inner.back
    let after ← printLines render younger
    pure (hang 1 own ++ '\n' :: parent.closeTag ++ after.flatMap ('\n' :: ·))

end print

theorem fill_ne_nil (place : Place) (el : Element) : place.fill el ≠ [] := by
  cases place <;> simp [fill]

/-- Every node of a forest stands in some place. -/
theorem exists_fill {el : Element} {els : List Element} (h : el ∈ Element.nodesOf els) :
    ∃ place : Place, place.fill el = els := by
  induction els using Element.forest_induction with
  | nil => simp at h
  | cons first rest hchildren hrest =>
    rw [Element.nodesOf_cons, List.mem_cons, List.mem_append] at h
    rcases h with rfl | h | h
    · exact ⟨top [] rest, rfl⟩
    · obtain ⟨inner, hinner⟩ := hchildren h
      refine ⟨inside [] first inner rest, ?_⟩
      rw [fill, hinner, Element.withChildren_children, List.nil_append]
    · obtain ⟨place, rfl⟩ := hrest h
      cases place with
      | top elder younger => exact ⟨top (first :: elder) younger, rfl⟩
      | inside elder parent inner younger =>
        exact ⟨inside (first :: elder) parent inner younger, rfl⟩

end Place

section print

variable {m : Type → Type} [Monad m] [LawfulMonad m] (render : String → m String)

theorem printLines_append (elder younger : List Element) :
    printLines render (elder ++ younger) = (do
      let above ← printLines render elder
      let after ← printLines render younger
      pure (above ++ after)) := by
  induction elder with
  | nil => simp [printLines]
  | cons el elder ih => simp [printLines, ih]

theorem Text.joinWith_middle (sep : Char) (above after : List (List Char)) (own : List Char) :
    joinWith sep (above ++ own :: after) =
      above.flatMap (· ++ [sep]) ++ own ++ after.flatMap (sep :: ·) := by
  induction above with
  | nil =>
    induction after generalizing own with
    | nil => simp [joinWith]
    | cons next after ih => simp_all [joinWith]
  | cons part above ih =>
    rw [List.cons_append, joinWith_cons sep part (by simp), ih]
    simp

theorem printForest_middle (elder younger : List Element) (el : Element) :
    printForest render (elder ++ el :: younger) = (do
      let above ← printLines render elder
      let own ← el.print render
      let after ← printLines render younger
      pure (String.ofList
        (above.flatMap (· ++ ['\n']) ++ own ++ after.flatMap ('\n' :: ·)))) := by
  unfold printForest
  simp [printLines_append, printLines, Text.joinWith_middle]

/-- An element is printed in its place as it is alone, moved right once for each level. -/
theorem printForest_fill (place : Place) (el : Element) :
    printForest render (place.fill el) = (do
      let front ← place.front render
      let own ← el.print render
      let back ← place.back render
      pure (String.ofList (front ++ hang place.depth own ++ back))) := by
  induction place with
  | top elder younger =>
    rw [Place.fill, printForest_middle]
    simp [Place.front, Place.back, Place.depth, hang_zero]
  | inside elder parent inner younger ih =>
    have hlabel : ∀ children, (parent.withChildren children).printText render =
        parent.printText render ∧ (parent.withChildren children).openTag = parent.openTag ∧
        (parent.withChildren children).closeTag = parent.closeTag := fun _ => ⟨rfl, rfl, rfl⟩
    have hholds : (parent.withChildren (inner.fill el)).children ≠ [] := inner.fill_ne_nil el
    have hparent := Element.print_of_holds render hholds
    rw [Element.children_withChildren, ih] at hparent
    rw [Place.fill, printForest_middle, hparent]
    simp only [Place.front, Place.back, Place.depth, hlabel, indentLines_eq_hang, bind_assoc,
      pure_bind, String.toList_ofList, hang_append, hang_hang, List.append_assoc, List.cons_append]

end print

namespace Element

/-- What stands behind the text of an element: its closing tag, or the line end before its
first child. -/
def closing (el : Element) : List Char := if el.children.isEmpty then el.closeTag else ['\n']

/-- An element with raw text holds it as it is, up to the closing. -/
theorem print_of_raw {m : Type → Type} [Monad m] [LawfulMonad m] (render : String → m String)
    {el : Element} {text : String} (hraw : el.isRaw = true) (htext : el.text? = some text) :
    el.print render = (do
      let content ← printForest render el.children
      pure (el.openTag ++ text.toList ++ el.closing ++ if el.children.isEmpty then []
        else '\t' :: hang 1 content.toList ++ '\n' :: el.closeTag)) := by
  have hclosed : el.needsCloseTag = true := by simp [needsCloseTag, htext]
  rw [print_eq, printText_of_raw render hraw htext, hclosed]
  unfold printForest closing
  cases hchildren : el.children.isEmpty with
  | true => simp [List.isEmpty_iff.mp hchildren, printLines]
  | false => simp [indentLines_eq_hang, Text.unlines]

end Element

/-- The page goes on with the text as it is and then with the closing. -/
def IsVerbatim (page front text closing : List Char) : Prop := front ++ text ++ closing <+: page

instance (page front text closing : List Char) : Decidable (IsVerbatim page front text closing) :=
  inferInstanceAs (Decidable (_ <+: _))

section verbatim

variable {c : Char} {levels : Nat} {text closing tail rest : List Char}

/-- Behind a line end the tabs of a deeper place are too many, whatever text follows. -/
theorem append_ne_tabs_hang (hc : c ≠ '\t') (text : List Char) :
    text ++ (c :: closing) ++ tail ≠ List.replicate (levels + 1) '\t' ++ (hang (levels + 1) text ++
      hang (levels + 1) (c :: closing) ++ rest) := by
  induction text with
  | nil =>
    intro heq
    exact hc (List.cons.inj heq).1
  | cons a text ih =>
    intro heq
    rw [List.replicate_succ] at heq
    obtain ⟨rfl, heq⟩ := List.cons.inj heq
    have hmove : List.replicate levels '\t' ++ (hang (levels + 1) ('\t' :: text) ++
        hang (levels + 1) (c :: closing) ++ rest) = List.replicate (levels + 1) '\t' ++
          (hang (levels + 1) text ++ hang (levels + 1) (c :: closing) ++ rest) := by
      rw [hang_cons, if_neg (by decide), List.replicate_succ']
      simp
    exact ih (heq.trans hmove)

theorem append_ne_hang (hc : c ≠ '\t') (h : '\n' ∈ text) :
    text ++ (c :: closing) ++ tail ≠
      hang (levels + 1) text ++ hang (levels + 1) (c :: closing) ++ rest := by
  induction text with
  | nil => cases h
  | cons a text ih =>
    intro heq
    rw [hang_cons] at heq
    by_cases ha : a = '\n'
    · rw [if_pos ha] at heq
      have htail : text ++ (c :: closing) ++ tail = List.replicate (levels + 1) '\t' ++
          hang (levels + 1) text ++ hang (levels + 1) (c :: closing) ++ rest :=
        (List.cons.inj heq).2
      rw [List.append_assoc (List.replicate _ _), List.append_assoc (List.replicate _ _)] at htail
      exact append_ne_tabs_hang hc text htail
    · rw [if_neg ha] at heq
      have hmem : '\n' ∈ text := by simpa [Ne.symm ha] using h
      exact ih hmem (List.cons.inj heq).2

variable {el : Element}

theorem exists_closing_eq (el : Element) : ∃ c closing, el.closing = c :: closing ∧ c ≠ '\t' := by
  unfold Element.closing
  split
  · exact ⟨'<', _, rfl, by decide⟩
  · exact ⟨'\n', [], rfl, by decide⟩

/-- A deeper place adds nothing but tabs behind the closing. -/
theorem exists_hang_closing (hraw : el.isRaw = true) (levels : Nat) :
    ∃ more, hang levels el.closing = el.closing ++ more := by
  unfold Element.closing
  split
  · have htag : '\n' ∉ el.closeTag := by
      simp only [Element.isRaw, List.contains_eq_mem, List.mem_cons, List.not_mem_nil, or_false,
        decide_eq_true_eq] at hraw
      unfold Element.closeTag
      rcases hraw with htag | htag | htag <;> rw [htag] <;> decide
    exact ⟨[], by rw [hang_eq_self levels htag, List.append_nil]⟩
  · exact ⟨List.replicate levels '\t', by simp [hang_cons]⟩

section run

variable {σ : Type} (render : String → StateM σ String) (st : σ)

theorem exists_run_eq {α β γ δ : Type} (x : StateM σ α) (y : StateM σ β) (z : StateM σ γ)
    (f : α → β → γ → δ) : ∃ b c, ((do
      let a ← x
      let b ← y
      let c ← z
      pure (f a b c)).run st).1 = f (x.run st).1 b c := ⟨_, _, rfl⟩

/-- Where the text of a raw element stands on the page, and what has become of it. -/
theorem exists_page_eq {text : String} (hraw : el.isRaw = true) (htext : el.text? = some text)
    (place : Place) : ∃ rest, ((printForest render (place.fill el)).run st).1.toList =
      ((place.front render).run st).1 ++ hang place.depth el.openTag ++
        (hang place.depth text.toList ++ hang place.depth el.closing ++ rest) := by
  have hpage := printForest_fill render place el
  rw [Element.print_of_raw render hraw htext] at hpage
  simp only [bind_assoc, pure_bind, hang_append] at hpage
  obtain ⟨content, back, hrun⟩ := exists_run_eq st (place.front render)
    (printForest render el.children) (place.back render) _
  refine ⟨hang place.depth (if el.children.isEmpty then []
    else '\t' :: hang 1 content.toList ++ '\n' :: el.closeTag) ++ back, ?_⟩
  rw [hpage, hrun, String.toList_ofList]
  simp only [List.append_assoc]

/-- Every element with raw text has a place, and the page holds its text as it is behind its
opening tag exactly if this place is at the top or the text has no line end. -/
theorem isVerbatim_iff {els : List Element} {text : String} (hel : el ∈ Element.nodesOf els)
    (hraw : el.isRaw = true) (htext : el.text? = some text) :
    (∃ place : Place, place.fill el = els) ∧ ∀ place : Place, place.fill el = els →
      (IsVerbatim ((printForest render els).run st).1.toList
          (((place.front render).run st).1 ++ hang place.depth el.openTag) text.toList el.closing ↔
        place.depth = 0 ∨ '\n' ∉ text.toList) := by
  refine ⟨Place.exists_fill hel, ?_⟩
  rintro place rfl
  obtain ⟨rest, hpage⟩ := exists_page_eq render st hraw htext place
  unfold IsVerbatim
  rw [hpage, List.append_assoc, List.prefix_append_right_inj]
  constructor
  · rintro ⟨tail, heq⟩
    by_cases hdepth : place.depth = 0
    · exact .inl hdepth
    · obtain ⟨levels, hlevels⟩ := Nat.exists_eq_succ_of_ne_zero hdepth
      obtain ⟨c, closing, hclosing, hc⟩ := exists_closing_eq el
      rw [hlevels, hclosing] at heq
      exact .inr fun hline => append_ne_hang hc hline heq
  · rintro (hdepth | hline)
    · rw [hdepth, hang_zero, hang_zero]
      exact List.prefix_append _ _
    · obtain ⟨more, hmore⟩ := exists_hang_closing hraw place.depth
      rw [hang_eq_self _ hline, hmore]
      exact ⟨more ++ rest, by simp⟩

end run

/-- A style sheet of two lines at the top, behind an element that holds a script. -/
theorem isVerbatim_sheet :
    let box : Element := { tag := "div", children := [{ tag := "script", text := some "x" }] }
    let sheet : Element := { tag := "style", text := some "a\nb" }
    let render : String → StateM Unit String := pure
    sheet ∈ Element.nodesOf [box, sheet] ∧ sheet.isRaw = true ∧ sheet.text? = some "a\nb" ∧
      IsVerbatim ((printForest render [box, sheet]).run ()).1.toList
        ((((Place.top [box] []).front render).run ()).1 ++ sheet.openTag) "a\nb".toList
        sheet.closing := by
  intro box sheet render
  have hmem : sheet ∈ Element.nodesOf [box, sheet] := by simp
  obtain ⟨-, hplace⟩ := isVerbatim_iff render () hmem rfl rfl
  have hpage := (hplace (.top [box] []) rfl).mpr (.inl rfl)
  rw [Place.depth, hang_zero] at hpage
  exact ⟨hmem, rfl, rfl, hpage⟩

/-- A script of two lines in another element gets a tab in front of its second line. -/
theorem not_isVerbatim_script : ¬ ∀ (render : String → StateM Unit String) (els : List Element)
    (el : Element) (text : String) (place : Place), place.fill el = els → el.isRaw = true →
      el.text? = some text →
        IsVerbatim ((printForest render els).run ()).1.toList
          (((place.front render).run ()).1 ++ hang place.depth el.openTag) text.toList
          el.closing := by
  intro h
  have hpage := h pure [{ tag := "div", children := [{ tag := "script", text := some "a\nb" }] }]
    { tag := "script", text := some "a\nb" } "a\nb" (.inside [] { tag := "div" } (.top [] []) [])
    rfl rfl rfl
  exact absurd hpage (by decide +kernel)

end verbatim

end Pagewright
