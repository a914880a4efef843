import Pagewright.Html.Printer

/-! Printed text, line by line: what an element holds stands on lines of its own between its tags,
each of them one level deeper. -/
namespace Pagewright

namespace Text

theorem lines_unlines {parts : List (List Char)} (hne : parts ≠ [])
    (h : ∀ part ∈ parts, '\n' ∉ part) : lines (unlines parts) = parts := fields_joinWith hne h

/-- Texts one below the other have the lines of both. -/
theorem lines_unlines_pair {front back : List (List Char)} (hfront : front ≠ [])
    (hback : back ≠ []) (h : ∀ part ∈ front ++ back, '\n' ∉ part) :
    lines (unlines [unlines front, unlines back]) = front ++ back := by
  have hjoin : unlines [unlines front, unlines back] = unlines (front ++ back) :=
    (joinWith_append '\n' hfront hback).symm
  rw [hjoin, lines_unlines (by simp [hfront]) h]

end Text

/-- Lines between two others, each one level deeper than these. -/
def enclosed (first last : List Char) (lines : List (List Char)) : List (List Char) :=
  first :: lines.map ('\t' :: ·) ++ [last]

theorem enclosed_ne_nil (first last : List Char) (lines : List (List Char)) :
    enclosed first last lines ≠ [] := by simp [enclosed]

theorem newline_notMem_enclosed {first last : List Char} {lines : List (List Char)}
    (hfirst : '\n' ∉ first) (hlast : '\n' ∉ last) (hlines : ∀ line ∈ lines, '\n' ∉ line) :
    ∀ line ∈ enclosed first last lines, '\n' ∉ line := by
  unfold enclosed
  simpa [hfirst, hlast, or_imp, forall_and] using hlines

theorem indentLines_eq_unlines (cs : List Char) :
    indentLines cs = Text.unlines ((Text.lines cs).map ('\t' :: ·)) := by
  unfold indentLines Text.unlines Text.lines
  induction cs with
  | nil => rfl
  | cons c cs ih =>
    have hne := Text.fields_ne_nil '\n' cs
    rw [List.flatMap_cons, Text.fields]
    split
    · rw [List.map_cons, Text.joinWith_cons '\n' _ (by simpa using hne), ← ih]
      rfl
    · cases hcs : Text.fields '\n' cs with
      | nil => exact absurd hcs hne
      | cons part parts =>
        rw [hcs] at ih
        cases parts <;> simp_all [Text.joinWith]

theorem unlines_enclosed (first last cs : List Char) :
    Text.unlines (enclosed first last (Text.lines cs)) =
      first ++ '\n' :: (indentLines cs ++ '\n' :: last) := by
  have hne : (Text.lines cs).map ('\t' :: ·) ≠ [] := by
    rw [Ne, List.map_eq_nil_iff]
    exact Text.fields_ne_nil '\n' cs
  rw [indentLines_eq_unlines]
  unfold enclosed Text.unlines
  rw [List.cons_append, Text.joinWith_cons '\n' first (by simp),
    Text.joinWith_append '\n' hne (List.cons_ne_nil last [])]
  rfl

section print

variable {m : Type → Type} [Monad m] (render : String → m String) (el : Element)

theorem Element.print_eq : el.print render = (do
    let text ← el.printText render
    let content ← printLines render el.children
    let body := if el.children.isEmpty then []
      else '\n' :: indentLines (Text.unlines content) ++ ['\n']
    pure (el.openTag ++ text ++ body ++ if el.needsCloseTag then el.closeTag else [])) := by
  cases el
  rw [print]
  rfl

theorem Element.printText_of_none {el : Element} (htext : el.text? = none) :
    el.printText render = pure [] := by
  unfold printText
  rw [htext]

theorem Element.printText_of_raw {el : Element} {text : String} (hraw : el.isRaw = true)
    (htext : el.text? = some text) : el.printText render = pure text.toList := by
  unfold printText
  rw [htext]
  simp only [hraw, if_true]

variable [LawfulMonad m] {el : Element}

theorem Element.print_of_empty (htext : el.text? = none) (hchildren : el.children = []) :
    el.print render = pure (el.openTag ++ if el.needsCloseTag then el.closeTag else []) := by
  rw [print_eq, printText_of_none render htext, hchildren, printLines, pure_bind, pure_bind]
  simp

/-- What an element holds is printed as a forest and then moved right. -/
theorem Element.print_of_holds (hchildren : el.children ≠ []) :
    el.print render = (do
      let text ← el.printText render
      let content ← printForest render el.children
      pure (el.openTag ++ text ++ '\n' :: indentLines content.toList ++ '\n' :: el.closeTag)) := by
  have hclosed : el.needsCloseTag = true := by simp [needsCloseTag, hchildren]
  rw [print_eq, hclosed]
  unfold printForest
  simp [hchildren, Text.unlines]

/-- An element without text encloses the lines of what it holds. -/
theorem Element.print_of_children (htext : el.text? = none) (hchildren : el.children ≠ []) :
    el.print render = (do
      let content ← printForest render el.children
      pure (Text.unlines (enclosed el.openTag el.closeTag (Text.lines content.toList)))) := by
  rw [print_of_holds render hchildren, printText_of_none render htext, pure_bind]
  simp only [unlines_enclosed, List.append_nil, List.append_assoc, List.cons_append]

theorem Element.print_of_tag (tag : String) {children : List Element} (hchildren : children ≠ []) :
    print render { tag, children } = (do
      let content ← printForest render children
      pure (Text.unlines (enclosed ('<' :: tag.toList ++ ['>']) ('<' :: '/' :: tag.toList ++ ['>'])
        (Text.lines content.toList)))) := by
  have hopen : openTag { tag, children } = '<' :: tag.toList ++ ['>'] := by simp [openTag]
  have hclose : closeTag { tag, children } = '<' :: '/' :: tag.toList ++ ['>'] := rfl
  rw [print_of_children render rfl hchildren, hopen, hclose]

theorem printForest_singleton (el : Element) : printForest render [el] = (do
    let own ← el.print render
    pure (String.ofList own)) := by
  simp [printForest, printLines, Text.joinWith]

theorem printForest_pair (first second : Element) : printForest render [first, second] = (do
    let above ← first.print render
    let below ← second.print render
    pure (String.ofList (Text.unlines [above, below]))) := by
  simp [printForest, printLines, Text.unlines]

end print

end Pagewright
