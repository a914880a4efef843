import Pagewright.Proofs.Outline.Indent
import Pagewright.Proofs.Page.Compilation

/-! The ways to write a text: a tab that leads a line may be four spaces, and a line may end with a
carriage return. A page does not depend on them. -/
namespace Pagewright

namespace Outline

/-- The same line with some of its tabs written as four spaces. Only tabs and full groups of four
spaces stand before such a tab. -/
inductive Reindented : List Char → List Char → Prop where
  | rest (line) : Reindented line line
  | tab {line line'} (h : Reindented line line') : Reindented ('\t' :: line) ('\t' :: line')
  | spread {line line'} (h : Reindented line line') :
      Reindented ('\t' :: line) (List.replicate 4 ' ' ++ line')
  | group {line line'} (h : Reindented line line') :
      Reindented (List.replicate 4 ' ' ++ line) (List.replicate 4 ' ' ++ line')

/-- The same text with some lines reindented, and with a carriage return before some line ends. -/
inductive Respelled : List Char → List Char → Prop where
  | last {line line'} (hline : '\n' ∉ line) (h : Reindented line line') : Respelled line line'
  | line {line line' cs cs'} (hline : '\n' ∉ line) (h : Reindented line line') {lineEnd}
      (hend : lineEnd = ['\n'] ∨ lineEnd = ['\r', '\n']) (hrest : Respelled cs cs') :
      Respelled (line ++ '\n' :: cs) (line' ++ lineEnd ++ cs')

namespace Reindented

variable {line line' : List Char}

theorem packIndent_eq (h : Reindented line line') :
    packIndent true line' = packIndent true line := by
  induction h with
  | rest => rfl
  | tab _ ih => exact congrArg ('\t' :: ·) ih
  | spread _ ih => exact congrArg ('\t' :: ·) ih
  | group _ ih => exact congrArg ('\t' :: ·) ih

theorem notMem (h : Reindented line line') {c : Char} (hblank : c ≠ ' ') (hc : c ∉ line) :
    c ∉ line' := by
  induction h with
  | rest => exact hc
  | tab _ ih =>
    rw [List.mem_cons, not_or] at hc ⊢
    exact ⟨hc.1, ih hc.2⟩
  | spread _ ih =>
    rw [List.mem_cons, not_or] at hc
    simp [hblank, ih hc.2]
  | group _ ih =>
    rw [List.mem_append, not_or] at hc ⊢
    exact ⟨hc.1, ih hc.2⟩

end Reindented

namespace Respelled

variable {cs cs' : List Char}

theorem packIndent_eq (h : Respelled cs cs') (hreturn : '\r' ∉ cs) :
    packIndent true (unifyLineEnds cs') = packIndent true cs := by
  induction h with
  | @last line line' _ h =>
    have hreturn' := h.notMem (by decide) hreturn
    rw [unifyLineEnds_of_notMem hreturn', h.packIndent_eq]
  | @line line line' cs cs' _ h lineEnd hend _ ih =>
    obtain ⟨hlineReturn, hcs⟩ : '\r' ∉ line ∧ '\r' ∉ cs := by simpa using hreturn
    have hreturn' := h.notMem (by decide) hlineReturn
    have hunified : unifyLineEnds (lineEnd ++ cs') = '\n' :: unifyLineEnds cs' := by
      rcases hend with rfl | rfl <;> rfl
    have hnext : ∀ more, packIndent true ('\n' :: more) = '\n' :: packIndent true more :=
      fun _ => rfl
    rw [List.append_assoc, unifyLineEnds_append hreturn', hunified,
      packIndent_append true (.inr ⟨_, rfl⟩), packIndent_append true (.inr ⟨_, rfl⟩),
      h.packIndent_eq, hnext, hnext, ih hcs]

theorem normalize_eq (h : Respelled cs cs') (hreturn : '\r' ∉ cs) :
    normalize cs' = normalize cs := by
  rw [normalize, normalize, h.packIndent_eq hreturn, unifyLineEnds_of_notMem hreturn]

theorem read_eq (h : Respelled cs cs') (hreturn : '\r' ∉ cs) (level start : Nat) :
    read cs' level start = read cs level start := by
  have hnormal := h.normalize_eq hreturn
  simp only [read, hnormal]

end Respelled

end Outline

section page

variable {source source' : String}

/-- However a text is written, it is the same outline and the same page. -/
theorem read_eq_and_answer_eq_of_respelled
    (h : Outline.Respelled source.toList source'.toList) (hreturn : '\r' ∉ source.toList) :
    (∀ level start, Outline.read source'.toList level start =
      Outline.read source.toList level start) ∧
    ∀ env options render tool, (compilePage env options render tool source').answer =
      (compilePage env options render tool source).answer := by
  have hread := h.read_eq hreturn
  refine ⟨hread, ?_⟩
  intro env options render tool
  have hdocument : readDocument (options.rules env tool) source' =
      readDocument (options.rules env tool) source := by
    rw [readDocument, readDocument, hread]
  rw [answer_compilePage, answer_compilePage, hdocument]

/-- A list with a text block: a tab is spread behind another one and behind a group of spaces. -/
theorem read_eq_and_answer_eq_list :
    let source := "ul\n\tli.\n\t\ta\n\t    \tb\n"
    let source' := "ul\r\n    li.\n\t    a\r\n\t        b\n"
    (∀ level start, Outline.read source'.toList level start =
      Outline.read source.toList level start) ∧
    ∀ env options render tool, (compilePage env options render tool source').answer =
      (compilePage env options render tool source).answer := by
  apply read_eq_and_answer_eq_of_respelled
  · change Outline.Respelled
      ("ul".toList ++ '\n' :: ('\t' :: "li.".toList ++ '\n' ::
        ('\t' :: '\t' :: "a".toList ++ '\n' ::
          ('\t' :: (List.replicate 4 ' ' ++ '\t' :: "b".toList) ++ '\n' :: []))))
      ("ul".toList ++ ['\r', '\n'] ++ (List.replicate 4 ' ' ++ "li.".toList ++ ['\n'] ++
        ('\t' :: (List.replicate 4 ' ' ++ "a".toList) ++ ['\r', '\n'] ++
          ('\t' :: (List.replicate 4 ' ' ++ (List.replicate 4 ' ' ++ "b".toList)) ++ ['\n'] ++
            []))))
    refine .line (by decide) (.rest _) (.inr rfl) ?_
    refine .line (by decide) (.spread (.rest _)) (.inl rfl) ?_
    refine .line (by decide) (.tab (.spread (.rest _))) (.inr rfl) ?_
    refine .line (by decide) (.tab (.group (.spread (.rest _)))) (.inl rfl) ?_
    exact .last (by decide) (.rest _)
  · decide

end page

end Pagewright
