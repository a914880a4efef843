import Mathlib.Data.List.Infix
import Pagewright.Proofs.Outline.TextBlock

/-! Texts that normalizing leaves as they are, but for the end of their last line. -/
namespace Pagewright.Outline

/-- No four blanks in a row lead the line. -/
def KeepsIndent (line : List Char) : Prop :=
  ¬ List.replicate 4 ' ' <:+: line.takeWhile isIndent

instance (line : List Char) : Decidable (KeepsIndent line) := inferInstanceAs (Decidable (¬ _))

section normalize

variable {line tail cs front back : List Char} {lines : List (List Char)}

/-- Texts are unified one by one if they are not cut between a carriage return and a line end. -/
theorem unifyLineEnds_append_of_getLast (h : front.getLast? = some '\r' → back.head? ≠ some '\n') :
    unifyLineEnds (front ++ back) = unifyLineEnds front ++ unifyLineEnds back := by
  fun_induction unifyLineEnds front with
  | case1 => rfl
  | case2 front ih =>
    refine congrArg ('\n' :: ·) (ih fun hlast => h ?_)
    rw [List.getLast?_cons, List.getLast?_cons, hlast]
    rfl
  | case3 c front hpair ih =>
    have hlast : unifyLineEnds (front ++ back) = unifyLineEnds front ++ unifyLineEnds back :=
      ih fun hlast => h (by rw [List.getLast?_cons, hlast]; rfl)
    rw [List.cons_append, unifyLineEnds, hlast, List.cons_append]
    rintro more rfl hmore
    cases front with
    | nil => exact h rfl (by rw [List.nil_append] at hmore; rw [hmore]; rfl)
    | cons d front =>
      obtain ⟨rfl, -⟩ := List.cons.inj hmore
      exact hpair front rfl rfl

theorem unifyLineEnds_cons {c : Char} (h : c ≠ '\r') (cs : List Char) :
    unifyLineEnds (c :: cs) = c :: unifyLineEnds cs := by
  rw [unifyLineEnds]
  rintro more rfl
  exact absurd rfl h

theorem unifyLineEnds_eq_self (h : ¬ ['\r', '\n'] <:+: cs) : unifyLineEnds cs = cs := by
  fun_induction unifyLineEnds cs with
  | case1 => rfl
  | case2 cs _ => exact absurd (List.IsPrefix.isInfix ⟨cs, rfl⟩) h
  | case3 c cs _ ih => rw [ih fun hmore => h (List.infix_cons hmore)]

theorem unifyLineEnds_of_notMem (h : '\r' ∉ cs) : unifyLineEnds cs = cs := by
  apply unifyLineEnds_eq_self
  intro hpair
  exact h (hpair.subset (by simp))

theorem unifyLineEnds_append (h : '\r' ∉ line) (cs : List Char) :
    unifyLineEnds (line ++ cs) = line ++ unifyLineEnds cs := by
  have hlast : line.getLast? ≠ some '\r' := fun hlast => h (List.mem_of_getLast? hlast)
  rw [unifyLineEnds_append_of_getLast fun hreturn => absurd hreturn hlast, unifyLineEnds_of_notMem h]

theorem unifyLineEnds_append_of_endsLines (h : EndsLines front) (back : List Char) :
    unifyLineEnds (front ++ back) = unifyLineEnds front ++ unifyLineEnds back := by
  apply unifyLineEnds_append_of_getLast
  intro hreturn
  rcases h with rfl | hlast
  · cases hreturn
  · cases hlast.symm.trans hreturn

theorem unifyLineEnds_ne_nil (h : cs ≠ []) : unifyLineEnds cs ≠ [] := by
  unfold unifyLineEnds
  split <;> simp_all

theorem endsLines_unifyLineEnds (h : EndsLines cs) : EndsLines (unifyLineEnds cs) := by
  fun_induction unifyLineEnds cs with
  | case1 => exact h
  | case2 cs ih =>
    right
    rcases ih h.tail.tail with hnil | hlast
    · simp [hnil]
    · simp [List.getLast?_cons, hlast]
  | case3 c cs hpair ih =>
    right
    cases cs with
    | nil => simpa [EndsLines, unifyLineEnds] using h
    | cons d cs =>
      have hlast := (ih h.tail).resolve_left (unifyLineEnds_ne_nil (List.cons_ne_nil d cs))
      simp [List.getLast?_cons, hlast]

theorem count_unifyLineEnds (cs : List Char) : (unifyLineEnds cs).count '\n' = cs.count '\n' := by
  fun_induction unifyLineEnds cs with
  | case1 => rfl
  | case2 cs ih => simp [ih]
  | case3 c cs _ ih => simp [List.count_cons, ih]

theorem count_packIndent (leading : Bool) (cs : List Char) :
    (packIndent leading cs).count '\n' = cs.count '\n' := by
  fun_induction packIndent leading cs with
  | case1 => rfl
  | case2 cs ih => simp [ih]
  | case3 leading c cs _ ih => simp [List.count_cons, ih]

theorem newline_notMem_packIndent (leading : Bool) (h : '\n' ∉ line) :
    '\n' ∉ packIndent leading line := by
  rw [← List.count_eq_zero] at h ⊢
  rw [count_packIndent, h]

theorem packIndent_cons {c : Char} (leading : Bool) (hc : isIndent c = false) (hline : c ≠ '\n')
    (cs : List Char) : packIndent leading (c :: cs) = c :: packIndent false cs := by
  obtain ⟨hblank, htab⟩ : c ≠ ' ' ∧ c ≠ '\t' := by simpa [isIndent] using hc
  have hflag : (c == '\n' || (leading && (c == ' ' || c == '\t'))) = false := by
    simp [hline, hblank, htab]
  rw [packIndent, hflag]
  rintro more - rfl
  exact absurd rfl hblank

/-- What ends a line is packed by itself. -/
theorem packIndent_append (leading : Bool) (htail : tail = [] ∨ ∃ more, tail = '\n' :: more) :
    packIndent leading (front ++ tail) = packIndent leading front ++ packIndent true tail := by
  fun_induction packIndent leading front with
  | case1 leading =>
    rcases htail with rfl | ⟨more, rfl⟩
    · cases leading <;> rfl
    · cases leading <;> simp [packIndent]
  | case2 front ih => exact congrArg ('\t' :: ·) ih
  | case3 leading c front hgroup ih =>
    rw [List.cons_append, packIndent, ih, List.cons_append]
    rintro more rfl rfl hfour
    -- The tail begins with no blank, so that all four stand before it.
    obtain _ | ⟨a, _ | ⟨b, _ | ⟨d, more'⟩⟩⟩ := front
    case cons.cons.cons =>
      simp only [List.cons_append, List.cons.injEq] at hfour
      exact hgroup more' rfl rfl (by simp [hfour])
    all_goals rcases htail with rfl | ⟨next, rfl⟩ <;> simp at hfour

/-- The lines of a text are packed one by one. -/
theorem packIndent_closed_append (h : ∀ line ∈ lines, '\n' ∉ line) (cs : List Char) :
    packIndent true (closed lines ++ cs) =
      closed (lines.map (packIndent true)) ++ packIndent true cs := by
  induction lines with
  | nil => rfl
  | cons line lines ih =>
    obtain ⟨hline, hlines⟩ := List.forall_mem_cons.mp h
    have hnext : packIndent true ('\n' :: (closed lines ++ cs)) =
        '\n' :: packIndent true (closed lines ++ cs) := rfl
    rw [closed_cons, List.append_assoc, List.cons_append,
      packIndent_append true (.inr ⟨_, rfl⟩), hnext, ih hlines]
    simp

theorem packIndent_closed (h : ∀ line ∈ lines, '\n' ∉ line) :
    packIndent true (closed lines) = closed (lines.map (packIndent true)) := by
  have happend := packIndent_closed_append h []
  rwa [packIndent, List.append_nil, List.append_nil] at happend

theorem packIndent_append_of_endsLines (h : EndsLines front) (back : List Char) :
    packIndent true (front ++ back) = packIndent true front ++ packIndent true back := by
  obtain ⟨lines, rfl, hlines⟩ := h.exists_closed
  rw [packIndent_closed_append hlines, packIndent_closed hlines]

theorem packIndent_eq_self {leading : Bool} (hline : '\n' ∉ line)
    (hkeeps : leading → KeepsIndent line) : packIndent leading line = line := by
  fun_induction packIndent leading line with
  | case1 => rfl
  | case2 line ih =>
    refine absurd (List.IsPrefix.isInfix ⟨line.takeWhile isIndent, ?_⟩) (hkeeps rfl)
    simp [isIndent, List.replicate]
  | case3 leading c line hgroup ih =>
    obtain ⟨hc, hmore⟩ : c ≠ '\n' ∧ '\n' ∉ line := by simpa [eq_comm] using hline
    refine congrArg (c :: ·) (ih hmore ?_)
    intro h
    obtain ⟨hlead, hindent⟩ : leading ∧ isIndent c := by simpa [hc, isIndent] using h
    have hkeeps := hkeeps hlead
    rw [KeepsIndent, List.takeWhile_cons_of_pos hindent, List.infix_cons_iff, not_or] at hkeeps
    exact hkeeps.2

theorem packIndent_line {leading : Bool} (hline : '\n' ∉ line)
    (hkeeps : leading → KeepsIndent line) (htail : tail = [] ∨ ∃ more, tail = '\n' :: more) :
    packIndent leading (line ++ tail) = line ++ packIndent true tail := by
  rw [packIndent_append leading htail, packIndent_eq_self hline hkeeps]

theorem packIndent_closed_eq_self (h : ∀ line ∈ lines, '\n' ∉ line ∧ KeepsIndent line) :
    packIndent true (closed lines) = closed lines := by
  have hpack : ∀ line ∈ lines, packIndent true line = line := fun line hline =>
    packIndent_eq_self (h line hline).1 fun _ => (h line hline).2
  rw [packIndent_closed fun line hline => (h line hline).1, List.map_congr_left hpack, List.map_id']

theorem unlines_cons_cons (line next : List Char) (lines : List (List Char)) :
    Text.unlines (line :: next :: lines) = line ++ '\n' :: Text.unlines (next :: lines) := rfl

theorem packIndent_unlines (h : ∀ line ∈ lines, '\n' ∉ line ∧ KeepsIndent line) :
    packIndent true (Text.unlines lines) = Text.unlines lines := by
  induction lines with
  | nil => rfl
  | cons line lines ih =>
    obtain ⟨⟨hline, hkeeps⟩, hlines⟩ := List.forall_mem_cons.mp h
    have ih := ih hlines
    cases lines with
    | nil =>
      change packIndent true line = line
      rw [← List.append_nil line, packIndent_line hline (fun _ => hkeeps) (.inl rfl)]
      rfl
    | cons next lines =>
      have hnext : packIndent true ('\n' :: Text.unlines (next :: lines)) =
          '\n' :: packIndent true (Text.unlines (next :: lines)) := rfl
      rw [unlines_cons_cons, packIndent_line hline (fun _ => hkeeps) (.inr ⟨_, rfl⟩), hnext, ih]

theorem getLast?_unlines_ne (h : ∀ line ∈ lines, '\n' ∉ line ∧ line ≠ []) :
    (Text.unlines lines).getLast? ≠ some '\n' := by
  induction lines with
  | nil => simp [Text.unlines, Text.joinWith]
  | cons line lines ih =>
    obtain ⟨⟨hline, hne⟩, hlines⟩ := List.forall_mem_cons.mp h
    have ih := ih hlines
    cases lines with
    | nil => exact fun hlast => hline (List.mem_of_getLast? hlast)
    | cons next lines =>
      have hmore : Text.unlines (next :: lines) ≠ [] := by
        have := (hlines next (by simp)).2
        cases lines <;> simp [Text.unlines, Text.joinWith, this]
      rwa [unlines_cons_cons, List.append_cons, List.getLast?_append_of_ne_nil _ hmore]

theorem normalize_closed (hne : lines ≠ []) (hreturn : '\r' ∉ closed lines)
    (h : ∀ line ∈ lines, '\n' ∉ line ∧ KeepsIndent line) :
    normalize (closed lines) = closed lines := by
  rw [normalize, unifyLineEnds_of_notMem hreturn, packIndent_closed_eq_self h,
    closed_eq_unlines hne]
  exact if_pos List.getLast?_concat

theorem normalize_unlines (hne : lines ≠ []) (hreturn : '\r' ∉ Text.unlines lines)
    (h : ∀ line ∈ lines, '\n' ∉ line ∧ KeepsIndent line) (hlines : ∀ line ∈ lines, line ≠ []) :
    normalize (Text.unlines lines) = closed lines := by
  have hlast := getLast?_unlines_ne fun line hline => ⟨(h line hline).1, hlines line hline⟩
  rw [normalize, unifyLineEnds_of_notMem hreturn, packIndent_unlines h, closed_eq_unlines hne]
  exact if_neg hlast

/-- A text whose lines all have their ends needs no further one. -/
theorem normalize_of_endsLines (h : EndsLines cs) (hne : cs ≠ []) :
    normalize cs = packIndent true (unifyLineEnds cs) := by
  obtain ⟨lines, hunify, hlines⟩ := (endsLines_unifyLineEnds h).exists_closed
  have hpacked : lines.map (packIndent true) ≠ [] := by
    rw [ne_eq, List.map_eq_nil_iff]
    rintro rfl
    exact unifyLineEnds_ne_nil hne hunify
  rw [normalize, hunify, packIndent_closed hlines, closed_eq_unlines hpacked]
  exact if_pos List.getLast?_concat

theorem count_normalize (h : EndsLines cs) (hne : cs ≠ []) :
    (normalize cs).count '\n' = cs.count '\n' := by
  rw [normalize_of_endsLines h hne, count_packIndent, count_unifyLineEnds]

theorem endLine_append (h : back ≠ []) (front : List Char) :
    endLine (front ++ back) = front ++ endLine back := by
  unfold endLine
  rw [List.getLast?_append_of_ne_nil front h]
  split
  · rfl
  · exact List.append_assoc ..

/-- Texts are normalized one by one if the first one ends its lines. -/
theorem normalize_append (h : EndsLines front) (hne : front ≠ [])
    (hback : packIndent true (unifyLineEnds back) ≠ []) :
    normalize (front ++ back) = normalize front ++ normalize back := by
  rw [normalize_of_endsLines h hne, normalize, normalize, unifyLineEnds_append_of_endsLines h,
    packIndent_append_of_endsLines (endsLines_unifyLineEnds h), endLine_append hback]

end normalize

end Pagewright.Outline
