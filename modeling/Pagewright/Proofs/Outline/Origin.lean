import Pagewright.Proofs.Outline.LineReturn

/-! Where a place of a normalized text was in its source. Normalizing changes only what leads a line
and what ends it, so a place inside a line was on the same line before. -/
namespace Pagewright.Outline

section packed

variable {leading : Bool} {c : Char} {cs line : List Char}

/-- Blanks that are left at the front of a line stood there before. -/
theorem blanks_prefix_of_packIndent {n : Nat} (h : List.replicate n ' ' <+: packIndent true cs) :
    List.replicate n ' ' <+: cs := by
  induction n generalizing cs with
  | zero => exact List.nil_prefix
  | succ n ih =>
    obtain ⟨tail, htail⟩ := h
    rw [List.replicate_succ, List.cons_append] at htail
    unfold packIndent at htail
    split at htail
    next => cases htail
    next => cases htail
    next _ c cs' _ =>
      obtain ⟨rfl, hmore⟩ := List.cons.inj htail
      rw [List.replicate_succ, List.cons_prefix_cons]
      exact ⟨rfl, ih ⟨tail, hmore⟩⟩

theorem keepsIndent_packIndent (hline : '\n' ∉ line) (hleading : leading) :
    KeepsIndent (packIndent leading line) := by
  fun_induction packIndent leading line with
  | case1 => decide
  | case2 line ih =>
    have hmore : KeepsIndent (packIndent true line) := ih (by simpa using hline) rfl
    unfold KeepsIndent at hmore ⊢
    rw [List.takeWhile_cons_of_pos (by decide), List.infix_cons_iff, not_or]
    exact ⟨by simp [List.replicate], hmore⟩
  | case3 leading c line hgroup ih =>
    obtain ⟨hc, hmore⟩ : c ≠ '\n' ∧ '\n' ∉ line := by simpa [eq_comm] using hline
    unfold KeepsIndent
    by_cases hindent : isIndent c
    · have hflag : (c == '\n' || (leading && (c == ' ' || c == '\t'))) = true := by
        simpa [hc, hleading, isIndent] using hindent
      have hkeeps := ih hmore hflag
      rw [hflag] at hkeeps ⊢
      rw [List.takeWhile_cons_of_pos hindent, List.infix_cons_iff, not_or]
      refine ⟨?_, hkeeps⟩
      -- Four blanks in a row would have been packed.
      intro hfour
      obtain ⟨hblank, hthree⟩ : ' ' = c ∧ List.replicate 3 ' ' <+: _ := List.cons_prefix_cons.mp hfour
      have hbefore := blanks_prefix_of_packIndent (hthree.trans (List.takeWhile_prefix _))
      obtain ⟨tail, htail⟩ := hbefore
      exact hgroup tail hleading hblank.symm htail.symm
    · rw [List.takeWhile_cons_of_neg hindent]
      simp [List.replicate]

/-- Whole lines at the front of a normalized text are packed. -/
theorem exists_closed_of_normalize {source : List Char} {n : Nat}
    (h : EndsLines ((normalize source).take n)) :
    ∃ lines, (normalize source).take n = closed lines ∧
      ∀ line ∈ lines, '\n' ∉ line ∧ KeepsIndent line := by
  have hends : EndsLines (unifyLineEnds source ++ ['\n']) := .inr List.getLast?_concat
  obtain ⟨own, hown, hownLine⟩ := hends.exists_closed
  obtain ⟨lines, hlines, hline⟩ := h.exists_closed
  have hpacked : packIndent true (unifyLineEnds source) ++ ['\n'] =
      closed (own.map (packIndent true)) := by
    rw [← packIndent_closed hownLine, ← hown, packIndent_append true (.inr ⟨[], rfl⟩)]
    rfl
  have hprefix : normalize source <+: closed (own.map (packIndent true)) := by
    rw [← hpacked]
    unfold normalize endLine
    split
    · exact List.prefix_append ..
    · exact List.prefix_refl _
  obtain ⟨back, hback⟩ := (List.take_prefix n _).trans hprefix
  -- The lines of both texts are cut out at the same places.
  have hown' : ∀ line ∈ own.map (packIndent true), '\n' ∉ line := by
    rw [List.forall_mem_map]
    exact fun line hmem => newline_notMem_packIndent true (hownLine line hmem)
  have hsame := congrArg Text.lines hback
  rw [hlines, lines_closed_append hline, ← List.append_nil (closed (own.map _)),
    lines_closed_append hown'] at hsame
  refine ⟨lines, hlines, fun line hmem => ⟨hline line hmem, ?_⟩⟩
  have hmem' : line ∈ own.map (packIndent true) ++ Text.lines [] :=
    hsame ▸ List.mem_append_left _ hmem
  rcases List.mem_append.mp hmem' with hmem' | hmem'
  · obtain ⟨before, hbefore, rfl⟩ := List.mem_map.mp hmem'
    exact keepsIndent_packIndent (hownLine before hbefore) rfl
  · obtain rfl : line = [] := List.mem_singleton.mp hmem'
    decide

end packed

section origin

variable {leading : Bool} {c : Char} {cs source front' back' : List Char}

/-- A place of a source, and the offset that it has once the source is normalized. -/
structure Becomes (source front back : List Char) (offset : Nat) : Prop where
  source_eq : source = front ++ back
  before : packIndent true (unifyLineEnds front) = (normalize source).take offset
  behind : endLine (packIndent false (unifyLineEnds back)) = (normalize source).drop offset

theorem Becomes.count {front back : List Char} {offset : Nat}
    (h : Becomes source front back offset) :
    ((normalize source).take offset).count '\n' = front.count '\n' := by
  rw [← h.before, count_packIndent, count_unifyLineEnds]

/-- What a text is cut at was cut at before its lines were packed. -/
theorem exists_of_packIndent_eq (hc : isIndent c = false) (hline : c ≠ '\n')
    (h : packIndent leading cs = front' ++ c :: back') :
    ∃ front back, cs = front ++ c :: back ∧ packIndent leading front = front' ∧
      packIndent false (c :: back) = c :: back' := by
  fun_induction packIndent leading cs generalizing front' with
  | case1 => simp at h
  | case2 cs ih =>
    cases front' with
    | nil =>
      obtain ⟨rfl, -⟩ := List.cons.inj h
      exact absurd hc (by decide)
    | cons a front' =>
      obtain ⟨rfl, hmore⟩ := List.cons.inj h
      obtain ⟨front, back, rfl, rfl, hback⟩ := ih hmore
      exact ⟨' ' :: ' ' :: ' ' :: ' ' :: front, back, rfl, rfl, hback⟩
  | case3 leading a cs hgroup ih =>
    cases front' with
    | nil =>
      obtain ⟨rfl, hmore⟩ := List.cons.inj h
      refine ⟨[], cs, rfl, rfl, ?_⟩
      have hself := packIndent_cons leading hc hline cs
      rw [packIndent_cons false hc hline, ← hself, packIndent, hmore]
      exact hgroup
    | cons b front' =>
      obtain ⟨rfl, hmore⟩ := List.cons.inj h
      obtain ⟨front, back, rfl, rfl, hback⟩ := ih hmore
      refine ⟨a :: front, back, rfl, ?_, hback⟩
      rw [packIndent]
      rintro more hlead rfl rfl
      exact hgroup _ hlead rfl rfl

theorem exists_of_endLine_eq (hline : c ≠ '\n') (h : endLine cs = front' ++ c :: back') :
    ∃ back, cs = front' ++ c :: back ∧ endLine (c :: back) = c :: back' := by
  have hsplit : ∃ back, cs = front' ++ c :: back := by
    unfold endLine at h
    split at h
    next => exact ⟨back', h⟩
    next =>
      obtain rfl | ⟨back, last, rfl⟩ := List.eq_nil_or_concat' back'
      · obtain ⟨-, hlast⟩ := List.append_inj' h rfl
        exact absurd (List.singleton_inj.mp hlast).symm hline
      · rw [← List.cons_append, ← List.append_assoc] at h
        exact ⟨back, (List.append_inj' h rfl).1⟩
  obtain ⟨back, rfl⟩ := hsplit
  rw [endLine_append (List.cons_ne_nil c back)] at h
  exact ⟨back, rfl, List.append_cancel_left h⟩

/-- A character that leads no line and ends none was there before. -/
theorem exists_becomes {offset : Nat} (hc : isIndent c = false) (hline : c ≠ '\n')
    (hreturn : c ≠ '\r') (h : (normalize source).drop offset = c :: back') :
    ∃ front back, Becomes source front (c :: back) offset := by
  have hsplit : normalize source = (normalize source).take offset ++ c :: back' := by
    rw [← h, List.take_append_drop]
  obtain ⟨packed, hpacked, hended⟩ := exists_of_endLine_eq hline hsplit
  obtain ⟨front₁, back₁, hunified, hfront, hback⟩ := exists_of_packIndent_eq hc hline hpacked
  obtain ⟨front, back, rfl, rfl, rfl⟩ := exists_of_unifyLineEnds_eq hline hunified
  refine ⟨front, back, rfl, hfront, ?_⟩
  rw [unifyLineEnds_cons hreturn, hback, hended, h]

theorem takeWhile_packIndent {p : Char → Bool} (hline : p '\n' = false) (cs : List Char) :
    (packIndent false cs).takeWhile p = cs.takeWhile p := by
  induction cs with
  | nil => rfl
  | cons c cs ih =>
    rw [packIndent, List.takeWhile_cons, List.takeWhile_cons]
    · split
      next hc =>
        have hne : (c == '\n') = false := by
          rw [beq_eq_false_iff_ne]
          rintro rfl
          simp [hline] at hc
        rw [hne, Bool.false_and, Bool.or_false, ih]
      next => rfl
    · simp

theorem takeWhile_endLine {p : Char → Bool} (hline : p '\n' = false) (cs : List Char) :
    (endLine cs).takeWhile p = cs.takeWhile p := by
  unfold endLine
  split
  next => rfl
  next => exact takeWhile_append_of_nil (List.takeWhile_cons_of_neg (by simp [hline])) cs

/-- The rest of a line is kept, but for a return before its end. -/
theorem Becomes.takeWhile {front back : List Char} {offset : Nat} {p : Char → Bool}
    (h : Becomes source front back offset) (hreturn : p '\r' = false) (hline : p '\n' = false) :
    ((normalize source).drop offset).takeWhile p = back.takeWhile p := by
  rw [← h.behind, takeWhile_endLine hline, takeWhile_packIndent hline,
    takeWhile_unifyLineEnds hreturn hline]

/-- A run that stays on its line is on the line on which it was. -/
theorem Becomes.line_behind {front back : List Char} {offset : Nat} {p : Char → Bool}
    (h : Becomes source front back offset) (hreturn : p '\r' = false) (hline : p '\n' = false) :
    (Text.Position.ofOffset (normalize source) (offset + (back.takeWhile p).length)).line =
      front.count '\n' + 1 := by
  have hrun := h.takeWhile hreturn hline
  have htake : ((normalize source).drop offset).take (back.takeWhile p).length =
      back.takeWhile p := by
    rw [← hrun]
    exact (List.prefix_iff_eq_take.mp (List.takeWhile_prefix p)).symm
  have hnone : (back.takeWhile p).count '\n' = 0 := by
    rw [List.count_eq_zero]
    intro hmem
    have hpass := List.mem_takeWhile_imp hmem
    simp [hline] at hpass
  unfold Text.Position.ofOffset
  dsimp only
  rw [List.take_add, htake, List.count_append, h.count, hnone, Nat.add_zero]

end origin

end Pagewright.Outline
