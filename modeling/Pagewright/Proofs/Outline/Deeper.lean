import Pagewright.Proofs.Outline.Indent
import Pagewright.Proofs.Outline.Nesting
import Pagewright.Proofs.Outline.Sweep

/-! A fragment may be moved one level deeper: with one more tab before each of its lines it is read
as the same forest. The continued line of a modifier would get its tab into the modifier, so none
may go on. -/
namespace Pagewright.Outline

/-- A line with a name, and the level of the element that it begins. -/
structure Heading where
  line : Scanner
  column : Nat
  level : Nat

/-- The modifiers of a heading, and the place behind them. -/
def Heading.span? (h : Heading) : Option (List Char × Scanner) :=
  ((h.line.skip h.column).takeWhile isNameChar).2.takeSpan.toOption

/-- The modifiers end on their line, and a text block does not begin with a tab beside them. -/
def Heading.KeepsToLine (h : Heading) : Prop :=
  ∀ taken ∈ h.span?, '\n' ∉ taken.1 ∧
    ((Modifiers.ofSpan taken.1).textBlock → ∀ own ∈ taken.2.afterBlank, own.head? ≠ some '\t')

instance (h : Heading) : Decidable h.KeepsToLine :=
  inferInstanceAs (Decidable (∀ taken ∈ h.span?, _ ∧ (_ → ∀ own ∈ taken.2.afterBlank, _)))

/-- The headings that a sweep meets. -/
def headings (top limit : Nat) (s : Scanner) : List Heading :=
  if _hend : s.rest = [] then []
  else
    match _hname : s.line.findIdx? isNameChar with
    | none => headings top limit s.nextLine
    | some column =>
      if s.depth < top then []
      else
        let level := min s.depth limit
        ⟨s, column, level⟩ ::
          match _hentry : s.readEntry column level with
          | .error _ => []
          | .ok entry => headings top (if entry.textBlock then level else level + 1) entry.next
termination_by s.rest.length
decreasing_by
  · exact Scanner.rest_nextLine_lt _hend
  · exact Scanner.rest_readEntry_lt _hname _hentry

section headings

variable {top limit : Nat} {forest els : List Element} {s t : Scanner}

theorem headings_of_no_name (hne : s.rest ≠ []) (hname : s.line.findIdx? isNameChar = none) :
    headings top limit s = headings top limit s.nextLine := by
  rw [headings, dif_neg hne]
  split
  next => rfl
  next heq => simp [hname] at heq

theorem headings_of_entry {column : Nat} {entry : Entry} (hne : s.rest ≠ [])
    (hname : s.line.findIdx? isNameChar = some column) (hdepth : ¬ s.depth < top)
    (hentry : s.readEntry column (min s.depth limit) = .ok entry) :
    headings top limit s = ⟨s, column, min s.depth limit⟩ ::
      headings top (if entry.textBlock then min s.depth limit else min s.depth limit + 1)
        entry.next := by
  rw [headings, dif_neg hne]
  split
  next heq => simp [hname] at heq
  next column' heq =>
    obtain rfl : column = column' := Option.some.inj (hname.symm.trans heq)
    rw [if_neg hdepth]
    dsimp only
    split
    next e heq => simp [hentry] at heq
    next entry' heq =>
      obtain rfl : entry = entry' := Except.ok.inj (hentry.symm.trans heq)
      rfl

end headings

section deepen

variable {lines : List (List Char)} {s s' : Scanner}

/-- One more tab before each line of a text whose lines all have their ends. -/
def deepen (cs : List Char) : List Char := closed ((Text.lines cs).dropLast.map ('\t' :: ·))

theorem deepen_closed (h : ∀ line ∈ lines, '\n' ∉ line) :
    deepen (closed lines) = closed (lines.map ('\t' :: ·)) := by
  have hlines := lines_closed_append h []
  rw [List.append_nil] at hlines
  unfold deepen
  rw [hlines]
  exact congrArg (fun ls => closed (List.map _ ls)) List.dropLast_concat

theorem newline_notMem_deepened (h : ∀ line ∈ lines, '\n' ∉ line) :
    ∀ line ∈ lines.map ('\t' :: ·), '\n' ∉ line := by
  intro line hline
  obtain ⟨own, hown, rfl⟩ := List.mem_map.mp hline
  simpa using h own hown

theorem normalize_closed_map (hne : lines ≠ []) (hreturn : '\r' ∉ closed lines)
    (h : ∀ line ∈ lines, '\n' ∉ line) :
    normalize (closed lines) = closed (lines.map (packIndent true)) := by
  have hclosed : closed lines ≠ [] := by
    rw [closed_eq_unlines hne]
    simp
  rw [normalize_of_endsLines (endsLines_closed lines) hclosed, unifyLineEnds_of_notMem hreturn,
    packIndent_closed h]

/-- A tab before a line does not change how its other tabs and blanks are packed. -/
theorem normalize_deepen (hne : lines ≠ []) (hreturn : '\r' ∉ closed lines)
    (h : ∀ line ∈ lines, '\n' ∉ line) : normalize (deepen (closed lines)) =
      closed ((lines.map (packIndent true)).map ('\t' :: ·)) := by
  have hreturn' : '\r' ∉ closed (lines.map ('\t' :: ·)) := by
    simpa [closed] using hreturn
  rw [deepen_closed h, normalize_closed_map (by simpa using hne) hreturn' (newline_notMem_deepened h),
    List.map_map, List.map_map]
  rfl

theorem leadingTabs_cons (line : List Char) : leadingTabs ('\t' :: line) = leadingTabs line + 1 := rfl

theorem unindent_cons (levels : Nat) (line : List Char) :
    unindent (levels + 1) ('\t' :: line) = unindent levels line := by
  unfold unindent
  rw [leadingTabs_cons, Nat.add_min_add_right, List.drop_succ_cons]

/-- The lines at the second place are those at the first, each one tab deeper. -/
def Deeper (s s' : Scanner) : Prop := ∃ lines, (∀ line ∈ lines, '\n' ∉ line) ∧
  s.rest = closed lines ∧ s'.rest = closed (lines.map ('\t' :: ·))

/-- What is left of the line is the same at both places, and below it the second is deeper. -/
def Beside (s s' : Scanner) : Prop := ∃ own lines, '\n' ∉ own ∧ (∀ line ∈ lines, '\n' ∉ line) ∧
  s.rest = own ++ '\n' :: closed lines ∧ s'.rest = own ++ '\n' :: closed (lines.map ('\t' :: ·))

namespace Deeper

/-- A text block takes in the same lines one level deeper. -/
theorem deeperLines (h : Deeper s.nextLine s'.nextLine) (level : Nat) :
    s'.deeperLines (level + 1) = (s.deeperLines level).map ('\t' :: ·) ∧
      Deeper (s.nextLine.skipLines (s.deeperLines level).length)
        (s'.nextLine.skipLines (s'.deeperLines (level + 1)).length) := by
  obtain ⟨lines, hlines, hrest, hrest'⟩ := h
  have hbelow := Scanner.deeperLines_of_closed level hlines hrest
  have hrun : s'.deeperLines (level + 1) = (s.deeperLines level).map ('\t' :: ·) := by
    rw [Scanner.deeperLines_of_closed _ (newline_notMem_deepened hlines) hrest', hbelow,
      List.takeWhile_map]
    congr 2
    funext line
    simp [leadingTabs_cons]
  have hle : (s.deeperLines level).length ≤ lines.length := by
    rw [hbelow]
    exact (List.takeWhile_prefix _).length_le
  refine ⟨hrun, lines.drop (s.deeperLines level).length,
    fun line hline => hlines line (List.mem_of_mem_drop hline), ?_, ?_⟩
  · exact Scanner.rest_skipLines _ hlines hrest hle
  · rw [hrun, List.length_map, List.map_drop]
    exact Scanner.rest_skipLines _ (newline_notMem_deepened hlines) hrest' (by simpa using hle)

end Deeper

namespace Beside

theorem line_eq (h : Beside s s') : s'.line = s.line := by
  obtain ⟨own, lines, hown, -, hrest, hrest'⟩ := h
  rw [Scanner.line_of_rest hown hrest, Scanner.line_of_rest hown hrest']

theorem skip (h : Beside s s') {n : Nat} (hn : n ≤ s.line.length) :
    Beside (s.skip n) (s'.skip n) := by
  obtain ⟨own, lines, hown, hlines, hrest, hrest'⟩ := h
  rw [Scanner.line_of_rest hown hrest] at hn
  refine ⟨own.drop n, lines, fun hmem => hown (List.mem_of_mem_drop hmem), hlines, ?_, ?_⟩
  · rw [Scanner.rest_skip, hrest, List.drop_append_of_le_length hn]
  · rw [Scanner.rest_skip, hrest', List.drop_append_of_le_length hn]

theorem nextLine (h : Beside s s') : Deeper s.nextLine s'.nextLine := by
  obtain ⟨own, lines, hown, hlines, hrest, hrest'⟩ := h
  have hline := Scanner.line_of_rest hown hrest
  have hline' := Scanner.line_of_rest hown hrest'
  exact ⟨lines, hlines, Scanner.rest_nextLine (by rw [hline, hrest]),
    Scanner.rest_nextLine (by rw [hline', hrest'])⟩

theorem takeWhile (h : Beside s s') {p : Char → Bool} (hp : p '\n' = false) :
    (s'.takeWhile p).1 = (s.takeWhile p).1 ∧ Beside (s.takeWhile p).2 (s'.takeWhile p).2 := by
  have hskip := fun n hn => h.skip (n := n) hn
  obtain ⟨own, lines, hown, -, hrest, hrest'⟩ := h
  have hrun (more : List Char) : (own ++ '\n' :: more).takeWhile p = own.takeWhile p :=
    takeWhile_append_of_nil (List.takeWhile_cons_of_neg (by simp [hp])) own
  unfold Scanner.takeWhile
  rw [hrest, hrest', hrun, hrun]
  refine ⟨rfl, hskip _ ?_⟩
  rw [Scanner.line_of_rest hown hrest]
  exact (List.takeWhile_prefix p).length_le

theorem takeSpan (h : Beside s s') {span : List Char} {t : Scanner}
    (hspan : s.takeSpan = .ok (span, t)) (hline : '\n' ∉ span) :
    ∃ t', s'.takeSpan = .ok (span, t') ∧ Beside t t' := by
  have hskip := fun n hn => h.skip (n := n) hn
  obtain ⟨own, lines, hown, -, hrest, hrest'⟩ := h
  unfold Scanner.takeSpan at hspan ⊢
  split at hspan
  next n hn =>
    cases hspan
    -- A longer span would take in the end of the line.
    have hle : n ≤ own.length := by
      by_contra hlt
      obtain ⟨m, rfl⟩ : ∃ m, n = own.length + (m + 1) := ⟨n - own.length - 1, by omega⟩
      apply hline
      rw [hrest, List.take_length_add_append, List.take_succ_cons]
      simp
    have hfront (more : List Char) : (own ++ '\n' :: more).take (n + 1) =
        (own ++ ['\n']).take (n + 1) := by
      rw [List.append_cons, List.take_append_of_le_length (by simpa using hle)]
    have hn' : Nesting.spanLength? {} s'.rest = some n :=
      Nesting.spanLength?_congr hn (by rw [hrest, hrest']; exact (hfront _).trans (hfront _).symm)
    have htake : s'.rest.take n = s.rest.take n := by
      rw [hrest, hrest', List.take_append_of_le_length hle, List.take_append_of_le_length hle]
    have hline : n ≤ s.line.length := by rwa [Scanner.line_of_rest hown hrest]
    exact ⟨s'.skip n, by simp only [hn', htake], hskip n hline⟩
  next => cases hspan

/-- The fields of an element are the same one level deeper. -/
theorem ofSpan (h : Beside s s') (level : Nat) (tag span : List Char)
    (hown : (Modifiers.ofSpan span).textBlock → ∀ own ∈ s.afterBlank, own.head? ≠ some '\t') :
    (Entry.ofSpan (level + 1) tag span s').element = (Entry.ofSpan level tag span s).element ∧
      Deeper (Entry.ofSpan level tag span s).next (Entry.ofSpan (level + 1) tag span s').next := by
  have hblank : s'.afterBlank = s.afterBlank := by
    unfold Scanner.afterBlank
    rw [h.line_eq]
  cases hblock : (Modifiers.ofSpan span).textBlock with
  | false =>
    unfold Entry.ofSpan
    simp only [hblock, hblank, Bool.false_eq_true, if_false]
    exact ⟨trivial, h.nextLine⟩
  | true =>
    obtain ⟨hbelow, hnext⟩ := h.nextLine.deeperLines level
    have htexts : (s'.afterBlank ++ s'.deeperLines (level + 1)).map (unindent (level + 1 + 1)) =
        (s.afterBlank ++ s.deeperLines level).map (unindent (level + 1)) := by
      rw [hblank, hbelow, List.map_append, List.map_append, List.map_map]
      congr 1
      · refine List.map_congr_left fun own hmem => ?_
        have hhead := hown hblock own hmem
        rw [unindent_of_head _ hhead, unindent_of_head _ hhead]
      · exact List.map_congr_left fun line _ => unindent_cons (level + 1) line
    unfold Entry.ofSpan
    simp only [hblock, if_true, htexts]
    exact ⟨trivial, hnext⟩

end Beside

/-- A line that is one tab deeper has the same line behind its first character. -/
theorem Deeper.line (h : Deeper s s') (hne : s.rest ≠ []) : Beside s (s'.skip 1) ∧
    s'.line = '\t' :: s.line ∧ Deeper s.nextLine s'.nextLine := by
  obtain ⟨lines, hlines, hrest, hrest'⟩ := h
  cases lines with
  | nil => exact absurd hrest hne
  | cons line lines =>
    obtain ⟨hline, hmore⟩ := List.forall_mem_cons.mp hlines
    rw [closed_cons] at hrest
    rw [List.map_cons, closed_cons] at hrest'
    have hown := Scanner.line_of_rest hline hrest
    have hown' := Scanner.line_of_rest (by simpa using hline) hrest'
    refine ⟨⟨line, lines, hline, hmore, hrest, ?_⟩, by rw [hown, hown'], ?_⟩
    · rw [Scanner.rest_skip, hrest']
      rfl
    · exact ⟨lines, hmore, Scanner.rest_nextLine (hown ▸ hrest),
        Scanner.rest_nextLine (hown' ▸ hrest')⟩

theorem Deeper.readEntry (h : Deeper s s') {column level : Nat} {entry : Entry}
    (hname : s.line.findIdx? isNameChar = some column) (hentry : s.readEntry column level = .ok entry)
    (hkeeps : Heading.KeepsToLine ⟨s, column, level⟩) :
    ∃ entry', s'.readEntry (column + 1) (level + 1) = .ok entry' ∧
      entry'.element = entry.element ∧ entry'.textBlock = entry.textBlock ∧
      Deeper entry.next entry'.next := by
  obtain ⟨hcolumn, -, -⟩ := List.findIdx?_eq_some_iff_getElem.mp hname
  obtain ⟨hbeside, -⟩ := h.line (Scanner.takeWhile_name hname).1
  obtain ⟨span, t, hspan, rfl⟩ := Scanner.readEntry_eq_ok hentry
  have hspan? : (⟨s, column, level⟩ : Heading).span? = some (span, t) := by
    unfold Heading.span?
    rw [hspan]
    rfl
  obtain ⟨hline, hown⟩ := hkeeps _ hspan?
  obtain ⟨htag, hafter⟩ := (hbeside.skip (Nat.le_of_lt hcolumn)).takeWhile (p := isNameChar) rfl
  obtain ⟨t', hspan', ht⟩ := hafter.takeSpan hspan hline
  obtain ⟨helement, hnext⟩ := ht.ofSpan level ((s.skip column).takeWhile isNameChar).1 span hown
  refine ⟨_, ?_, helement, rfl, hnext⟩
  rw [Scanner.skip_skip, Nat.add_comm 1 column] at htag hspan'
  rw [Scanner.readEntry_of_takeSpan _ hspan', htag]

/-- Lines that are one tab deeper are swept to the same forest one level deeper. -/
theorem exists_sweep_of_deeper {top limit : Nat} {forest els : List Element} {t : Scanner}
    (hsweep : sweep top limit forest s = .ok (els, t)) (hend : t.rest = [])
    (hkeeps : ∀ heading ∈ headings top limit s, heading.KeepsToLine) :
    ∀ s', Deeper s s' →
      ∃ t', sweep (top + 1) (limit + 1) forest s' = .ok (els, t') ∧ t'.rest = [] := by
  fun_induction sweep top limit forest s with
  | case1 limit forest s hnil =>
    intro s' h
    cases hsweep
    obtain ⟨lines, -, hrest, hrest'⟩ := h
    have hlines : lines = [] := by
      by_contra hne
      rw [hnil, closed_eq_unlines hne] at hrest
      simp at hrest
    have hnil' : s'.rest = [] := by rw [hrest', hlines]; rfl
    exact ⟨s', sweep_of_end hnil', hnil'⟩
  | case2 limit forest s hne hname ih =>
    intro s' h
    obtain ⟨-, hline, hnext⟩ := h.line hne
    rw [headings_of_no_name hne hname] at hkeeps
    have hname' : s'.line.findIdx? isNameChar = none := by
      simp [hline, List.findIdx?_cons, hname, isNameChar]
    rw [sweep_of_no_name hname']
    exact ih hsweep hkeeps _ hnext
  | case3 limit forest s hne column hname hdepth =>
    cases hsweep
    exact absurd hend hne
  | case4 => cases hsweep
  | case5 limit forest s hne column hname hdepth level entry hentry ih =>
    intro s' h
    obtain ⟨-, hline, -⟩ := h.line hne
    rw [headings_of_entry hne hname hdepth hentry, List.forall_mem_cons] at hkeeps
    have hname' : s'.line.findIdx? isNameChar = some (column + 1) := by
      simp [hline, List.findIdx?_cons, hname, isNameChar]
    have hdepth' : s'.depth = s.depth + 1 := by
      unfold Scanner.depth
      rw [hline, List.takeWhile_cons_of_pos rfl, List.count_cons_self]
    obtain ⟨entry', hentry', helement, hblock, hnext⟩ := h.readEntry hname hentry hkeeps.1
    have hlevel : min s'.depth (limit + 1) = level + 1 := by
      rw [hdepth']
      exact Nat.add_min_add_right ..
    rw [sweep_of_name _ _ _ hname', if_neg (by omega), hlevel, hentry']
    dsimp only [Except.bind]
    rw [helement, hblock, Nat.add_sub_add_right]
    obtain ⟨t', hgo, hend'⟩ := ih hsweep hkeeps.2 entry'.next hnext
    refine ⟨t', ?_, hend'⟩
    rw [← hgo]
    cases entry.textBlock <;> rfl

end deepen

/-- A fragment moved one level deeper is the same forest. -/
theorem read_deepen {source : List Char} {level : Nat} {els : List Element}
    (hreturn : '\r' ∉ source) (hlast : source.getLast? = some '\n')
    (hread : read source level 0 = .ok (els, (normalize source).length))
    (hkeeps : ∀ heading ∈ headings level level (.ofSource source), heading.KeepsToLine) :
    read (deepen source) (level + 1) 0 = .ok (els, (normalize (deepen source)).length) := by
  obtain ⟨lines, rfl, hlines⟩ := EndsLines.exists_closed (.inr hlast)
  have hne : lines ≠ [] := by
    rintro rfl
    cases hlast
  have hpacked : ∀ line ∈ lines.map (packIndent true), '\n' ∉ line := by
    intro line hline
    obtain ⟨own, hown, rfl⟩ := List.mem_map.mp hline
    exact newline_notMem_packIndent true (hlines own hown)
  have hdeeper : Deeper (.ofSource (closed lines)) (.ofSource (deepen (closed lines))) :=
    ⟨_, hpacked, normalize_closed_map hne hreturn hlines, normalize_deepen hne hreturn hlines⟩
  obtain ⟨t, hsweep, hpos⟩ := read_eq_ok_iff.mp hread
  have hend : t.rest = [] := by
    have htext := ((Scanner.within_ofSource _).sweep hsweep).2
    rw [t.rest_eq, htext, hpos]
    exact List.drop_length
  obtain ⟨t', hsweep', hend'⟩ := exists_sweep_of_deeper hsweep hend hkeeps _ hdeeper
  obtain ⟨hwithin, htext⟩ := (Scanner.within_ofSource _).sweep hsweep'
  refine read_eq_ok_iff.mpr ⟨t', hsweep', ?_⟩
  rw [hwithin.pos_of_end hend', htext]
  rfl

/-- A text block with blanks left over before a tab, an empty line and a deep jump after it. -/
theorem read_deepen_item :
    read "li.\n\t  \ta\n\n\t\tb x\n".toList 0 0 =
        .ok ([{ tag := "li", text := some "  \ta" }, { tag := "b", text := some "x" }], 17) ∧
      read (deepen "li.\n\t  \ta\n\n\t\tb x\n".toList) 1 0 =
        .ok ([{ tag := "li", text := some "  \ta" }, { tag := "b", text := some "x" }], 21) := by
  have hread : read "li.\n\t  \ta\n\n\t\tb x\n".toList 0 0 =
      .ok ([{ tag := "li", text := some "  \ta" }, { tag := "b", text := some "x" }], 17) := rfl
  have hlength : (normalize "li.\n\t  \ta\n\n\t\tb x\n".toList).length = 17 := by decide
  have hlength' : (normalize (deepen "li.\n\t  \ta\n\n\t\tb x\n".toList)).length = 21 := by
    decide
  refine ⟨hread, ?_⟩
  rw [← hlength] at hread
  have hdeeper := read_deepen (by decide) (by decide) hread (by decide +kernel)
  rwa [hlength'] at hdeeper

end Pagewright.Outline
