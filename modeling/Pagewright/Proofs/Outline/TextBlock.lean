import Pagewright.Proofs.Outline.Line

/-! A text block is what stands after the tag and the longest run of deeper lines below. -/
namespace Pagewright.Outline

/-- Lines with the ends they have in a text. -/
def closed (lines : List (List Char)) : List Char := lines.flatMap (· ++ ['\n'])

/-- A line without up to `levels` of its leading tabs. -/
def unindent (levels : Nat) (line : List Char) : List Char :=
  line.drop (min levels (leadingTabs line))

@[simp] theorem closed_cons (line : List Char) (lines : List (List Char)) :
    closed (line :: lines) = line ++ '\n' :: closed lines := by
  simp [closed]

theorem closed_append (front back : List (List Char)) :
    closed (front ++ back) = closed front ++ closed back := List.flatMap_append

theorem closed_eq_unlines {lines : List (List Char)} (hne : lines ≠ []) :
    closed lines = Text.unlines lines ++ ['\n'] := by
  induction lines with
  | nil => exact absurd rfl hne
  | cons line lines ih =>
    cases lines with
    | nil => simp [closed, Text.unlines, Text.joinWith]
    | cons next lines =>
      rw [closed_cons, ih (by simp)]
      simp [Text.unlines, Text.joinWith]

theorem lines_closed_append {lines : List (List Char)} (h : ∀ line ∈ lines, '\n' ∉ line)
    (cs : List Char) : Text.lines (closed lines ++ cs) = lines ++ Text.lines cs := by
  induction lines with
  | nil => rfl
  | cons line lines ih =>
    obtain ⟨hline, hlines⟩ := List.forall_mem_cons.mp h
    rw [closed_cons, List.append_assoc, List.cons_append, Text.lines, Text.fields_append_cons hline]
    exact congrArg _ (ih hlines)

/-- Every line of the text has its end, also the last one. -/
def EndsLines (cs : List Char) : Prop := cs = [] ∨ cs.getLast? = some '\n'

theorem EndsLines.tail {c : Char} {cs : List Char} (h : EndsLines (c :: cs)) : EndsLines cs := by
  cases cs with
  | nil => exact .inl rfl
  | cons d cs => exact .inr (by simpa [EndsLines, List.getLast?_cons_cons] using h)

theorem EndsLines.exists_closed {cs : List Char} (h : EndsLines cs) :
    ∃ lines, cs = closed lines ∧ ∀ line ∈ lines, '\n' ∉ line := by
  rcases h with rfl | h
  · exact ⟨[], rfl, by simp⟩
  · obtain ⟨front, rfl⟩ := List.getLast?_eq_some_iff.mp h
    have hfront : Text.unlines (Text.lines front) = front := Text.joinWith_fields _ _
    have hne : Text.lines front ≠ [] := Text.fields_ne_nil _ _
    refine ⟨Text.lines front, ?_, fun line hline => Text.not_mem_of_mem_fields hline⟩
    rw [closed_eq_unlines hne, hfront]

theorem endsLines_closed (lines : List (List Char)) : EndsLines (closed lines) := by
  by_cases hne : lines = []
  · exact .inl (by rw [hne]; rfl)
  · right
    rw [closed_eq_unlines hne]
    exact List.getLast?_concat

theorem dedent_unlines (levels : Nat) {lines : List (List Char)} (h : ∀ line ∈ lines, '\n' ∉ line) :
    dedent levels (Text.unlines lines) = Text.unlines (lines.map (unindent levels)) := by
  cases lines with
  | nil => simp [dedent, Text.unlines, Text.lines, Text.joinWith, Text.fields]
  | cons line lines =>
    simp only [dedent, Text.lines, Text.unlines, Text.fields_joinWith (List.cons_ne_nil _ _) h]
    rfl

theorem leadingTabs_of_head {line : List Char} (h : line.head? ≠ some '\t') :
    leadingTabs line = 0 := by
  cases line with
  | nil => rfl
  | cons c line => simp_all [leadingTabs]

theorem unindent_of_head (levels : Nat) {line : List Char} (h : line.head? ≠ some '\t') :
    unindent levels line = line := by
  rw [unindent, leadingTabs_of_head h, Nat.min_zero, List.drop_zero]

theorem leadingTabs_append (line more : List Char) :
    leadingTabs (line ++ '\n' :: more) = leadingTabs line := by
  rw [leadingTabs, leadingTabs, List.takeWhile_append]
  split <;> simp [*]

theorem leadingTabs_le_count (line : List Char) :
    leadingTabs line ≤ (line.takeWhile isIndent).count '\t' := by
  induction line with
  | nil => simp [leadingTabs]
  | cons c line ih =>
    by_cases hc : c = '\t'
    · subst hc
      simpa [leadingTabs, isIndent] using ih
    · simp [leadingTabs, hc]

/-- A block that begins inside a line takes in the rest of it. -/
theorem blockLength_of_line (level : Nat) {line : List Char} (more : List Char) (h : '\n' ∉ line) :
    blockLength level false (line ++ '\n' :: more) =
      line.length + 1 + blockLength level true more := by
  induction line with
  | nil => simp [blockLength]; omega
  | cons c line ih =>
    obtain ⟨hc, hmore⟩ : c ≠ '\n' ∧ '\n' ∉ line := by simpa [eq_comm] using h
    simp only [List.cons_append, blockLength, Bool.false_eq_true, false_and, if_false,
      beq_eq_false_iff_ne.mpr hc, ih hmore, List.length_cons]
    omega

theorem blockLength_of_deeper {level : Nat} {line : List Char} (more : List Char)
    (hline : '\n' ∉ line) (h : level < leadingTabs line) :
    blockLength level true (line ++ '\n' :: more) =
      line.length + 1 + blockLength level true more := by
  cases line with
  | nil => simp [leadingTabs] at h
  | cons c line =>
    obtain ⟨hc, hmore⟩ : c ≠ '\n' ∧ '\n' ∉ line := by simpa [eq_comm] using hline
    have hdeep : ¬ leadingTabs (c :: (line ++ '\n' :: more)) ≤ level := by
      rw [← List.cons_append, leadingTabs_append]; omega
    simp only [List.cons_append, blockLength, true_and, if_neg hdeep, beq_eq_false_iff_ne.mpr hc,
      blockLength_of_line level more hmore, List.length_cons]
    omega

theorem blockLength_of_shallow {level : Nat} {cs : List Char} (h : leadingTabs cs ≤ level) :
    blockLength level true cs = 0 := by
  cases cs with
  | nil => rfl
  | cons c cs => simp [blockLength, h]

namespace Scanner

/-- The longest run of lines below with more than `level` leading tabs. -/
def deeperLines (s : Scanner) (level : Nat) : List (List Char) :=
  (Text.lines s.nextLine.rest).takeWhile (level < leadingTabs ·)

/-- What stands on the line after a blank. -/
def afterBlank (s : Scanner) : List (List Char) :=
  if s.line.head? = some ' ' then [s.line.drop 1] else []

end Scanner

/-- The deeper lines at the front of a text that ends its lines, and where the block ends. -/
theorem exists_deeper (level : Nat) (n : Nat) (s : Scanner) (hn : s.rest.length = n)
    (hs : s.EndsLine) :
    let run := (Text.lines s.rest).takeWhile (level < leadingTabs ·)
    (∀ line ∈ run, '\n' ∉ line) ∧ blockLength level true s.rest = (closed run).length ∧
      (∃ tail, s.rest = closed run ++ tail) ∧
      s.skipLines run.length = s.skip (closed run).length := by
  induction n using Nat.strong_induction_on generalizing s with
  | _ n ih =>
    by_cases hne : s.rest = []
    · simp [hne, Text.lines, Text.fields, blockLength, leadingTabs, closed, Scanner.skipLines]
    obtain ⟨more, hmore⟩ := hs.rest_eq hne
    have hline := s.not_mem_line
    have hnext := Scanner.rest_nextLine hmore
    have hlines : Text.lines s.rest = s.line :: Text.lines more := by
      rw [hmore, Text.lines, Text.fields_append_cons hline]; rfl
    by_cases hdeep : level < leadingTabs s.line
    · have hskip := Scanner.nextLine_eq hmore
      have hless := hn ▸ Scanner.rest_nextLine_lt hne
      obtain ⟨hnot, hlen, ⟨tail, htail⟩, hpos⟩ :=
        ih _ hless s.nextLine rfl (hskip ▸ hs.skip _)
      rw [hnext] at hnot hlen htail hpos
      have hrun : (Text.lines s.rest).takeWhile (level < leadingTabs ·) =
          s.line :: (Text.lines more).takeWhile (level < leadingTabs ·) := by
        rw [hlines, List.takeWhile_cons_of_pos (by simpa using hdeep)]
      rw [hrun]
      refine ⟨by simpa using ⟨hline, hnot⟩, ?_, ⟨tail, ?_⟩, ?_⟩
      · rw [hmore, blockLength_of_deeper more hline hdeep, hlen]
        simp; omega
      · rw [hmore]
        simpa using htail
      · rw [List.length_cons, Scanner.skipLines, hpos, hskip, Scanner.skip_skip]
        simp [Nat.add_assoc, Nat.add_comm 1]
    · have hshallow : leadingTabs s.rest ≤ level := by
        rw [hmore, leadingTabs_append]; omega
      have hrun : (Text.lines s.rest).takeWhile (level < leadingTabs ·) = [] := by
        rw [hlines, List.takeWhile_cons_of_neg (by simpa using hdeep)]
      simp [hrun, blockLength_of_shallow hshallow, closed, Scanner.skipLines]

namespace Scanner

theorem takeWhile_lines_of_head (level : Nat) {cs : List Char} (h : cs.head? ≠ some '\t') :
    (Text.lines cs).takeWhile (level < leadingTabs ·) = [] := by
  have hfirst : ∃ line more, Text.lines cs = line :: more ∧ line.head? ≠ some '\t' := by
    cases cs with
    | nil => exact ⟨[], [], rfl, by simp⟩
    | cons c cs =>
      unfold Text.lines Text.fields
      split
      · exact ⟨[], _, rfl, by simp⟩
      · split
        · exact ⟨[c], [], rfl, h⟩
        next line more _ => exact ⟨c :: line, more, rfl, h⟩
  obtain ⟨line, more, hlines, hhead⟩ := hfirst
  rw [hlines, List.takeWhile_cons_of_neg (by simp [leadingTabs_of_head hhead])]

/-- The deeper lines are among those in front of a text that is not deeper. -/
theorem deeperLines_eq {s : Scanner} {level : Nat} {lines : List (List Char)} {tail : List Char}
    (hlines : ∀ line ∈ lines, '\n' ∉ line) (hrest : s.nextLine.rest = closed lines ++ tail)
    (htail : tail.head? ≠ some '\t') :
    s.deeperLines level = lines.takeWhile (level < leadingTabs ·) := by
  rw [deeperLines, hrest, lines_closed_append hlines,
    takeWhile_append_of_nil (takeWhile_lines_of_head level htail)]

theorem deeperLines_of_closed {s : Scanner} (level : Nat) {lines : List (List Char)}
    (hlines : ∀ line ∈ lines, '\n' ∉ line) (hrest : s.nextLine.rest = closed lines) :
    s.deeperLines level = lines.takeWhile (level < leadingTabs ·) := by
  have htail : s.nextLine.rest = closed lines ++ [] := by rw [hrest, List.append_nil]
  exact deeperLines_eq hlines htail (by simp)

theorem rest_skipLines {s : Scanner} {lines : List (List Char)} (n : Nat)
    (hlines : ∀ line ∈ lines, '\n' ∉ line) (hrest : s.rest = closed lines)
    (hn : n ≤ lines.length) : (s.skipLines n).rest = closed (lines.drop n) := by
  induction n generalizing s lines with
  | zero => exact hrest
  | succ n ih =>
    cases lines with
    | nil => simp at hn
    | cons line lines =>
      obtain ⟨hline, hmore⟩ := List.forall_mem_cons.mp hlines
      rw [closed_cons] at hrest
      have hown : s.line = line := line_of_rest hline hrest
      have hnext : s.nextLine.rest = closed lines := rest_nextLine (hown ▸ hrest)
      exact ih hmore hnext (by simpa using hn)

theorem nextLine_of_lineEnd {s : Scanner} {n : Nat} {tail : List Char}
    (h : s.rest.drop n = '\n' :: tail) :
    (s.skip n).line = [] ∧ (s.skip n).nextLine = s.skip (n + 1) := by
  have hline : (s.skip n).line = [] := line_of_rest (by simp) h
  exact ⟨hline, by rw [nextLine_eq (s := s.skip n) (by rw [hline]; exact h), hline]; simp⟩

theorem takeInline_eq {s : Scanner} (hs : s.EndsLine) (hne : s.rest ≠ []) :
    s.takeInline.1 = nonempty (Text.unlines s.afterBlank) ∧ s.takeInline.2.line = [] ∧
      s.takeInline.2.nextLine = s.nextLine := by
  obtain ⟨more, hmore⟩ := hs.rest_eq hne
  have hdrop : s.rest.drop s.line.length = '\n' :: more := by
    simpa using congrArg (List.drop s.line.length) hmore
  refine ⟨?_, by rw [nextLine_eq hmore]; exact nextLine_of_lineEnd hdrop⟩
  by_cases hb : s.line.head? = some ' '
  · rw [afterBlank, if_pos hb]
    exact if_pos hb
  · rw [afterBlank, if_neg hb]
    exact if_neg hb

/-- What `takeBlock` measures is what stands after the blank and the deeper lines. -/
theorem exists_block {s : Scanner} (level : Nat) (hs : s.EndsLine)
    (hc : s.rest.head? = some ' ' ∨ s.rest.head? = some '\n') :
    let lines := s.afterBlank ++ s.deeperLines level
    (∀ line ∈ lines, '\n' ∉ line) ∧ (∃ tail, s.rest.drop 1 = closed lines ++ tail) ∧
      blockLength level (s.rest.head? = some '\n') (s.rest.drop 1) = (closed lines).length ∧
      s.line.length = (closed s.afterBlank).length := by
  obtain ⟨more, hmore⟩ := hs.rest_eq (by rintro h; simp [h] at hc)
  have hline := s.not_mem_line
  obtain ⟨hnot, hlen, ⟨tail, htail⟩, -⟩ := exists_deeper level _ s.nextLine rfl (hs.skip _)
  change ∀ line ∈ s.deeperLines level, '\n' ∉ line at hnot
  change blockLength level true _ = (closed (s.deeperLines level)).length at hlen
  change _ = closed (s.deeperLines level) ++ tail at htail
  rw [rest_nextLine hmore] at hlen htail
  rw [afterBlank]
  cases hl : s.line with
  | nil =>
    rw [hl] at hmore
    have hrest : s.rest = '\n' :: more := hmore
    simp only [List.head?_nil, reduceCtorEq, if_false, List.nil_append, hrest, List.head?_cons,
      List.drop_one, List.tail_cons, decide_true, hlen]
    exact ⟨hnot, ⟨tail, htail⟩, trivial, rfl⟩
  | cons c own =>
    rw [hl] at hmore hline
    obtain rfl : c = ' ' := by
      simp only [hmore, List.cons_append, List.head?_cons, Option.some.injEq] at hc
      rcases hc with hc | hc
      · exact hc
      · exact absurd (hc ▸ List.mem_cons_self) hline
    have hown : '\n' ∉ own := fun h => hline (List.mem_cons_of_mem _ h)
    have hrest : s.rest = ' ' :: (own ++ '\n' :: more) := hmore
    simp only [List.head?_cons, if_true, List.drop_one, List.tail_cons, List.singleton_append,
      hrest, closed_cons, List.length_cons]
    refine ⟨by simpa using ⟨hown, hnot⟩, ⟨tail, by simp [htail]⟩, ?_, by simp [closed]⟩
    have hblank : decide (some ' ' = some '\n') = false := rfl
    rw [hblank, blockLength_of_line level more hown, hlen]
    simp; omega

theorem takeBlock_eq {s : Scanner} (level : Nat) (hs : s.EndsLine)
    (hc : s.rest.head? = some ' ' ∨ s.rest.head? = some '\n') :
    let lines := s.afterBlank ++ s.deeperLines level
    (s.takeBlock level).1 = nonempty (Text.unlines (lines.map (unindent (level + 1)))) ∧
      (s.takeBlock level).2.line = [] ∧
      (s.takeBlock level).2.nextLine = s.nextLine.skipLines (s.deeperLines level).length := by
  intro lines
  have hne : s.rest ≠ [] := by rintro h; simp [h] at hc
  obtain ⟨more, hmore⟩ := hs.rest_eq hne
  obtain ⟨hnot, ⟨tail, htail⟩, hlen, hline⟩ := exists_block level hs hc
  obtain ⟨-, -, -, hpos⟩ := exists_deeper level _ s.nextLine rfl (hs.skip _)
  change s.nextLine.skipLines (s.deeperLines level).length =
    s.nextLine.skip (closed (s.deeperLines level)).length at hpos
  obtain ⟨c, hrest⟩ : ∃ c, s.rest = c :: (closed lines ++ tail) :=
    ⟨s.rest.head hne, by rw [← htail, List.drop_one, List.cons_head_tail]⟩
  have htext : (closed lines ++ tail).take ((closed lines).length - 1) = Text.unlines lines := by
    by_cases hnil : lines = []
    · simp [hnil, closed, Text.unlines, Text.joinWith]
    · simp [closed_eq_unlines hnil]
  have hend : s.rest.drop (closed lines).length = '\n' :: tail := by
    by_cases hnil : lines = []
    · have hc : c = '\n' := by
        rcases hc with hc | hc
        · have : s.line.head? = some ' ' := by
            rw [hmore] at hc
            cases hl : s.line <;> simp_all
          simp [lines, afterBlank, this] at hnil
        · simpa [hrest] using hc
      simp [hrest, hnil, closed, hc]
    · simp [hrest, closed_eq_unlines hnil]
  obtain ⟨hstop, hnext⟩ := nextLine_of_lineEnd hend
  rw [takeBlock, hlen, htail]
  refine ⟨?_, hstop, ?_⟩
  · rw [htext, dedent_unlines _ hnot]
  · rw [hnext, hpos, nextLine_eq hmore, skip_skip, hline, closed_append, List.length_append]
    congr 1
    omega

end Scanner

end Pagewright.Outline
