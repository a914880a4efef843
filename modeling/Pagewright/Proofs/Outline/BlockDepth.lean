import Mathlib.Data.List.Forall2
import Pagewright.Proofs.Outline.Nodes

/-! A text block is measured by the tabs at the front of its lines, an element by all tabs among
the blanks that lead its line. The measures part at a line with a blank before a tab: it ends the
block, and a name on it begins an element. -/
namespace Pagewright.Outline

/-- Tabs among the blanks and tabs that lead a line. -/
def lineDepth (line : List Char) : Nat := (line.takeWhile isIndent).count '\t'

namespace Scanner

/-- The longest run of lines below that are deeper than a level. -/
def linesByDepth (s : Scanner) (level : Nat) : List (List Char) :=
  (Text.lines s.nextLine.rest).takeWhile (level < lineDepth ·)

/-- The line that ends a text block, which is empty at the end of the text. -/
def boundary? (s : Scanner) (level : Nat) : Option (List Char) :=
  ((Text.lines s.nextLine.rest).dropWhile (level < leadingTabs ·)).head?

end Scanner

/-- The place behind the modifiers of a heading that opens a block of text. -/
def Heading.block? (h : Heading) : Option Scanner :=
  h.span?.bind fun (span, behind) => if (Modifiers.ofSpan span).textBlock then some behind else none

/-- The text of a node is the rest of its line and the longest run of deeper lines, each without
up to `level + 1` of its tabs, and no line of the run begins an element. -/
structure BlockByDepth (all : List Heading) (behind : Scanner) (node : Nat × Element) : Prop where
  text_eq : node.2.text = nonempty (Text.unlines
    ((behind.afterBlank ++ behind.linesByDepth node.1).map (unindent (node.1 + 1))))
  not_heading : ∀ other ∈ all, other.line.pos < behind.nextLine.pos ∨
    behind.nextLine.pos + (closed (behind.linesByDepth node.1)).length ≤ other.line.pos

section lines

theorem nonempty_inj {cs cs' : List Char} (h : nonempty cs = nonempty cs') : cs = cs' := by
  unfold nonempty at h
  split at h <;> split at h
  · simp_all
  · cases h
  · cases h
  · exact String.ofList_injective (Option.some.inj h)

/-- A run of lines that goes on with a line that is not empty is a longer text. -/
theorem length_unlines_lt (front more : List (List Char)) {line : List Char} (hne : line ≠ []) :
    (Text.unlines front).length < (Text.unlines (front ++ line :: more)).length := by
  have hline := List.length_pos_iff.mpr hne
  have hlong := congrArg List.length (closed_eq_unlines (List.append_ne_nil_of_right_ne_nil front
    (List.cons_ne_nil line more)))
  rw [closed_append, closed_cons] at hlong
  simp only [List.length_append, List.length_cons, List.length_nil] at hlong
  by_cases hfront : front = []
  · have hempty : (Text.unlines front).length = 0 := by
      rw [hfront]
      rfl
    omega
  · have hshort := congrArg List.length (closed_eq_unlines hfront)
    simp only [List.length_append, List.length_cons, List.length_nil] at hshort
    omega

/-- A run by a weaker condition goes on where the run by a stronger one ends. -/
theorem takeWhile_eq_append {α : Type} {p q : α → Bool} (h : ∀ x, p x → q x) (l : List α) :
    l.takeWhile q = l.takeWhile p ++ (l.dropWhile p).takeWhile q := by
  have hfront : ∀ x ∈ l.takeWhile p, q x := fun x hx => h x (List.mem_takeWhile_imp hx)
  calc
    l.takeWhile q = (l.takeWhile p ++ l.dropWhile p).takeWhile q := by
      rw [List.takeWhile_append_dropWhile]
    _ = l.takeWhile p ++ (l.dropWhile p).takeWhile q := List.takeWhile_append_of_pos hfront

theorem unindent_ne_nil {level : Nat} {line : List Char} (htabs : leadingTabs line ≤ level)
    (hdepth : level < lineDepth line) : unindent (level + 1) line ≠ [] := by
  have hlength : lineDepth line ≤ line.length :=
    List.count_le_length.trans (List.takeWhile_prefix _).length_le
  unfold unindent
  rw [Ne, List.drop_eq_nil_iff]
  omega

end lines

section block

variable {s behind : Scanner} {level : Nat} {node : Nat × Element} {all : List Heading}

/-- The run of deeper lines is the block, or it goes on with the line that ends the block. -/
theorem linesByDepth_cases (s : Scanner) (level : Nat) :
    ((∀ line ∈ s.boundary? level, lineDepth line ≤ level) ∧
      s.linesByDepth level = s.deeperLines level) ∨
    ∃ line more, line ∈ s.boundary? level ∧ leadingTabs line ≤ level ∧ level < lineDepth line ∧
      s.linesByDepth level = s.deeperLines level ++ line :: more := by
  have hweaker : ∀ line : List Char,
      decide (level < leadingTabs line) = true → decide (level < lineDepth line) = true := by
    intro line htabs
    have hle : leadingTabs line ≤ lineDepth line := leadingTabs_le_count line
    simp only [decide_eq_true_eq] at htabs ⊢
    omega
  have hrun := takeWhile_eq_append hweaker (Text.lines s.nextLine.rest)
  have hhead := List.head?_dropWhile_not (level < leadingTabs ·) (Text.lines s.nextLine.rest)
  unfold Scanner.boundary? Scanner.linesByDepth Scanner.deeperLines
  rw [hrun]
  cases hrest : (Text.lines s.nextLine.rest).dropWhile (level < leadingTabs ·) with
  | nil => exact .inl (by simp)
  | cons line more =>
    rw [hrest] at hhead
    have htabs : leadingTabs line ≤ level := by simpa using hhead
    by_cases hdepth : level < lineDepth line
    · refine .inr ⟨line, more.takeWhile (level < lineDepth ·), rfl, htabs, hdepth, ?_⟩
      rw [List.takeWhile_cons_of_pos (by simpa using hdepth)]
    · refine .inl ⟨by simpa using hdepth, ?_⟩
      rw [List.takeWhile_cons_of_neg (by simpa using hdepth), List.append_nil]

theorem boundary_le_of_text_eq
    (htext : nonempty (Text.unlines
        ((s.afterBlank ++ s.deeperLines level).map (unindent (level + 1)))) =
      nonempty (Text.unlines
        ((s.afterBlank ++ s.linesByDepth level).map (unindent (level + 1))))) :
    ∀ line ∈ s.boundary? level, lineDepth line ≤ level := by
  obtain ⟨hshallow, -⟩ | ⟨line, more, -, htabs, hdepth, hrun⟩ := linesByDepth_cases s level
  · exact hshallow
  · have hlt := length_unlines_lt
      ((s.afterBlank ++ s.deeperLines level).map (unindent (level + 1)))
      (more.map (unindent (level + 1))) (unindent_ne_nil htabs hdepth)
    rw [← List.map_cons, ← List.map_append, List.append_assoc, ← hrun, nonempty_inj htext] at hlt
    exact absurd hlt (Nat.lt_irrefl _)

theorem linesByDepth_of_boundary_le (h : ∀ line ∈ s.boundary? level, lineDepth line ≤ level) :
    s.linesByDepth level = s.deeperLines level := by
  obtain ⟨-, hrun⟩ | ⟨line, more, hmem, -, hdepth, -⟩ := linesByDepth_cases s level
  · exact hrun
  · exact absurd (h line hmem) (Nat.not_le.mpr hdepth)

/-- A block that is measured by its tabs is the block by depth if they agree where it ends. -/
theorem blockByDepth_iff
    (htext : node.2.text = nonempty (Text.unlines
      ((behind.afterBlank ++ behind.deeperLines node.1).map (unindent (node.1 + 1)))))
    (hclear : ∀ other ∈ all, other.line.pos < behind.nextLine.pos ∨
      behind.nextLine.pos + (closed (behind.deeperLines node.1)).length ≤ other.line.pos) :
    BlockByDepth all behind node ↔ ∀ line ∈ behind.boundary? node.1, lineDepth line ≤ node.1 := by
  constructor
  · intro h
    exact boundary_le_of_text_eq (htext.symm.trans h.text_eq)
  · intro h
    have hrun := linesByDepth_of_boundary_le h
    exact ⟨by rw [hrun, htext], by rw [hrun]; exact hclear⟩

end block

/-- All that a heading takes in ends before another heading begins. -/
def Heading.Before (h other : Heading) : Prop :=
  ∃ entry, h.line.readEntry h.column h.level = .ok entry ∧ h.line.pos < entry.next.pos ∧
    entry.next.pos ≤ other.line.pos

section order

variable {top limit : Nat} {forest els : List Element} {s t : Scanner} {h : Heading}

/-- A heading stands on a line with a name, at the place where the sweep begins or behind it, and
behind all that the headings before it took in. -/
theorem headings_ordered (hsweep : sweep top limit forest s = .ok (els, t)) :
    (∀ h ∈ headings top limit s,
      (∃ n, h.line = s.skip n) ∧ h.line.line.findIdx? isNameChar = some h.column) ∧
    (headings top limit s).Pairwise Heading.Before := by
  fun_induction sweep top limit forest s with
  | case1 limit forest s hend => simp [headings_of_end hend]
  | case2 limit forest s hne hname ih =>
    rw [headings_of_no_name hne hname]
    obtain ⟨hlines, hordered⟩ := ih hsweep
    refine ⟨fun h hmem => ?_, hordered⟩
    obtain ⟨⟨n, hn⟩, hcolumn⟩ := hlines h hmem
    exact ⟨⟨_, by rw [hn, Scanner.nextLine, Scanner.skip_skip]⟩, hcolumn⟩
  | case3 limit forest s hne column hname hdepth =>
    simp [headings_of_shallow hne hname hdepth]
  | case4 => cases hsweep
  | case5 limit forest s hne column hname hdepth level entry hentry ih =>
    obtain ⟨hlines, hordered⟩ := ih hsweep
    obtain ⟨k, hpos, hk⟩ := Scanner.readEntry_next hname hentry
    rw [headings_of_entry hne hname hdepth hentry, List.forall_mem_cons, List.pairwise_cons]
    refine ⟨⟨⟨⟨0, by rw [Scanner.skip_zero]⟩, hname⟩, fun h hmem => ?_⟩, fun h hmem => ?_, hordered⟩
    · obtain ⟨⟨n, hn⟩, hcolumn⟩ := hlines h hmem
      exact ⟨⟨_, by rw [hn, hk, Scanner.skip_skip]⟩, hcolumn⟩
    · obtain ⟨⟨n, hn⟩, -⟩ := hlines h hmem
      refine ⟨entry, hentry, ?_, ?_⟩
      · rw [hk]
        exact Nat.lt_add_of_pos_right hpos
      · rw [hn]
        exact Nat.le_add_right _ _

theorem exists_span_of_block {behind : Scanner} (hblock : h.block? = some behind) :
    ∃ span, ((h.line.skip h.column).takeWhile isNameChar).2.takeSpan = .ok (span, behind) ∧
      (Modifiers.ofSpan span).textBlock = true := by
  obtain ⟨⟨span, behind'⟩, hspan, hopens⟩ := Option.bind_eq_some_iff.mp hblock
  have hmark : (Modifiers.ofSpan span).textBlock = true := by
    by_contra hnot
    simp [hnot] at hopens
  obtain rfl : behind' = behind := by simpa [hmark] using hopens
  refine ⟨span, ?_, hmark⟩
  unfold Heading.span? at hspan
  cases htake : ((h.line.skip h.column).takeWhile isNameChar).2.takeSpan with
  | error e =>
    rw [htake] at hspan
    cases hspan
  | ok taken =>
    rw [htake] at hspan
    exact congrArg _ (Option.some.inj hspan)

/-- What is read behind a heading that opens a block: the text, and where the block ends. -/
theorem readEntry_of_block {behind : Scanner} (hends : h.line.EndsLine)
    (hname : h.line.line.findIdx? isNameChar = some h.column) (hblock : h.block? = some behind) :
    h.line.pos < behind.nextLine.pos ∧
      ∃ entry, h.line.readEntry h.column h.level = .ok entry ∧
        entry.element.text = nonempty (Text.unlines
          ((behind.afterBlank ++ behind.deeperLines h.level).map (unindent (h.level + 1)))) ∧
        entry.next.pos = behind.nextLine.pos + (closed (behind.deeperLines h.level)).length := by
  obtain ⟨span, htake, hmark⟩ := exists_span_of_block hblock
  obtain ⟨-, hlength⟩ := Scanner.takeWhile_name hname
  obtain ⟨⟨n, hn⟩, -⟩ := Scanner.takeSpan_eq_ok htake
  dsimp only [Scanner.takeWhile] at hn hlength
  have hends' : behind.nextLine.EndsLine := by
    rw [hn]
    exact (((hends.skip _).skip _).skip _).nextLine
  obtain ⟨-, -, -, hskip⟩ := exists_deeper h.level _ behind.nextLine rfl hends'
  refine ⟨?_, _, Scanner.readEntry_of_takeSpan h.level htake, ?_, ?_⟩
  · have hpos : behind.pos = h.line.pos + h.column +
        ((h.line.skip h.column).rest.takeWhile isNameChar).length + n := congrArg Scanner.pos hn
    have hnext : behind.pos ≤ behind.nextLine.pos := Nat.le_add_right _ _
    omega
  · unfold Entry.ofSpan
    simp only [hmark, if_true]
  · unfold Entry.ofSpan
    simp only [hmark, if_true]
    exact congrArg Scanner.pos hskip

end order

/-- No heading stands on a line that another heading took into its block. -/
theorem clear_of_pairwise {all : List Heading} {h : Heading} {entry : Entry} {start : Nat}
    (hordered : all.Pairwise Heading.Before) (hmem : h ∈ all)
    (hentry : h.line.readEntry h.column h.level = .ok entry) (hstart : h.line.pos < start) :
    ∀ other ∈ all, other.line.pos < start ∨ entry.next.pos ≤ other.line.pos := by
  obtain ⟨front, back, rfl⟩ := List.append_of_mem hmem
  obtain ⟨-, hback, hfront⟩ := List.pairwise_append.mp hordered
  intro other hother
  rcases List.mem_append.mp hother with hbefore | hafter
  · obtain ⟨entry', -, hlt, hle⟩ := hfront other hbefore h List.mem_cons_self
    exact .inl (by omega)
  rcases List.mem_cons.mp hafter with rfl | hafter
  · exact .inl hstart
  · obtain ⟨entry', hentry', -, hle⟩ := (List.pairwise_cons.mp hback).1 other hafter
    obtain rfl := Except.ok.inj (hentry.symm.trans hentry')
    exact .inr hle

/-- A heading begins each node, and the text of a block is what the depths of its lines say exactly
when they say so of the line that ends it. -/
theorem blockByDepth_of_read {source : List Char} {level start stop : Nat} {els : List Element}
    (hread : read source level start = .ok (els, stop)) :
    List.Forall₂
      (fun heading node => heading.node? = some (bare node) ∧ ∀ behind ∈ heading.block?,
        (BlockByDepth (headingsOf source level start) behind node ↔
          ∀ line ∈ behind.boundary? node.1, lineDepth line ≤ node.1))
      (headingsOf source level start) (Element.nodesFrom level els) := by
  obtain ⟨t, hsweep⟩ := exists_sweep_of_read hread
  obtain ⟨hlines, hordered⟩ := headings_ordered hsweep
  have hnodes := map_node?_headingsOf hread
  rw [← List.forall₂_eq_eq_eq, List.forall₂_map_left_iff, List.forall₂_map_right_iff] at hnodes
  refine ((List.forall₂_and_left _ _).mpr ⟨fun heading hmem => hmem, hnodes⟩).imp ?_
  rintro heading node ⟨hmem, hnode⟩
  refine ⟨hnode, fun behind hblock => ?_⟩
  obtain ⟨⟨n, hn⟩, hname⟩ := hlines heading hmem
  have hends : heading.line.EndsLine := by
    rw [hn]
    exact ((Scanner.endsLine_ofSource source).skip start).skip n
  obtain ⟨hbelow, entry, hentry, htext, hnext⟩ := readEntry_of_block hends hname hblock
  have hbare : (heading.level, entry.element) = bare node :=
    Option.some.inj ((Heading.node?_of_readEntry hentry).symm.trans hnode)
  obtain ⟨hlevel, helement⟩ := Prod.mk.inj hbare
  rw [helement, hlevel] at htext
  rw [hlevel] at hnext
  have hclear := clear_of_pairwise hordered hmem hentry hbelow
  rw [hnext] at hclear
  exact blockByDepth_iff htext hclear

/-- A nested block with a line deeper than its first, and an element beside it that ends it. -/
theorem blockByDepth_of_read_section :
    let source := "section\n\tp.\n\t\tdeep\n\t\t\tdeeper\n\tspan".toList
    let els : List Element :=
      [{ tag := "section"
         children := [{ tag := "p", text := some "deep\n\tdeeper" }, { tag := "span" }] }]
    read source 0 0 = .ok (els, 35) ∧
      List.Forall₂
        (fun heading node => heading.node? = some (bare node) ∧ ∀ behind ∈ heading.block?,
          (BlockByDepth (headingsOf source 0 0) behind node ↔
            ∀ line ∈ behind.boundary? node.1, lineDepth line ≤ node.1))
        (headingsOf source 0 0) (Element.nodesFrom 0 els) :=
  ⟨rfl, blockByDepth_of_read rfl⟩

/-- A line with two blanks before its tab is deeper than the paragraph, but it is no text of it. -/
theorem not_blockByDepth_blanks :
    ¬ ∀ source level start els stop, read source level start = .ok (els, stop) →
      List.Forall₂
        (fun heading node => heading.node? = some (bare node) ∧ ∀ behind ∈ heading.block?,
          BlockByDepth (headingsOf source level start) behind node)
        (headingsOf source level start) (Element.nodesFrom level els) := by
  intro h
  have hread : read "p.\n  \tfoo".toList 0 0 = .ok ([{ tag := "p" }, { tag := "foo" }], 10) := rfl
  have hblocks : (headingsOf "p.\n  \tfoo".toList 0 0).map (fun heading =>
      heading.block?.map fun behind => nonempty (Text.unlines
        ((behind.afterBlank ++ behind.linesByDepth 0).map (unindent (0 + 1))))) =
      [some (some "  \tfoo"), none] := by
    decide +kernel
  obtain ⟨heading, rest, hlist, hheading, -⟩ := List.map_eq_cons_iff.mp hblocks
  obtain ⟨behind, hblock, hlines⟩ := Option.map_eq_some_iff.mp hheading
  have hnodes := h _ _ _ _ _ hread
  rw [hlist, Element.nodesFrom_cons] at hnodes
  cases hnodes with
  | cons hfirst _ =>
    have htext := (hfirst.2 behind hblock).text_eq
    rw [hlines] at htext
    cases htext

end Pagewright.Outline
