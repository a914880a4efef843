import Pagewright.Proofs.Html.Nodes
import Pagewright.Proofs.Outline.Heading
import Pagewright.Proofs.Outline.Indent
import Pagewright.Proofs.Outline.Sweep

/-! Reading is the inverse of laying out. -/
namespace Pagewright.Outline

def tabs (level : Nat) : List Char := List.replicate level '\t'

/-- Text on the line of a tag stands after a single blank. -/
def inlineText : Option String → List Char
  | none => []
  | some text => ' ' :: text.toList

theorem newline_notMem_inlineText {text : Option String}
    (h : ∀ own ∈ text, own ≠ "" ∧ '\n' ∉ own.toList) : '\n' ∉ inlineText text := by
  cases text with
  | none => simp [inlineText]
  | some own => simpa [inlineText] using (h own rfl).2

/-- Text below a tag stands behind the tabs of its level. -/
def blockLines (level : Nat) (text : String) : List (List Char) :=
  (Text.lines text.toList).map (tabs level ++ ·)

/-- The lines in which a forest is written, with its roots at a level. An element without children
may have its text below it, one level deeper. -/
inductive LaidOut : Nat → List Element → List (List Char) → Prop
  | nil (level : Nat) : LaidOut level [] []
  | inline {level : Nat} {el : Element} {rest : List Element} {below after : List (List Char)}
      (hel : Writable el) (htext : ∀ text ∈ el.text, text ≠ "" ∧ '\n' ∉ text.toList)
      (hbelow : LaidOut (level + 1) el.children below) (hafter : LaidOut level rest after) :
      LaidOut level (el :: rest)
        ((tabs level ++ (heading el false ++ inlineText el.text)) :: (below ++ after))
  | block {level : Nat} {el : Element} {rest : List Element} {text : String}
      {after : List (List Char)} (hel : Writable el) (htext : el.text = some text) (hne : text ≠ "")
      (hchildren : el.children = []) (hkeeps : ∀ line ∈ Text.lines text.toList, KeepsIndent line)
      (hafter : LaidOut level rest after) :
      LaidOut level (el :: rest)
        ((tabs level ++ heading el true) :: (blockLines (level + 1) text ++ after))

/-- Text goes on the line of its tag, or below it if there are no children. -/
def Fits (el : Element) : Prop := ∀ text ∈ el.text, text ≠ "" ∧
  ('\n' ∉ text.toList ∨ el.children = [] ∧ ∀ line ∈ Text.lines text.toList, KeepsIndent line)

/-- Which forests have a layout does not depend on the level. -/
theorem exists_laidOut_iff (level : Nat) (els : List Element) : (∃ lines, LaidOut level els lines) ↔
    ∀ el ∈ Element.nodesOf els, Writable el ∧ Fits el := by
  constructor
  · rintro ⟨lines, h⟩
    induction h with
    | nil => simp
    | inline hel htext _ _ ihbelow ihafter =>
      rw [Element.nodesOf_cons, List.forall_mem_cons, List.forall_mem_append]
      refine ⟨⟨hel, fun text hmem => ?_⟩, ihbelow, ihafter⟩
      exact ⟨(htext text hmem).1, .inl (htext text hmem).2⟩
    | block hel htext hne hchildren hkeeps _ ihafter =>
      rw [Element.nodesOf_cons, List.forall_mem_cons, List.forall_mem_append, hchildren]
      refine ⟨⟨hel, fun own hmem => ?_⟩, by simp, ihafter⟩
      obtain rfl := Option.some.inj (htext.symm.trans hmem)
      exact ⟨hne, .inr ⟨hchildren, hkeeps⟩⟩
  · intro h
    induction els using Element.forest_induction generalizing level with
    | nil => exact ⟨[], .nil level⟩
    | cons el rest ihbelow ihafter =>
      rw [Element.nodesOf_cons, List.forall_mem_cons, List.forall_mem_append] at h
      obtain ⟨⟨hel, hfits⟩, hchildren, hrest⟩ := h
      obtain ⟨below, hbelow⟩ := ihbelow (level + 1) hchildren
      obtain ⟨after, hafter⟩ := ihafter level hrest
      by_cases hline : ∀ text ∈ el.text, '\n' ∉ text.toList
      · have htext : ∀ text ∈ el.text, text ≠ "" ∧ '\n' ∉ text.toList := fun text hmem =>
          ⟨(hfits text hmem).1, hline text hmem⟩
        exact ⟨_, .inline hel htext hbelow hafter⟩
      · simp only [not_forall] at hline
        obtain ⟨text, hmem, hline⟩ := hline
        obtain ⟨hne, hfits⟩ := hfits text hmem
        obtain ⟨hnone, hkeeps⟩ := hfits.resolve_left hline
        exact ⟨_, .block hel hmem hne hnone hkeeps hafter⟩

section heading

variable {level : Nat} {el : Element} {block : Bool} {text more : List Char} {s : Scanner}

theorem findIdx?_tabs {c : Char} (hc : isNameChar c) (cs : List Char) :
    (tabs level ++ c :: cs).findIdx? isNameChar = some level := by
  induction level with
  | zero => simp [tabs, List.findIdx?_cons, hc]
  | succ level ih =>
    have htab : isNameChar '\t' = false := by decide
    change (('\t' :: tabs level) ++ c :: cs).findIdx? isNameChar = _
    simp [List.findIdx?_cons, htab, ih]

theorem takeWhile_tabs (cs : List Char) :
    (tabs level ++ cs).takeWhile isIndent = tabs level ++ cs.takeWhile isIndent :=
  List.takeWhile_append_of_pos fun c hc => by
    obtain rfl := List.eq_of_mem_replicate hc
    rfl

theorem exists_heading (h : Writable el) (block : Bool) : ∃ c cs, heading el block = c :: cs ∧
    isNameChar c ∧ isIndent c = false := by
  cases htag : el.tag.toList with
  | nil => exact absurd (String.toList_eq_nil_iff.mp htag) h.tag_ne
  | cons c cs =>
    have hc := List.all_eq_true.mp h.tag c (by simp [htag])
    have hcons : heading el block = c :: (cs ++ (spanTokens el block).flatten) := by
      rw [heading, htag]
      rfl
    exact ⟨c, _, hcons, hc, isIndent_of_isNameChar hc⟩

/-- The line of a heading has a name behind as many tabs as its level. -/
theorem line_heading (h : Writable el) (text : List Char) (htext : '\n' ∉ text)
    (hrest : s.rest = (tabs level ++ (heading el block ++ text)) ++ '\n' :: more) :
    s.line = tabs level ++ (heading el block ++ text) ∧
      s.line.findIdx? isNameChar = some level ∧ s.depth = level := by
  have hline : s.line = tabs level ++ (heading el block ++ text) := by
    refine Scanner.line_of_rest ?_ hrest
    have htabs : '\n' ∉ tabs level := by simp [tabs]
    simp [htabs, newline_notMem_heading h, htext]
  obtain ⟨c, cs, hcs, hname, hindent⟩ := exists_heading h block
  rw [Scanner.depth, hline, hcs, List.cons_append]
  refine ⟨rfl, findIdx?_tabs hname _, ?_⟩
  rw [takeWhile_tabs, List.takeWhile_cons_of_neg (by simp [hindent])]
  simp [tabs]

theorem takeWhile_tokens {tokens : List (List Char)} (h : ∀ token ∈ tokens, Nesting.IsToken token)
    {c : Char} (hc : isSpanEnd c) (cs : List Char) :
    (tokens.flatten ++ c :: cs).takeWhile isNameChar = [] := by
  cases tokens with
  | nil =>
    simp only [isSpanEnd, Bool.or_eq_true, beq_iff_eq] at hc
    rcases hc with rfl | rfl <;> rfl
  | cons token tokens =>
    obtain ⟨-, ⟨mark, tail, rfl, hmark, -⟩, -⟩ := h token (by simp)
    simp only [isMark, Bool.or_eq_true, beq_iff_eq] at hmark
    rcases hmark with (rfl | rfl) | rfl <;> rfl

/-- The name stops before a modifier, and the span before the text. -/
theorem readEntry_heading (h : Writable el) (text : List Char) (htext : '\n' ∉ text)
    (hblank : ∀ c ∈ text.head?, c = ' ')
    (hrest : s.rest = (tabs level ++ (heading el block ++ text)) ++ '\n' :: more) :
    ∃ s', s.readEntry level level =
        .ok (Entry.ofSpan level el.tag.toList (spanTokens el block).flatten s') ∧
      s'.line = text ∧ s'.rest = text ++ '\n' :: more ∧ s'.nextLine = s.nextLine := by
  obtain ⟨c, cs, hcs, hend⟩ : ∃ c cs, text ++ '\n' :: more = c :: cs ∧ isSpanEnd c := by
    cases text with
    | nil => exact ⟨_, _, rfl, rfl⟩
    | cons c text =>
      obtain rfl := hblank c rfl
      exact ⟨_, _, rfl, rfl⟩
  have htokens := isToken_of_mem_spanTokens h block
  have hdrop : s.rest.drop level = el.tag.toList ++ ((spanTokens el block).flatten ++ c :: cs) := by
    simp [hrest, heading, tabs, ← hcs]
  have hname : (s.rest.drop level).takeWhile isNameChar = el.tag.toList := by
    rw [hdrop, List.takeWhile_append_of_pos (List.all_eq_true.mp h.tag),
      takeWhile_tokens htokens hend, List.append_nil]
  have hspan : s.rest.drop (level + el.tag.toList.length) =
      (spanTokens el block).flatten ++ c :: cs := by
    rw [← List.drop_drop, hdrop, List.drop_left]
  have hread : s.readEntry level level = .ok (Entry.ofSpan level el.tag.toList
      (spanTokens el block).flatten (s.skip (level + (heading el block).length))) := by
    rw [Scanner.readEntry, Scanner.takeWhile, Scanner.rest_skip, hname, Scanner.skip_skip]
    simp only [Scanner.takeSpan, Scanner.rest_skip, hspan, Nesting.spanLength?_flatten htokens hend,
      List.take_left, Scanner.skip_skip, bind, Except.bind]
    rw [heading, List.length_append, Nat.add_assoc]
  have hrest' : (s.skip (level + (heading el block).length)).rest = text ++ '\n' :: more := by
    rw [Scanner.rest_skip, heading, List.length_append, ← Nat.add_assoc, ← List.drop_drop, hspan,
      List.drop_left, hcs]
  have hline' := Scanner.line_of_rest htext hrest'
  refine ⟨_, hread, hline', hrest', ?_⟩
  obtain ⟨hline, -, -⟩ := line_heading h text htext hrest
  rw [Scanner.nextLine_eq (by rw [hline', hrest']), Scanner.nextLine_eq (by rw [hline, hrest]),
    Scanner.skip_skip, hline, hline']
  congr 1
  simp [tabs]
  omega

theorem ofSpan_inline (h : Writable el) (htext : nonempty (Text.unlines s.afterBlank) = el.text) :
    Entry.ofSpan level el.tag.toList (spanTokens el false).flatten s =
      ⟨el.withChildren [], false, s.nextLine⟩ := by
  have hvoid := h.void
  simp only [Entry.ofSpan, ofSpan_flatten h, Bool.false_eq_true, if_false, htext,
    String.ofList_toList]
  cases el
  subst hvoid
  rfl

theorem ofSpan_block (h : Writable el) (hchildren : el.children = [])
    (htext : nonempty (Text.unlines ((s.afterBlank ++ s.deeperLines level).map
      (unindent (level + 1)))) = el.text) :
    Entry.ofSpan level el.tag.toList (spanTokens el true).flatten s =
      ⟨el, true, s.nextLine.skipLines (s.deeperLines level).length⟩ := by
  have hvoid := h.void
  simp only [Entry.ofSpan, ofSpan_flatten h, if_true, htext, String.ofList_toList]
  cases el
  subst hvoid hchildren
  rfl

/-- An element with its text on the line is read as written, with no children yet. -/
theorem readEntry_inline (h : Writable el)
    (htext : ∀ text ∈ el.text, text ≠ "" ∧ '\n' ∉ text.toList)
    (hrest : s.rest = (tabs level ++ (heading el false ++ inlineText el.text)) ++ '\n' :: more) :
    s.readEntry level level = .ok ⟨el.withChildren [], false, s.nextLine⟩ := by
  have hblank : ∀ c ∈ (inlineText el.text).head?, c = ' ' := by
    cases el.text <;> simp [inlineText, eq_comm]
  obtain ⟨s', hread, hline', -, hnext⟩ :=
    readEntry_heading h _ (newline_notMem_inlineText htext) hblank hrest
  rw [hread, ofSpan_inline h, hnext]
  rw [Scanner.afterBlank, hline']
  cases heq : el.text with
  | none => rfl
  | some text => simp [inlineText, Text.unlines, Text.joinWith, nonempty, (htext text heq).1]

theorem leadingTabs_tabs (cs : List Char) :
    leadingTabs (tabs level ++ cs) = level + leadingTabs cs := by
  rw [leadingTabs, List.takeWhile_append_of_pos fun c hc => by
    obtain rfl := List.eq_of_mem_replicate hc
    rfl]
  simp [tabs, leadingTabs]

theorem unindent_tabs (cs : List Char) : unindent level (tabs level ++ cs) = cs := by
  rw [unindent, leadingTabs_tabs, Nat.min_eq_left (by omega)]
  exact List.drop_left' (by simp [tabs])

theorem deeper_of_mem_blockLines {text : String} :
    ∀ line ∈ blockLines (level + 1) text, '\n' ∉ line ∧ level < leadingTabs line := by
  rintro _ hline
  obtain ⟨own, hown, rfl⟩ := List.mem_map.mp hline
  rw [leadingTabs_tabs]
  exact ⟨by simp [tabs, Text.not_mem_of_mem_fields hown], by omega⟩

theorem unindent_blockLines (level : Nat) (text : String) :
    (blockLines level text).map (unindent level) = Text.lines text.toList := by
  rw [blockLines, List.map_map]
  exact List.map_id'' unindent_tabs _

/-- An element with its text below is read with all lines of the text and no further one. -/
theorem readEntry_block {text : String} (h : Writable el) (htext : el.text = some text)
    (hne : text ≠ "") (hchildren : el.children = []) (hs : s.EndsLine)
    (hrest : s.rest = (tabs level ++ heading el true) ++ '\n' ::
      (closed (blockLines (level + 1) text) ++ more))
    (hmore : (Text.lines more).takeWhile (level < leadingTabs ·) = []) :
    s.readEntry level level =
      .ok ⟨el, true, s.nextLine.skip (closed (blockLines (level + 1) text)).length⟩ := by
  obtain ⟨s', hread, hline', hrest', hnext⟩ :=
    readEntry_heading h [] (by simp) (by simp) (by rw [hrest, List.append_nil])
  have hdeeper : s'.deeperLines level = blockLines (level + 1) text := by
    have hnextRest := Scanner.rest_nextLine (by rw [hline', hrest'])
    rw [Scanner.deeperLines, hnextRest,
      lines_closed_append fun line hline => (deeper_of_mem_blockLines line hline).1,
      List.takeWhile_append_of_pos fun line hline => by
        simpa using (deeper_of_mem_blockLines line hline).2, hmore, List.append_nil]
  obtain ⟨-, -, -, hskip⟩ := exists_deeper level _ s'.nextLine rfl (hnext ▸ hs.nextLine)
  change s'.nextLine.skipLines (s'.deeperLines level).length =
    s'.nextLine.skip (closed (s'.deeperLines level)).length at hskip
  rw [hread, ofSpan_block h hchildren, hskip, hdeeper, hnext]
  rw [Scanner.afterBlank, hline', hdeeper, htext]
  simp [unindent_blockLines, Text.lines, Text.unlines, Text.joinWith_fields, nonempty, hne]

end heading

section siblings

variable {level : Nat} {els : List Element} {lines : List (List Char)} {tail : List Char}
  {s : Scanner}

theorem leadingTabs_le_depth (s : Scanner) : leadingTabs s.line ≤ s.depth :=
  leadingTabs_le_count s.line

/-- A line that ends a level ends the text blocks of the level too. -/
theorem takeWhile_of_ends (h : s.Ends (level + 1)) :
    (Text.lines s.rest).takeWhile (level < leadingTabs ·) = [] := by
  rcases h with hend | ⟨column, hname, hdepth⟩
  · simp [hend, Text.lines, Text.fields, leadingTabs]
  · have hshallow : ¬ level < leadingTabs s.line := by
      have := leadingTabs_le_depth s
      omega
    have hlines : ∃ more, Text.lines s.rest = s.line :: more := by
      rcases s.rest_eq_line with hrest | ⟨more, hrest⟩
      · exact ⟨[], by rw [hrest]; exact Text.fields_of_not_mem s.not_mem_line⟩
      · exact ⟨_, by rw [hrest]; exact Text.fields_append_cons s.not_mem_line _⟩
    obtain ⟨more, hlines⟩ := hlines
    rw [hlines, List.takeWhile_cons_of_neg (by simpa using hshallow)]

/-- The next line of a level ends what is below the element before it. -/
theorem LaidOut.ends (h : LaidOut level els lines) (hrest : s.rest = closed lines ++ tail)
    (hends : (s.skip (closed lines).length).Ends level) : s.Ends (level + 1) := by
  cases h with
  | nil =>
    rcases hends with hend | ⟨column, hname, hdepth⟩
    · exact .inl hend
    · exact .inr ⟨column, hname, Nat.lt_succ_of_lt hdepth⟩
  | inline hel htext _ _ =>
    rw [closed_cons, List.append_assoc] at hrest
    obtain ⟨-, hname, hdepth⟩ := line_heading hel _ (newline_notMem_inlineText htext) hrest
    exact .inr ⟨level, hname, by omega⟩
  | block hel =>
    rw [closed_cons, List.append_assoc] at hrest
    obtain ⟨-, hname, hdepth⟩ :=
      line_heading hel [] (by simp) (by rw [hrest, List.append_nil]; rfl)
    exact .inr ⟨level, hname, by omega⟩

/-- Where the lines below a first line and the lines after those begin. -/
theorem skip_closed {line : List Char} {below after : List (List Char)} (hline : s.line = line)
    (hrest : s.rest = line ++ '\n' :: (closed below ++ (closed after ++ tail))) :
    s.nextLine.rest = closed below ++ (closed after ++ tail) ∧
      (s.nextLine.skip (closed below).length).rest = closed after ++ tail ∧
      s.skip (closed (line :: (below ++ after))).length =
        (s.nextLine.skip (closed below).length).skip (closed after).length := by
  have hown : s.rest = s.line ++ '\n' :: (closed below ++ (closed after ++ tail)) := by
    rw [hrest, hline]
  have hnext := Scanner.rest_nextLine hown
  refine ⟨hnext, by rw [Scanner.rest_skip, hnext, List.drop_left], ?_⟩
  rw [Scanner.nextLine_eq hown, Scanner.skip_skip, Scanner.skip_skip, hline, closed_cons,
    closed_append]
  congr 1
  simp
  omega

/-- Elements laid out at a level are read back, up to the line that ends the level. -/
theorem readSiblings_laidOut (h : LaidOut level els lines) {fuel : Nat} (hs : s.EndsLine)
    (hrest : s.rest = closed lines ++ tail) (hends : (s.skip (closed lines).length).Ends level)
    (hfuel : s.rest.length < fuel) :
    readSiblings fuel level s = .ok (els, s.skip (closed lines).length) := by
  induction h generalizing s fuel tail with
  | nil level =>
    obtain ⟨fuel, rfl⟩ : ∃ f, fuel = f + 1 := ⟨fuel - 1, by omega⟩
    rcases hends with hend | ⟨column, hname, hdepth⟩
    · replace hend : s.rest = [] := hend
      simp [readSiblings, hend, findTag, closed]
    · exact readSiblings_of_shallow fuel hname hdepth
  | @inline level el rest below after hel htext hbelow hafter ihbelow ihafter =>
    replace hrest : s.rest = (tabs level ++ (heading el false ++ inlineText el.text)) ++
        '\n' :: (closed below ++ (closed after ++ tail)) := by
      rw [hrest, closed_cons, closed_append]; simp
    obtain ⟨hline, hname, hdepth⟩ := line_heading hel _ (newline_notMem_inlineText htext) hrest
    have hlt := Scanner.rest_nextLine_lt (s := s) (by rw [hrest]; simp)
    obtain ⟨fuel, rfl⟩ : ∃ f, fuel = f + 2 := ⟨fuel - 2, by omega⟩
    obtain ⟨hnext, hmid, hlast⟩ := skip_closed hline hrest
    rw [hlast] at hends ⊢
    -- The first line of the siblings ends the children.
    have hbelow : readSiblings (fuel + 1) (level + 1) s.nextLine = _ :=
      ihbelow hs.nextLine hnext (hafter.ends hmid hends) (by omega)
    have hafter : readSiblings (fuel + 1) level (s.nextLine.skip (closed below).length) = _ :=
      ihafter (hs.nextLine.skip _) hmid hends (by rw [Scanner.rest_skip, List.length_drop]; omega)
    rw [readSiblings_of_entry fuel hs hname (by omega), readEntry_inline hel htext hrest]
    simp only [bind, Except.bind, Bool.false_eq_true, if_false, hbelow, hafter]
    change Except.ok ((el.withChildren []).withChildren el.children :: rest, _) = _
    rw [Element.withChildren_withChildren, Element.withChildren_children]
  | @block level el rest text after hel htext hne hchildren hkeeps hafter ihafter =>
    replace hrest : s.rest = (tabs level ++ heading el true) ++
        '\n' :: (closed (blockLines (level + 1) text) ++ (closed after ++ tail)) := by
      rw [hrest, closed_cons, closed_append]; simp
    obtain ⟨hline, hname, hdepth⟩ :=
      line_heading hel [] (by simp) (by rw [hrest, List.append_nil])
    rw [List.append_nil] at hline
    have hlt := Scanner.rest_nextLine_lt (s := s) (by rw [hrest]; simp)
    obtain ⟨fuel, rfl⟩ : ∃ f, fuel = f + 2 := ⟨fuel - 2, by omega⟩
    obtain ⟨hnext, hmid, hlast⟩ := skip_closed hline hrest
    rw [hlast] at hends ⊢
    -- The first line of the siblings ends the text.
    have hstop := takeWhile_of_ends (hafter.ends hmid hends)
    have hafter : readSiblings (fuel + 1) level
        (s.nextLine.skip (closed (blockLines (level + 1) text)).length) = _ :=
      ihafter (hs.nextLine.skip _) hmid hends (by rw [Scanner.rest_skip, List.length_drop]; omega)
    rw [hmid] at hstop
    rw [readSiblings_of_entry fuel hs hname (by omega),
      readEntry_block hel htext hne hchildren hs hrest hstop]
    simp only [bind, Except.bind, if_true, hafter]
    change Except.ok (el.withChildren [] :: rest, _) = _
    rw [← hchildren, Element.withChildren_children]

end siblings

theorem keepsIndent_tabs {level : Nat} {cs : List Char} (h : KeepsIndent cs) :
    KeepsIndent (tabs level ++ cs) := by
  rw [KeepsIndent, takeWhile_tabs]
  induction level with
  | zero => exact h
  | succ level ih =>
    change ¬ _ <:+: '\t' :: (tabs level ++ cs.takeWhile isIndent)
    rw [List.infix_cons_iff, not_or]
    exact ⟨by simp [List.replicate, List.cons_prefix_cons], ih⟩

theorem keepsIndent_heading {el : Element} (h : Writable el) (block : Bool) (text : List Char) :
    KeepsIndent (heading el block ++ text) := by
  obtain ⟨c, cs, hcs, -, hindent⟩ := exists_heading h block
  rw [hcs, KeepsIndent, List.cons_append, List.takeWhile_cons_of_neg (by simp [hindent])]
  decide

/-- No line of a layout is empty, and normalizing changes none. -/
theorem LaidOut.keepsIndent {level : Nat} {els : List Element} {lines : List (List Char)}
    (h : LaidOut level els lines) :
    ∀ line ∈ lines, line ≠ [] ∧ '\n' ∉ line ∧ KeepsIndent line := by
  induction h with
  | nil => simp
  | @inline level el rest below after hel htext _ _ ihbelow ihafter =>
    refine List.forall_mem_cons.mpr ⟨⟨?_, ?_, keepsIndent_tabs (keepsIndent_heading hel _ _)⟩,
      List.forall_mem_append.mpr ⟨ihbelow, ihafter⟩⟩
    · obtain ⟨c, cs, hcs, -⟩ := exists_heading hel false
      simp [hcs]
    · simp [tabs, newline_notMem_heading hel, newline_notMem_inlineText htext]
  | @block level el rest text after hel htext _ _ hkeeps _ ihafter =>
    refine List.forall_mem_cons.mpr ⟨⟨?_, ?_, ?_⟩, List.forall_mem_append.mpr ⟨?_, ihafter⟩⟩
    · obtain ⟨c, cs, hcs, -⟩ := exists_heading hel true
      simp [hcs]
    · simp [tabs, newline_notMem_heading hel]
    · have := keepsIndent_heading hel true []
      rw [List.append_nil] at this
      exact keepsIndent_tabs this
    · intro line hline
      obtain ⟨hnewline, hdeeper⟩ := deeper_of_mem_blockLines line hline
      obtain ⟨own, hown, rfl⟩ := List.mem_map.mp hline
      exact ⟨fun hnil => by simp [hnil, leadingTabs] at hdeeper, hnewline,
        keepsIndent_tabs (hkeeps own hown)⟩

/-- A forest is read back from any layout of it, with or without the end of its last line. -/
theorem read_laidOut {els : List Element} {lines : List (List Char)} {source : List Char}
    (h : LaidOut 0 els lines) (hsource : source = Text.unlines lines ∨ source = closed lines)
    (hreturn : '\r' ∉ source) :
    read source 0 0 = .ok (els, (normalize source).length) := by
  by_cases hne : lines = []
  · subst hne
    cases h
    rcases hsource with rfl | rfl <;> rfl
  have hlines := h.keepsIndent
  have hnormal : normalize source = closed lines := by
    rcases hsource with rfl | rfl
    · exact normalize_unlines hne hreturn (fun line hline => (hlines line hline).2)
        fun line hline => (hlines line hline).1
    · exact normalize_closed hne hreturn fun line hline => (hlines line hline).2
  let s : Scanner := { text := normalize source, pos := 0 }
  have hrest : s.rest = closed lines ++ [] := by rw [List.append_nil]; exact hnormal
  have hend : (s.skip (closed lines).length).rest = [] := by
    rw [Scanner.rest_skip, hrest, List.append_nil, List.drop_length]
  have hread := readSiblings_laidOut h (endsLine_normalize source 0) hrest (.inl hend)
    (Nat.lt_succ_self _)
  rw [read, readForest, hread, hnormal]
  simp [bind, Except.bind, Scanner.skip]

/-- Brackets and commas in quotes and the empty line of a block are read back. -/
theorem read_laidOut_card :
    let source :=
      "card.wide#main(open, href=\"a, (b\")\n\tp.\n\t\tone\n\t\t\n\t\t  two\n\tb bold\n".toList
    read source 0 0 =
      .ok ([{ tag := "card", classes := ["wide"], id := some "main",
              attributes := [("open", none), ("href", some "\"a, (b\"")],
              children := [{ tag := "p", text := some "one\n\n  two" },
                { tag := "b", text := some "bold" }] }], (normalize source).length) := by
  refine read_laidOut (.inline ?card ?_ (.block ?p rfl ?_ rfl ?_
    (.inline ?b ?_ (.nil _) (.nil _))) (.nil _)) (.inr ?_) ?_
  case card => constructor <;> decide
  case p => constructor <;> decide
  case b => constructor <;> decide
  all_goals decide

end Pagewright.Outline
