import Pagewright.Proofs.Outline.Nodes
import Pagewright.Proofs.Outline.Origin
import Pagewright.Proofs.Outline.Sections

/-! Where the reading of an outline fails. It fails at the first heading whose modifiers never end,
and what stands before its line can be read by itself. -/
namespace Pagewright.Outline

/-- Where a blank or a line end stands in a text, it is quoted, or more brackets were opened than
closed since the text began. -/
def NeverFree (cs : List Char) : Prop := ∀ i c, cs[i]? = some c → c = ' ' ∨ c = '\n' →
  (Nesting.after {} (cs.take i)).quoted = true ∨ 0 < (Nesting.after {} (cs.take i)).depth

theorem Nesting.quoted_or_nested_of_none {n : Nesting} {cs : List Char}
    (h : n.spanLength? cs = none) {i : Nat} {c : Char} (hi : cs[i]? = some c)
    (hc : c = ' ' ∨ c = '\n') :
    (n.after (cs.take i)).quoted = true ∨ 0 < (n.after (cs.take i)).depth := by
  by_contra hfree
  obtain ⟨hquoted, hdepth⟩ := not_or.mp hfree
  have hends : n.EndsAt cs i := by
    refine ⟨⟨c, hi, by simpa [isSpanEnd] using hc⟩, ?_, ?_⟩
    · simpa using hquoted
    · omega
  exact spanLength?_eq_none_iff.mp h i hends

section start

variable {s : Scanner}

namespace Scanner

/-- A line of the text begins here. -/
def StartsLine (s : Scanner) : Prop := EndsLines (s.text.take s.pos)

theorem startsLine_nextLine (hs : s.EndsLine) (hne : s.rest ≠ []) : s.nextLine.StartsLine := by
  obtain ⟨more, hmore⟩ := hs.rest_eq hne
  have hpassed : s.rest.take (s.line.length + 1) = s.line ++ ['\n'] := by
    rw [hmore, List.append_cons]
    apply List.take_left'
    simp
  have htake : s.text.take (s.pos + (s.line.length + 1)) =
      s.text.take s.pos ++ s.line ++ ['\n'] := by
    rw [List.take_add, ← s.rest_eq, hpassed, List.append_assoc]
  rw [nextLine_eq hmore]
  right
  change (s.text.take (s.pos + (s.line.length + 1))).getLast? = some '\n'
  rw [htake, List.getLast?_concat]

theorem StartsLine.skipLines (h : s.StartsLine) (hs : s.EndsLine) (n : Nat) :
    (s.skipLines n).StartsLine := by
  induction n generalizing s with
  | zero => exact h
  | succ n ih =>
    unfold Scanner.skipLines
    apply ih _ hs.nextLine
    by_cases hne : s.rest = []
    · rw [nextLine, hne, List.length_nil, Nat.min_zero, skip_zero]
      exact h
    · exact startsLine_nextLine hs hne

theorem startsLine_readEntry (hs : s.EndsLine) {column level : Nat} {entry : Entry}
    (hentry : s.readEntry column level = .ok entry) : entry.next.StartsLine := by
  obtain ⟨span, t, -, rfl, ht, hne⟩ := exists_span_of_readEntry hs hentry
  exact (startsLine_nextLine ht hne).skipLines ht.nextLine _

theorem pos_lt_nextLine (hne : s.rest ≠ []) : s.pos < s.nextLine.pos := by
  have hlength := List.length_pos_iff.mpr hne
  have hpos : s.nextLine.pos = s.pos + min (s.line.length + 1) s.rest.length := rfl
  omega

theorem pos_le_skipLines (n : Nat) (s : Scanner) : s.pos ≤ (s.skipLines n).pos := by
  obtain ⟨m, hm⟩ := exists_skipLines n s
  rw [hm]
  exact Nat.le_add_right s.pos m

end Scanner

end start

section cut

variable {s : Scanner} {back : List Char}

namespace Scanner

/-- A block that ends before the text behind is the same without this text. -/
theorem deeperLines_of_before {level : Nat} (h : s.Within) (hs : s.EndsLine) (hne : s.rest ≠ [])
    (hends : (s.before back).EndsLine)
    (hle : ((s.before back).nextLine.skipLines ((s.before back).deeperLines level).length).pos ≤
      s.text.length) :
    (s.before back).deeperLines level = s.deeperLines level := by
  obtain ⟨lines, hlines, hnewline⟩ := EndsLines.exists_closed hs.nextLine
  have hnext := (line_before h hs hne back).2
  have hrun : (s.before back).deeperLines level =
      (lines ++ Text.lines back).takeWhile (level < leadingTabs ·) := by
    rw [deeperLines, hnext, rest_before h.nextLine, hlines, lines_closed_append hnewline]
  obtain ⟨-, -, -, hskip⟩ := exists_deeper level _ (s.before back).nextLine rfl hends.nextLine
  change (s.before back).nextLine.skipLines ((s.before back).deeperLines level).length =
    (s.before back).nextLine.skip (closed ((s.before back).deeperLines level)).length at hskip
  have hlength : (closed ((s.before back).deeperLines level)).length ≤ (closed lines).length := by
    have hwithin := h.nextLine.length_rest
    have htext : s.nextLine.text = s.text := rfl
    rw [hlines, htext] at hwithin
    rw [hskip, hnext] at hle
    change s.nextLine.pos + _ ≤ _ at hle
    omega
  rw [deeperLines_of_closed level hnewline hlines, hrun]
  rw [hrun] at hlength
  rw [List.takeWhile_append] at hlength ⊢
  split at hlength
  next hall =>
    -- Lines of the text behind would make the block too long.
    have hself := (List.takeWhile_prefix (level < leadingTabs ·)).eq_of_length hall
    have hnone : (Text.lines back).takeWhile (level < leadingTabs ·) = [] := by
      by_contra hsome
      obtain ⟨line, more, hcons⟩ := List.exists_cons_of_ne_nil hsome
      rw [hcons, closed_append, closed_cons] at hlength
      simp only [List.length_append, List.length_cons] at hlength
      omega
    rw [if_pos hall, hnone, List.append_nil, hself]
  next hsome => rw [if_neg hsome]

theorem takeSpan_of_before {span : List Char} {t : Scanner} (h : s.Within)
    (hspan : (s.before back).takeSpan = .ok (span, t)) (hlt : t.pos < s.text.length) :
    ∃ t', s.takeSpan = .ok (span, t') ∧ t = t'.before back := by
  have hlength := h.length_rest
  unfold takeSpan at hspan ⊢
  rw [rest_before h] at hspan
  split at hspan
  next n hn =>
    cases hspan
    have hle : n < s.rest.length := by
      change s.pos + n < s.text.length at hlt
      omega
    have hn' : Nesting.spanLength? {} s.rest = some n := by
      apply Nesting.spanLength?_congr hn
      exact (List.take_append_of_le_length hle).symm
    have htake : (s.rest ++ back).take n = s.rest.take n :=
      List.take_append_of_le_length (Nat.le_of_lt hle)
    rw [hn', htake]
    exact ⟨s.skip n, rfl, skip_before s back n⟩
  next => cases hspan

/-- An entry that ends before the text behind is read without this text as well. -/
theorem readEntry_of_before {column level : Nat} {entry : Entry} (h : s.Within) (hs : s.EndsLine)
    (hends : (s.before back).EndsLine) (hname : s.line.findIdx? isNameChar = some column)
    (hentry : (s.before back).readEntry column level = .ok entry)
    (hle : entry.next.pos ≤ s.text.length) :
    ∃ entry', s.readEntry column level = .ok entry' ∧ entry = entry'.before back := by
  obtain ⟨span, t, hspan, rfl, ht, htne⟩ := exists_span_of_readEntry hends hentry
  have hwithin := h.skip_column hname
  have hne := rest_skip_ne_nil hname
  have hwhole := takeWhile_before hwithin (hs.skip column) hne (p := isNameChar) rfl back
  rw [← skip_before] at hwhole
  have htag : ((s.skip column).takeWhile isNameChar).2.Within :=
    hwithin.skip (List.takeWhile_prefix _).length_le
  have hlt : t.pos < s.text.length := by
    have hnext := pos_lt_nextLine htne
    have hskip := pos_le_skipLines (if (Modifiers.ofSpan span).textBlock then
      t.deeperLines level else []).length t.nextLine
    change (t.nextLine.skipLines _).pos ≤ s.text.length at hle
    omega
  rw [hwhole] at hspan
  obtain ⟨t', hspan', rfl⟩ := takeSpan_of_before htag hspan hlt
  have htagEnds : ((s.skip column).takeWhile isNameChar).2.EndsLine := (hs.skip column).skip _
  obtain ⟨htends', htne'⟩ := htagEnds.takeSpan hspan'
  have hwithin' : t'.Within := htag.takeSpan hspan'
  refine ⟨_, readEntry_of_takeSpan level hspan', ?_⟩
  rw [hwhole]
  apply Entry.ofSpan_before_of_deeper level _ span hwithin' htends' htne'
  intro hblock
  apply deeperLines_of_before hwithin' htends' htne' ht
  obtain ⟨⟨n, hn⟩, -⟩ := takeSpan_eq_ok hspan'
  have htext : t'.text = s.text := by
    rw [hn]
    rfl
  unfold Entry.ofSpan at hle
  dsimp only at hle
  rw [hblock, if_pos rfl] at hle
  rwa [htext]

/-- The same place in a text that is cut off. -/
def cut (s : Scanner) (length : Nat) : Scanner where
  text := s.text.take length
  pos := s.pos

theorem cut_before (s : Scanner) (length : Nat) :
    (s.cut length).before (s.text.drop length) = s := by
  apply Scanner.ext
  · exact List.take_append_drop length s.text
  · rfl

theorem within_cut {length : Nat} (hle : s.pos ≤ length) (hlength : length ≤ s.text.length) :
    (s.cut length).Within := by
  have htake : (s.text.take length).length = length := List.length_take_of_le hlength
  unfold Within cut
  dsimp only
  omega

theorem endsLine_cut {length : Nat} (h : EndsLines (s.text.take length)) :
    (s.cut length).EndsLine := by
  have hstart : ({ text := s.text.take length } : Scanner).EndsLine := h
  have hskip : s.cut length = ({ text := s.text.take length } : Scanner).skip s.pos :=
    Scanner.ext rfl (Nat.zero_add s.pos).symm
  rw [hskip]
  exact hstart.skip s.pos

theorem rest_cut_ne_nil {length : Nat} (hlt : s.pos < length) (hlength : length ≤ s.text.length) :
    (s.cut length).rest ≠ [] := by
  intro hnil
  have hwithin := (within_cut (Nat.le_of_lt hlt) hlength).length_rest
  have htake : (s.text.take length).length = length := List.length_take_of_le hlength
  rw [hnil] at hwithin
  change s.pos + 0 = (s.text.take length).length at hwithin
  omega

/-- A line that ends before the cut is the same behind it. -/
theorem line_cut {length : Nat} (hlt : s.pos < length) (hlength : length ≤ s.text.length)
    (hends : EndsLines (s.text.take length)) :
    (s.cut length).line = s.line ∧ (s.cut length).nextLine = s.nextLine.cut length := by
  have hwithin := within_cut (Nat.le_of_lt hlt) hlength
  have hne := rest_cut_ne_nil hlt hlength
  obtain ⟨hline, hnext⟩ := line_before hwithin (endsLine_cut hends) hne (s.text.drop length)
  rw [cut_before] at hline hnext
  exact ⟨hline.symm, Scanner.ext rfl (congrArg Scanner.pos hnext).symm⟩

/-- An entry that ends before the cut is the same behind it. -/
theorem readEntry_cut {column level length : Nat} {entry : Entry} (hs : s.EndsLine)
    (hname : s.line.findIdx? isNameChar = some column)
    (hentry : s.readEntry column level = .ok entry) (hlt : s.pos < length)
    (hlength : length ≤ s.text.length) (hends : EndsLines (s.text.take length))
    (hle : entry.next.pos ≤ length) :
    (s.cut length).readEntry column level =
      .ok { entry with next := entry.next.cut length } := by
  have hwithin := within_cut (Nat.le_of_lt hlt) hlength
  have hline := (line_cut hlt hlength hends).1
  have htake : (s.cut length).text.length = length := List.length_take_of_le hlength
  have hwhole : (s.cut length).before (s.text.drop length) = s := cut_before s length
  have hbefore : ((s.cut length).before (s.text.drop length)).readEntry column level =
      .ok entry := by rwa [hwhole]
  obtain ⟨entry', hentry', rfl⟩ := readEntry_of_before hwithin (endsLine_cut hends)
    (by rwa [hwhole]) (by rwa [hline]) hbefore (by rwa [htake])
  obtain ⟨n, -, hnext⟩ := readEntry_next (by rwa [hline]) hentry'
  have htext : entry'.next.text = s.text.take length := by
    rw [hnext]
    rfl
  have hcut : (entry'.next.before (s.text.drop length)).cut length = entry'.next := by
    apply Scanner.ext
    · change (entry'.next.text ++ s.text.drop length).take length = entry'.next.text
      rw [htext, List.take_append_drop]
    · rfl
  rw [hentry']
  unfold Entry.before
  dsimp only
  rw [hcut]

end Scanner

end cut

section error

variable {top limit : Nat} {forest : List Element} {s : Scanner} {e : Unclosed}

/-- The heading at which a sweep fails. What stands before its line is swept to the end. -/
structure FailsAt (top limit : Nat) (forest : List Element) (s : Scanner) (e : Unclosed)
    (heading : Heading) : Prop where
  mem : heading ∈ headings top limit s
  text : heading.line.text = s.text
  within : heading.line.Within
  starts : heading.line.StartsLine
  named : heading.line.line.findIdx? isNameChar = some heading.column
  error : heading.line.readEntry heading.column heading.level = .error e
  le : s.pos ≤ heading.line.pos
  before : ∃ els t, sweep top limit forest (s.cut heading.line.pos) = .ok (els, t) ∧ t.rest = []

theorem mem_headings_self {column : Nat} (hname : s.line.findIdx? isNameChar = some column)
    (hdepth : ¬ s.depth < top) : ⟨s, column, min s.depth limit⟩ ∈ headings top limit s := by
  rw [headings, dif_neg (Scanner.takeWhile_name hname).1]
  split
  next heq => simp [hname] at heq
  next column' heq =>
    obtain rfl : column = column' := Option.some.inj (hname.symm.trans heq)
    rw [if_neg hdepth]
    exact List.mem_cons_self

theorem failsAt_self {column : Nat} (hs : s.Within) (hstart : s.StartsLine)
    (hname : s.line.findIdx? isNameChar = some column) (hdepth : ¬ s.depth < top)
    (herror : s.readEntry column (min s.depth limit) = .error e) :
    FailsAt top limit forest s e ⟨s, column, min s.depth limit⟩ where
  mem := mem_headings_self hname hdepth
  text := rfl
  within := hs
  starts := hstart
  named := hname
  error := herror
  le := Nat.le_refl s.pos
  before := by
    have hend : (s.cut s.pos).rest = [] := by
      unfold Scanner.cut
      simp
    exact ⟨forest, _, sweep_of_end hend, hend⟩

variable {heading : Heading}

theorem FailsAt.length_le (h : FailsAt top limit forest s e heading) :
    heading.line.pos ≤ s.text.length := by
  have hwithin := h.within
  unfold Scanner.Within at hwithin
  rwa [h.text] at hwithin

theorem FailsAt.endsLines (h : FailsAt top limit forest s e heading) :
    EndsLines (s.text.take heading.line.pos) := by
  have hstarts := h.starts
  unfold Scanner.StartsLine at hstarts
  rwa [h.text] at hstarts

theorem FailsAt.of_nextLine (hne : s.rest ≠ []) (hname : s.line.findIdx? isNameChar = none)
    (h : FailsAt top limit forest s.nextLine e heading) :
    FailsAt top limit forest s e heading := by
  have hlt : s.pos < heading.line.pos := Nat.lt_of_lt_of_le (Scanner.pos_lt_nextLine hne) h.le
  obtain ⟨hline, hnext⟩ := Scanner.line_cut hlt h.length_le h.endsLines
  constructor
  · rw [headings_of_no_name hne hname]
    exact h.mem
  · exact h.text
  · exact h.within
  · exact h.starts
  · exact h.named
  · exact h.error
  · exact Nat.le_of_lt hlt
  · rw [sweep_of_no_name (by rwa [hline]), hnext]
    exact h.before

theorem FailsAt.of_entry {column : Nat} {entry : Entry} (hs : s.EndsLine)
    (hname : s.line.findIdx? isNameChar = some column) (hdepth : ¬ s.depth < top)
    (hentry : s.readEntry column (min s.depth limit) = .ok entry)
    (h : FailsAt top (if entry.textBlock then min s.depth limit else min s.depth limit + 1)
      (attach entry.element (min s.depth limit - top) forest) entry.next e heading) :
    FailsAt top limit forest s e heading := by
  obtain ⟨n, hn, hnext⟩ := Scanner.readEntry_next hname hentry
  have htext : entry.next.text = s.text := by
    rw [hnext]
    rfl
  have hpos : entry.next.pos = s.pos + n := by
    rw [hnext]
    rfl
  have hle := h.le
  have hlength := h.length_le
  have hends := h.endsLines
  rw [htext] at hlength hends
  have hlt : s.pos < heading.line.pos := by omega
  obtain ⟨hline, -⟩ := Scanner.line_cut hlt hlength hends
  have hname' : (s.cut heading.line.pos).line.findIdx? isNameChar = some column := by rwa [hline]
  have hdepth' : (s.cut heading.line.pos).depth = s.depth := by
    rw [Scanner.depth, hline, Scanner.depth]
  have hentry' := Scanner.readEntry_cut hs hname hentry hlt hlength hends hle
  obtain ⟨els, t, hsweep, ht⟩ := h.before
  constructor
  · rw [headings_of_entry (Scanner.takeWhile_name hname).1 hname hdepth hentry]
    exact List.mem_cons_of_mem _ h.mem
  · rw [h.text, htext]
  · exact h.within
  · exact h.starts
  · exact h.named
  · exact h.error
  · exact Nat.le_of_lt hlt
  · refine ⟨els, t, ?_, ht⟩
    rw [sweep_of_name _ _ _ hname', hdepth', if_neg hdepth, hentry', ← hsweep]
    rfl

/-- A sweep fails at one of its headings. -/
theorem exists_failsAt (hs : s.EndsLine) (hwithin : s.Within) (hstart : s.StartsLine)
    (h : sweep top limit forest s = .error e) :
    ∃ heading, FailsAt top limit forest s e heading := by
  fun_induction sweep top limit forest s with
  | case1 => cases h
  | case2 limit forest s hne hname ih =>
    obtain ⟨heading, hheading⟩ := ih hs.nextLine hwithin.nextLine
      (Scanner.startsLine_nextLine hs hne) h
    exact ⟨heading, hheading.of_nextLine hne hname⟩
  | case3 => cases h
  | case4 limit forest s hne column hname hdepth level e' hentry =>
    cases h
    exact ⟨_, failsAt_self hwithin hstart hname hdepth hentry⟩
  | case5 limit forest s hne column hname hdepth level entry hentry ih =>
    obtain ⟨n, -, hn⟩ := Scanner.readEntry_next hname hentry
    obtain ⟨heading, hheading⟩ := ih (hn ▸ hs.skip n) (hwithin.readEntry hname hentry)
      (Scanner.startsLine_readEntry hs hentry) h
    exact ⟨heading, hheading.of_entry hs hname hdepth hentry⟩

end error

namespace Heading

def tag (h : Heading) : List Char := ((h.line.skip h.column).takeWhile isNameChar).1

def tagStart (h : Heading) : Nat := h.line.pos + h.column

def tagEnd (h : Heading) : Nat := h.tagStart + h.tag.length

end Heading

/-- The modifiers of a heading never end. The error tells where they begin; the line is also that
of the tag in the source, and what stands before the line of the heading can be read by itself. -/
structure IsUnclosed (source : List Char) (h : Heading) (e : Unclosed) : Prop where
  text : h.line.text = normalize source
  starts : EndsLines ((normalize source).take h.line.pos)
  named : h.line.line.findIdx? isNameChar = some h.column
  position : e.position = .ofOffset (normalize source) h.tagEnd
  neverFree : NeverFree ((normalize source).drop h.tagEnd)
  before : ∃ els stop, read ((normalize source).take h.line.pos) 0 0 = .ok (els, stop)
  origin : ∃ front back, Becomes source front back h.tagStart ∧
    back.takeWhile isNameChar = h.tag ∧ e.position.line = front.count '\n' + 1

section unclosed

variable {source : List Char} {s : Scanner} {e : Unclosed} {h : Heading}

theorem Scanner.readEntry_eq_error {column level : Nat} (h : s.readEntry column level = .error e) :
    Nesting.spanLength? {} ((s.skip column).takeWhile isNameChar).2.rest = none ∧
      e = ⟨.ofOffset s.text
        (s.pos + column + ((s.skip column).takeWhile isNameChar).1.length)⟩ := by
  unfold readEntry takeSpan at h
  dsimp only at h
  split at h
  · cases h
  next hnone =>
    cases h
    exact ⟨hnone, rfl⟩

/-- The tag of a heading begins where its name is found. -/
theorem Heading.exists_tag (htext : h.line.text = normalize source)
    (hname : h.line.line.findIdx? isNameChar = some h.column) :
    ∃ c more, (normalize source).drop h.tagStart = c :: more ∧ isNameChar c ∧
      ((normalize source).drop h.tagStart).takeWhile isNameChar = h.tag := by
  have hrest : (h.line.skip h.column).rest = (normalize source).drop h.tagStart := by
    rw [Scanner.rest_eq, ← htext]
    rfl
  have htag : ((normalize source).drop h.tagStart).takeWhile isNameChar = h.tag := by
    rw [← hrest]
    rfl
  obtain ⟨-, hlength⟩ := Scanner.takeWhile_name hname
  obtain ⟨c, more, hmore⟩ := List.exists_cons_of_ne_nil (Scanner.rest_skip_ne_nil hname)
  refine ⟨c, more, hrest ▸ hmore, ?_, htag⟩
  by_contra hc
  unfold Scanner.takeWhile at hlength
  rw [hmore, List.takeWhile_cons_of_neg hc] at hlength
  exact Nat.lt_irrefl 0 hlength

theorem Heading.exists_origin (htext : h.line.text = normalize source)
    (hname : h.line.line.findIdx? isNameChar = some h.column) :
    ∃ front back, Becomes source front back h.tagStart ∧ back.takeWhile isNameChar = h.tag := by
  obtain ⟨c, more, hmore, hc, htag⟩ := h.exists_tag htext hname
  have hline : c ≠ '\n' := by rintro rfl; exact absurd hc (by decide)
  have hreturn : c ≠ '\r' := by rintro rfl; exact absurd hc (by decide)
  obtain ⟨front, back, hbecomes⟩ := exists_becomes (isIndent_of_isNameChar hc) hline hreturn hmore
  refine ⟨front, c :: back, hbecomes, ?_⟩
  rw [← htag, hbecomes.takeWhile (by decide) (by decide)]

/-- The lines above are packed, so that normalizing them again loses nothing that is read. -/
theorem FailsAt.exists_read (hfails : FailsAt 0 0 [] (.ofSource source) e h) :
    ∃ els stop, read ((normalize source).take h.line.pos) 0 0 = .ok (els, stop) := by
  have hends : EndsLines ((normalize source).take h.line.pos) := hfails.endsLines
  obtain ⟨lines, hlines, hpacked⟩ := exists_closed_of_normalize hends
  obtain ⟨els, t, hsweep, hend⟩ := hfails.before
  have hstart : (Scanner.ofSource source).cut h.line.pos = { text := closed lines } :=
    Scanner.ext hlines rfl
  rw [hstart] at hsweep
  rw [hlines]
  exact exists_read_of_sweep hpacked hsweep hend

theorem FailsAt.isUnclosed (hfails : FailsAt 0 0 [] (.ofSource source) e h) :
    IsUnclosed source h e := by
  have htext : h.line.text = normalize source := hfails.text
  obtain ⟨hnone, hposition⟩ := Scanner.readEntry_eq_error hfails.error
  have hstands : e.position = .ofOffset (normalize source) h.tagEnd := by
    rw [hposition, htext]
    rfl
  have hrest : ((h.line.skip h.column).takeWhile isNameChar).2.rest =
      (normalize source).drop h.tagEnd := by
    rw [Scanner.rest_eq, ← htext]
    rfl
  obtain ⟨front, back, hbecomes, htag⟩ := h.exists_origin htext hfails.named
  constructor
  · exact htext
  · exact hfails.endsLines
  · exact hfails.named
  · exact hstands
  · rw [hrest] at hnone
    intro i c hi hc
    exact Nesting.quoted_or_nested_of_none hnone hi hc
  · exact hfails.exists_read
  · refine ⟨front, back, hbecomes, htag, ?_⟩
    rw [hstands, Heading.tagEnd, ← htag]
    exact hbecomes.line_behind (by decide) (by decide)

/-- Reading goes to the end of the text, or it fails at the first heading whose modifiers never
end. -/
theorem read_to_end_or_unclosed (source : List Char) :
    match read source 0 0 with
    | .ok (_, stop) => stop = (normalize source).length
    | .error e => ∃ h ∈ headingsOf source 0 0, IsUnclosed source h e := by
  cases hread : read source 0 0 with
  | ok result =>
    obtain ⟨els, stop⟩ := result
    exact stop_of_read hread
  | error e =>
    have hstart : (Scanner.ofSource source).StartsLine := .inl (List.take_zero ..)
    obtain ⟨h, hfails⟩ := exists_failsAt (Scanner.endsLine_ofSource source)
      (Scanner.within_ofSource source) hstart (read_eq_error_iff.mp hread)
    exact ⟨h, hfails.mem, hfails.isUnclosed⟩

example : read "div\np(a=1\nspan".toList 0 0 = .error ⟨2, 2⟩ := by rfl

end unclosed

end Pagewright.Outline
