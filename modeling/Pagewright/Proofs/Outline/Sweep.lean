import Pagewright.Proofs.Outline.Nesting
import Pagewright.Proofs.Outline.TextBlock

/-! An outline can be read in a single sweep: no line is looked at twice, and the forest grows at
its last branch. The recursive reader leaves a shallow line to each level that it ends. -/
namespace Pagewright.Outline

/-- Adds an element as the last child of the latest element above it. -/
def attach (el : Element) : (depth : Nat) → List Element → List Element
  | 0, els => els ++ [el]
  | depth + 1, els =>
    match els.getLast? with
    | none => []
    | some last => els.dropLast ++ [{ last with children := attach el depth last.children }]

def attachAll (depth : Nat) (els forest : List Element) : List Element :=
  els.foldl (fun forest el => attach el depth forest) forest

/-- An element without its children, and the line behind its own text. -/
structure Entry where
  element : Element
  textBlock : Bool
  next : Scanner

/-- The fields of an element come from its modifiers, the rest of the line and, for a text block,
the deeper lines below. -/
def Entry.ofSpan (level : Nat) (tag span : List Char) (s : Scanner) : Entry :=
  let modifiers := Modifiers.ofSpan span
  let below := if modifiers.textBlock then s.deeperLines level else []
  let lines :=
    if modifiers.textBlock then (s.afterBlank ++ below).map (unindent (level + 1))
    else s.afterBlank
  { element :=
      { tag := String.ofList tag
        attributes := modifiers.attributes
        classes := modifiers.classes
        id := modifiers.id
        text := nonempty (Text.unlines lines) }
    textBlock := modifiers.textBlock
    next := s.nextLine.skipLines below.length }

def Scanner.readEntry (s : Scanner) (column level : Nat) : Except Unclosed Entry := do
  let (tag, s) := (s.skip column).takeWhile isNameChar
  let (span, s) ← s.takeSpan
  .ok (Entry.ofSpan level tag span s)

namespace Scanner

theorem exists_skipLines (n : Nat) (s : Scanner) : ∃ m, s.skipLines n = s.skip m := by
  induction n generalizing s with
  | zero => exact ⟨0, by simp [skipLines]⟩
  | succ n ih =>
    obtain ⟨m, hm⟩ := ih s.nextLine
    exact ⟨_, by rw [skipLines, hm, nextLine, skip_skip]⟩

theorem takeWhile_name {s : Scanner} {column : Nat} (h : s.line.findIdx? isNameChar = some column) :
    s.rest ≠ [] ∧ 0 < ((s.skip column).takeWhile isNameChar).1.length := by
  obtain ⟨hlt, hname, -⟩ := List.findIdx?_eq_some_iff_getElem.mp h
  have hpre : s.line <+: s.rest := List.takeWhile_prefix _
  have hlt' : column < s.rest.length := Nat.lt_of_lt_of_le hlt hpre.length_le
  have hget : s.rest[column] = s.line[column] := (hpre.getElem hlt).symm
  refine ⟨List.ne_nil_of_length_pos (by omega), ?_⟩
  rw [takeWhile, rest_skip, List.drop_eq_getElem_cons hlt', hget, List.takeWhile_cons_of_pos hname]
  simp

/-- What stands at a name is not the end of the text. -/
theorem rest_skip_ne_nil {s : Scanner} {column : Nat}
    (h : s.line.findIdx? isNameChar = some column) : (s.skip column).rest ≠ [] := by
  intro hnil
  have hlength := (takeWhile_name h).2
  unfold takeWhile at hlength
  rw [hnil] at hlength
  simp at hlength

end Scanner

theorem Nesting.spanLength?_eq_some {n : Nesting} {cs : List Char} {k : Nat}
    (h : n.spanLength? cs = some k) :
    (cs.drop k).head? = some ' ' ∨ (cs.drop k).head? = some '\n' := by
  obtain ⟨⟨⟨c, hc, hend⟩, -⟩, -⟩ := spanLength?_eq_some_iff.mp h
  rw [List.head?_drop, hc]
  simpa [isSpanEnd] using hend

theorem Nesting.spanLength?_lt {n : Nesting} {cs : List Char} {k : Nat}
    (h : n.spanLength? cs = some k) : k < cs.length := by
  by_contra hge
  have hhead := spanLength?_eq_some h
  rw [List.drop_eq_nil_of_le (Nat.not_lt.mp hge)] at hhead
  simp at hhead

namespace Scanner

theorem takeSpan_eq_ok {s s' : Scanner} {span : List Char} (h : s.takeSpan = .ok (span, s')) :
    (∃ n, s' = s.skip n) ∧ (s'.rest.head? = some ' ' ∨ s'.rest.head? = some '\n') := by
  rw [takeSpan] at h
  split at h
  next n hn =>
    cases h
    exact ⟨⟨n, rfl⟩, Nesting.spanLength?_eq_some hn⟩
  next => cases h

theorem exists_ofSpan_next (level : Nat) (tag span : List Char) (s : Scanner) :
    ∃ m, (Entry.ofSpan level tag span s).next = s.skip m := by
  obtain ⟨m, hm⟩ := exists_skipLines
    (if (Modifiers.ofSpan span).textBlock then s.deeperLines level else []).length s.nextLine
  exact ⟨_, by rw [Entry.ofSpan]; simp only [hm]; rw [nextLine, skip_skip]⟩

theorem readEntry_eq_ok {s : Scanner} {column level : Nat} {entry : Entry}
    (h : s.readEntry column level = .ok entry) :
    ∃ span s', ((s.skip column).takeWhile isNameChar).2.takeSpan = .ok (span, s') ∧
      entry = Entry.ofSpan level ((s.skip column).takeWhile isNameChar).1 span s' := by
  rw [readEntry] at h
  cases hspan : ((s.skip column).takeWhile isNameChar).2.takeSpan with
  | error e => simp [hspan, bind, Except.bind] at h
  | ok taken =>
    simp only [hspan, bind, Except.bind, Except.ok.injEq] at h
    exact ⟨taken.1, taken.2, rfl, h.symm⟩

/-- Behind a span the line goes on, with a blank or with its end. -/
theorem EndsLine.takeSpan {s s' : Scanner} {span : List Char} (hs : s.EndsLine)
    (h : s.takeSpan = .ok (span, s')) : s'.EndsLine ∧ s'.rest ≠ [] := by
  obtain ⟨⟨n, rfl⟩, hhead⟩ := takeSpan_eq_ok h
  refine ⟨hs.skip n, ?_⟩
  intro hnil
  rw [hnil] at hhead
  simp at hhead

theorem exists_span_of_readEntry {s : Scanner} {column level : Nat} {entry : Entry}
    (hs : s.EndsLine) (h : s.readEntry column level = .ok entry) :
    ∃ span s', ((s.skip column).takeWhile isNameChar).2.takeSpan = .ok (span, s') ∧
      entry = Entry.ofSpan level ((s.skip column).takeWhile isNameChar).1 span s' ∧
      s'.EndsLine ∧ s'.rest ≠ [] := by
  obtain ⟨span, s', hspan, hentry⟩ := readEntry_eq_ok h
  have htag : ((s.skip column).takeWhile isNameChar).2.EndsLine := (hs.skip column).skip _
  exact ⟨span, s', hspan, hentry, htag.takeSpan hspan⟩

theorem readEntry_of_takeSpan {s s' : Scanner} {column : Nat} (level : Nat) {span : List Char}
    (h : ((s.skip column).takeWhile isNameChar).2.takeSpan = .ok (span, s')) :
    s.readEntry column level =
      .ok (Entry.ofSpan level ((s.skip column).takeWhile isNameChar).1 span s') := by
  change (((s.skip column).takeWhile isNameChar).2.takeSpan >>= _) = _
  rw [h]
  rfl

/-- Every entry takes at least the name of its tag. -/
theorem readEntry_next {s : Scanner} {column level : Nat} {entry : Entry}
    (hname : s.line.findIdx? isNameChar = some column) (h : s.readEntry column level = .ok entry) :
    ∃ n, 0 < n ∧ entry.next = s.skip n := by
  obtain ⟨-, hpos⟩ := takeWhile_name hname
  obtain ⟨span, s', hspan, rfl⟩ := readEntry_eq_ok h
  obtain ⟨⟨n, rfl⟩, -⟩ := takeSpan_eq_ok hspan
  obtain ⟨m, hm⟩ := exists_ofSpan_next level ((s.skip column).takeWhile isNameChar).1 span
    (((s.skip column).takeWhile isNameChar).2.skip n)
  refine ⟨column + ((s.skip column).takeWhile isNameChar).1.length + n + m, by omega, ?_⟩
  rw [hm, takeWhile, skip_skip, skip_skip, skip_skip, Nat.add_assoc, Nat.add_assoc]

theorem Within.takeSpan {s s' : Scanner} {span : List Char} (h : s.Within)
    (hspan : s.takeSpan = .ok (span, s')) : s'.Within := by
  unfold Scanner.takeSpan at hspan
  split at hspan
  next n hn =>
    cases hspan
    exact h.skip (Nat.le_of_lt (Nesting.spanLength?_lt hn))
  next => cases hspan

theorem Within.skip_column {s : Scanner} {column : Nat} (h : s.Within)
    (hname : s.line.findIdx? isNameChar = some column) : (s.skip column).Within := by
  obtain ⟨hcolumn, -, -⟩ := List.findIdx?_eq_some_iff_getElem.mp hname
  have hline : s.line.length ≤ s.rest.length := (List.takeWhile_prefix _).length_le
  exact h.skip (by omega)

theorem Within.readEntry {s : Scanner} {column level : Nat} {entry : Entry} (h : s.Within)
    (hname : s.line.findIdx? isNameChar = some column)
    (hentry : s.readEntry column level = .ok entry) : entry.next.Within := by
  obtain ⟨span, s', hspan, rfl⟩ := readEntry_eq_ok hentry
  have htag : ((s.skip column).takeWhile isNameChar).2.Within :=
    (h.skip_column hname).skip (List.takeWhile_prefix _).length_le
  have hs' : s'.Within := htag.takeSpan hspan
  exact hs'.nextLine.skipLines _

theorem readEntry_children {s : Scanner} {column level : Nat} {entry : Entry}
    (h : s.readEntry column level = .ok entry) : entry.element.children = [] := by
  obtain ⟨span, s', -, rfl⟩ := readEntry_eq_ok h
  rfl

theorem rest_readEntry_lt {s : Scanner} {column level : Nat} {entry : Entry}
    (hname : s.line.findIdx? isNameChar = some column) (h : s.readEntry column level = .ok entry) :
    entry.next.rest.length < s.rest.length := by
  obtain ⟨n, hn, hnext⟩ := readEntry_next hname h
  have := List.length_pos_iff.mpr (takeWhile_name hname).1
  rw [hnext, rest_skip, List.length_drop]
  omega

end Scanner

/-- Reads elements from the level `top` on. An element is as deep as its line, but no deeper than
`limit`: one level below the element before it, or beside that element if it was a text block. The
sweep ends before the first element above `top`. -/
def sweep (top limit : Nat) (forest : List Element) (s : Scanner) :
    Except Unclosed (List Element × Scanner) :=
  if _hend : s.rest = [] then .ok (forest, s)
  else
    match _hname : s.line.findIdx? isNameChar with
    | none => sweep top limit forest s.nextLine
    | some column =>
      if s.depth < top then .ok (forest, s)
      else
        let level := min s.depth limit
        match _hentry : s.readEntry column level with
        | .error e => .error e
        | .ok entry =>
          sweep top (if entry.textBlock then level else level + 1)
            (attach entry.element (level - top) forest) entry.next
termination_by s.rest.length
decreasing_by
  · exact Scanner.rest_nextLine_lt _hend
  · exact Scanner.rest_readEntry_lt _hname _hentry

section attach

theorem attach_attach_succ (el child : Element) (depth : Nat) (forest : List Element) :
    attach child (depth + 1) (attach el depth forest) =
      attach { el with children := el.children ++ [child] } depth forest := by
  induction depth generalizing forest with
  | zero => simp [attach]
  | succ depth ih =>
    cases h : forest.getLast? with
    | none => simp [attach, h]
    | some last =>
      simp only [attach, h, List.getLast?_concat, List.dropLast_concat]
      rw [← ih]
      rfl

/-- Children that come one after another are the children of the element before them. -/
theorem attachAll_attach (el : Element) (children : List Element) (depth : Nat)
    (forest : List Element) :
    attachAll (depth + 1) children (attach el depth forest) =
      attach { el with children := el.children ++ children } depth forest := by
  induction children generalizing el with
  | nil =>
    cases el
    simp only [attachAll, List.foldl_nil, List.append_nil]
  | cons child children ih =>
    rw [attachAll, List.foldl_cons, attach_attach_succ]
    refine (ih _).trans ?_
    rw [List.append_assoc, List.singleton_append]

theorem attachAll_zero (els : List Element) : attachAll 0 els [] = els := by
  have h (front : List Element) : attachAll 0 els front = front ++ els := by
    induction els generalizing front with
    | nil => simp [attachAll]
    | cons el els ih => simpa [attachAll, attach] using ih (front ++ [el])
  simpa using h []

end attach

section readSiblings

variable {s : Scanner}

theorem findTag_rest {column : Nat} (hname : s.line.findIdx? isNameChar = some column) :
    findTag 0 0 0 true s.rest = some ⟨0, column, s.depth⟩ := by
  obtain ⟨tail, htail⟩ : s.line <+: s.rest := List.takeWhile_prefix _
  rw [← htail, findTag_of_name tail 0 0 0 true s.not_mem_line hname]
  simp [Scanner.depth]

theorem readSiblings_of_no_name (level fuel : Nat) (hs : s.EndsLine)
    (hname : s.line.findIdx? isNameChar = none) :
    readSiblings (fuel + 1) level s = readSiblings (fuel + 1) level s.nextLine := by
  by_cases hne : s.rest = []
  · rw [Scanner.nextLine, hne, List.length_nil, Nat.min_zero, Scanner.skip_zero]
  obtain ⟨more, hmore⟩ := hs.rest_eq hne
  have hfind : findTag 0 0 0 true s.rest =
      (findTag 0 0 0 true more).map (·.shift (s.line.length + 1)) := by
    rw [hmore, findTag_of_no_name more 0 0 0 true s.not_mem_line hname, ← findTag_shift]
    simp
  have hlen : s.rest.length = s.line.length + 1 + more.length := by
    simpa [Nat.add_assoc, Nat.add_comm] using congrArg List.length hmore
  rw [readSiblings, readSiblings, hfind, Scanner.rest_nextLine hmore, Scanner.nextLine_eq hmore]
  cases findTag 0 0 0 true more with
  | none => simp [hlen]
  | some line => simp only [Option.map_some, TagLine.shift, Scanner.skip_skip]

theorem readSiblings_of_shallow {column level : Nat} (fuel : Nat)
    (hname : s.line.findIdx? isNameChar = some column) (hdepth : s.depth < level) :
    readSiblings (fuel + 1) level s = .ok ([], s) := by
  simp [readSiblings, findTag_rest hname, hdepth]

theorem readSiblings_of_entry {column level : Nat} (fuel : Nat) (hs : s.EndsLine)
    (hname : s.line.findIdx? isNameChar = some column) (hdepth : level ≤ s.depth) :
    readSiblings (fuel + 2) level s = do
      let entry ← s.readEntry column level
      let (children, s) ←
        if entry.textBlock then .ok ([], entry.next)
        else readSiblings (fuel + 1) (level + 1) entry.next
      let (siblings, s) ← readSiblings (fuel + 1) level s
      return ({ entry.element with children } :: siblings, s) := by
  rw [readSiblings, findTag_rest hname]
  simp only [if_neg (Nat.not_lt.mpr hdepth), Scanner.readEntry]
  cases hspan : ((s.skip column).takeWhile isNameChar).2.takeSpan with
  | error e => rfl
  | ok taken =>
    obtain ⟨span, s'⟩ := taken
    obtain ⟨⟨n, hn⟩, hc⟩ := Scanner.takeSpan_eq_ok hspan
    have hs' : s'.EndsLine := by
      rw [hn, Scanner.takeWhile, Scanner.skip_skip, Scanner.skip_skip]
      exact hs.skip _
    simp only [bind, Except.bind, Entry.ofSpan]
    by_cases hblock : (Modifiers.ofSpan span).textBlock
    · obtain ⟨htext, hstop, hnext⟩ := Scanner.takeBlock_eq level hs' hc
      have hends : (s'.takeBlock level).2.EndsLine := hs'.skip _
      have hgo := readSiblings_of_no_name level fuel hends (by rw [hstop]; rfl)
      simp only [hblock, if_true, htext, hgo, hnext]
      rfl
    · obtain ⟨htext, hstop, hnext⟩ := Scanner.takeInline_eq hs' (by rintro h; simp [h] at hc)
      have hends : s'.takeInline.2.EndsLine := hs'.skip _
      have hgo := readSiblings_of_no_name (level + 1) fuel hends (by rw [hstop]; rfl)
      simp only [hblock, Bool.false_eq_true, if_false, htext, hgo, hnext]
      rfl

end readSiblings

section sweep

variable {top limit : Nat} {forest : List Element} {s : Scanner}

theorem sweep_of_end (h : s.rest = []) : sweep top limit forest s = .ok (forest, s) := by
  rw [sweep, dif_pos h]

theorem sweep_of_no_name (hname : s.line.findIdx? isNameChar = none) :
    sweep top limit forest s = sweep top limit forest s.nextLine := by
  by_cases hne : s.rest = []
  · rw [Scanner.nextLine, hne, List.length_nil, Nat.min_zero, Scanner.skip_zero]
  rw [sweep, dif_neg hne]
  split
  next => rfl
  next heq => simp [hname] at heq

theorem sweep_of_name (top limit : Nat) (forest : List Element) {column : Nat}
    (hname : s.line.findIdx? isNameChar = some column) :
    sweep top limit forest s =
      if s.depth < top then .ok (forest, s)
      else (s.readEntry column (min s.depth limit)).bind fun entry =>
        sweep top (if entry.textBlock then min s.depth limit else min s.depth limit + 1)
          (attach entry.element (min s.depth limit - top) forest) entry.next := by
  rw [sweep, dif_neg (Scanner.takeWhile_name hname).1]
  split
  next heq => simp [hname] at heq
  next column' heq =>
    obtain rfl : column = column' := Option.some.inj (hname.symm.trans heq)
    split
    · rfl
    · dsimp only
      split
      next e hentry => rw [hentry]; rfl
      next entry hentry => rw [hentry]; rfl

/-- Only the depth of the next element matters to what the last level was. -/
theorem sweep_limit {column limit' : Nat} (hname : s.line.findIdx? isNameChar = some column)
    (h : s.depth ≤ limit) (h' : s.depth ≤ limit') :
    sweep top limit forest s = sweep top limit' forest s := by
  rw [sweep_of_name _ _ _ hname, sweep_of_name _ _ _ hname, Nat.min_eq_left h, Nat.min_eq_left h']

/-- No element of the level or below follows. -/
def Scanner.Ends (s : Scanner) (level : Nat) : Prop :=
  s.rest = [] ∨ ∃ column, s.line.findIdx? isNameChar = some column ∧ s.depth < level

/-- The reader and the sweep agree on some siblings: both fail, or the sweep is where the reader
stops, with the elements read, whatever level was the last. -/
def Agree (top level : Nat) (forest : List Element) (s : Scanner) :
    Except Unclosed (List Element × Scanner) → Prop
  | .error e => sweep top level forest s = .error e
  | .ok (els, s') => (∃ k, s' = s.skip k) ∧ s'.Ends level ∧ ∀ limit, level ≤ limit + 1 →
      sweep top level forest s = sweep top limit (attachAll (level - top) els forest) s'

theorem Agree.of_nextLine {level : Nat} {result : Except Unclosed (List Element × Scanner)}
    (hname : s.line.findIdx? isNameChar = none) (h : Agree top level forest s.nextLine result) :
    Agree top level forest s result := by
  cases result with
  | error e => exact (sweep_of_no_name hname).trans h
  | ok read =>
    obtain ⟨⟨k, hk⟩, hends, hsweep⟩ := h
    exact ⟨⟨_, hk.trans (by rw [Scanner.nextLine, Scanner.skip_skip])⟩, hends,
      fun limit hl => (sweep_of_no_name hname).trans (hsweep limit hl)⟩

theorem Agree.cons {level : Nat} {el : Element} {s' : Scanner}
    {result : Except Unclosed (List Element × Scanner)} (hskip : ∃ k, s' = s.skip k)
    (hsweep : sweep top level forest s = sweep top level (attach el (level - top) forest) s')
    (h : Agree top level (attach el (level - top) forest) s' result) :
    Agree top level forest s do
      let (siblings, s) ← result
      return (el :: siblings, s) := by
  cases result with
  | error e => exact hsweep.trans h
  | ok read =>
    obtain ⟨⟨k, hk⟩, hends, hrest⟩ := h
    obtain ⟨j, rfl⟩ := hskip
    exact ⟨⟨j + k, hk.trans (Scanner.skip_skip s j k)⟩, hends,
      fun limit hl => hsweep.trans (hrest limit hl)⟩

theorem agree_readSiblings (n : Nat) {top level fuel : Nat} (htop : top ≤ level) {s : Scanner}
    (hn : s.rest.length = n) (hs : s.EndsLine) (hfuel : n < fuel) (forest : List Element) :
    Agree top level forest s (readSiblings fuel level s) := by
  induction n using Nat.strong_induction_on generalizing level fuel s forest with
  | _ n ih =>
    obtain ⟨fuel, rfl⟩ : ∃ f, fuel = f + 1 := ⟨fuel - 1, by omega⟩
    by_cases hne : s.rest = []
    · have hread : readSiblings (fuel + 1) level s = .ok ([], s) := by
        simp [readSiblings, hne, findTag]
      rw [hread]
      exact ⟨⟨0, by simp⟩, .inl hne, fun limit _ => by rw [sweep_of_end hne, sweep_of_end hne]; rfl⟩
    cases hname : s.line.findIdx? isNameChar with
    | none =>
      have hlt := Scanner.rest_nextLine_lt hne
      rw [readSiblings_of_no_name level fuel hs hname]
      exact .of_nextLine hname (ih _ (hn ▸ hlt) htop rfl hs.nextLine (by omega) forest)
    | some column =>
      -- A shallow line ends this level; the sweep attaches its element higher up.
      by_cases hdepth : s.depth < level
      · rw [readSiblings_of_shallow fuel hname hdepth]
        exact ⟨⟨0, by simp⟩, .inr ⟨column, hname, hdepth⟩,
          fun limit hl => sweep_limit hname (by omega) (by omega)⟩
      have hpos := List.length_pos_iff.mpr hne
      obtain ⟨fuel, rfl⟩ : ∃ f, fuel = f + 1 := ⟨fuel - 1, by omega⟩
      have hsweep := sweep_of_name top level forest hname
      rw [if_neg (by omega), Nat.min_eq_right (by omega)] at hsweep
      rw [readSiblings_of_entry fuel hs hname (by omega)]
      cases hentry : s.readEntry column level with
      | error e => exact hsweep.trans (by rw [hentry]; rfl)
      | ok entry =>
        have hlt := Scanner.rest_readEntry_lt hname hentry
        obtain ⟨k, -, hk⟩ := Scanner.readEntry_next hname hentry
        have hnone := Scanner.readEntry_children hentry
        obtain ⟨el, block, next⟩ := entry
        dsimp only at hlt hk hnone
        have hends : next.EndsLine := hk ▸ hs.skip k
        simp only [hentry, Except.bind] at hsweep
        simp only [bind, Except.bind]
        cases block with
        | true =>
          have hel : { el with children := [] } = el := by cases el; simp_all
          simp only [if_true, hel] at hsweep ⊢
          exact .cons ⟨k, hk⟩ hsweep (ih _ (hn ▸ hlt) htop rfl hends (by omega) _)
        | false =>
          simp only [Bool.false_eq_true, if_false] at hsweep ⊢
          -- First the children, attached one by one below `el`, then the siblings after them.
          have hchildren := ih _ (hn ▸ hlt) (by omega : top ≤ level + 1) rfl hends
            (by omega : next.rest.length < fuel + 1) (attach el (level - top) forest)
          cases hread : readSiblings (fuel + 1) (level + 1) next with
          | error e =>
            rw [hread] at hchildren
            exact hsweep.trans hchildren
          | ok read =>
            rw [hread] at hchildren
            obtain ⟨⟨j, hj⟩, -, hgo⟩ := hchildren
            have hgo := hgo level (by omega)
            rw [Nat.succ_sub htop, attachAll_attach, hnone, List.nil_append] at hgo
            have hle : read.2.rest.length ≤ next.rest.length := by
              rw [hj, Scanner.rest_skip, List.length_drop]; omega
            exact .cons ⟨k + j, by rw [hj, hk, Scanner.skip_skip]⟩ (hsweep.trans hgo)
              (ih _ (by omega) htop rfl (hj ▸ hends.skip j) (by omega) _)

end sweep

theorem endsLine_normalize (source : List Char) (start : Nat) :
    Scanner.EndsLine { text := normalize source, pos := start } := by
  have hlast : (normalize source).getLast? = some '\n' := by
    rw [normalize, endLine]
    split
    · assumption
    · simp
  exact Scanner.EndsLine.skip (s := { text := normalize source, pos := 0 }) (.inr hlast) start

/-- The reader ends where the sweep ends. -/
theorem readForest_eq_sweep {s : Scanner} (hs : s.EndsLine) (level : Nat) :
    readForest level s = sweep level level [] s := by
  have hagree := agree_readSiblings _ (Nat.le_refl level) rfl hs (Nat.lt_succ_self _) []
  unfold readForest
  cases hread : readSiblings (s.rest.length + 1) level s with
  | error e =>
    rw [hread] at hagree
    exact hagree.symm
  | ok read =>
    rw [hread] at hagree
    obtain ⟨-, hends, hsweep⟩ := hagree
    rw [hsweep level (by omega), Nat.sub_self, attachAll_zero]
    rcases hends with hend | ⟨column, hname, hdepth⟩
    · exact (sweep_of_end hend).symm
    · rw [sweep_of_name _ _ _ hname, if_pos hdepth]

/-- The place where the reading of a source begins. -/
def Scanner.ofSource (source : List Char) : Scanner where
  text := normalize source

theorem Scanner.endsLine_ofSource (source : List Char) : (ofSource source).EndsLine :=
  endsLine_normalize source 0

theorem read_eq_ok_iff {source : List Char} {level stop : Nat} {els : List Element} :
    read source level 0 = .ok (els, stop) ↔
      ∃ t, sweep level level [] (.ofSource source) = .ok (els, t) ∧ t.pos = stop := by
  have hread := readForest_eq_sweep (Scanner.endsLine_ofSource source) level
  change (readForest level (.ofSource source) >>= fun (els, t) => .ok (els, t.pos)) = _ ↔ _
  rw [hread]
  constructor
  · intro h
    cases hsweep : sweep level level [] (.ofSource source) with
    | error e => rw [hsweep] at h; cases h
    | ok swept =>
      rw [hsweep] at h
      cases h
      exact ⟨swept.2, rfl, rfl⟩
  · rintro ⟨t, hsweep, rfl⟩
    rw [hsweep]
    rfl

theorem read_eq_error_iff {source : List Char} {level : Nat} {e : Unclosed} :
    read source level 0 = .error e ↔ sweep level level [] (.ofSource source) = .error e := by
  have hread := readForest_eq_sweep (Scanner.endsLine_ofSource source) level
  change (readForest level (.ofSource source) >>= fun (els, t) => .ok (els, t.pos)) = _ ↔ _
  rw [hread]
  cases sweep level level [] (.ofSource source) with
  | error e' => simp [bind, Except.bind]
  | ok swept => exact iff_of_false nofun nofun

/-- A sweep ends at the end of the text or before an element above its level. -/
theorem ends_of_sweep {top limit : Nat} {forest els : List Element} {s t : Scanner}
    (h : sweep top limit forest s = .ok (els, t)) : t.Ends top := by
  fun_induction sweep top limit forest s with
  | case1 limit forest s hend =>
    cases h
    exact .inl hend
  | case2 limit forest s hne hname ih => exact ih h
  | case3 limit forest s hne column hname hdepth =>
    cases h
    exact .inr ⟨column, hname, hdepth⟩
  | case4 => cases h
  | case5 limit forest s hne column hname hdepth level entry hentry ih => exact ih h

theorem Scanner.Within.sweep {top limit : Nat} {forest els : List Element} {s t : Scanner}
    (hs : s.Within) (h : sweep top limit forest s = .ok (els, t)) :
    t.Within ∧ t.text = s.text := by
  fun_induction Outline.sweep top limit forest s with
  | case1 limit forest s hend =>
    cases h
    exact ⟨hs, rfl⟩
  | case2 limit forest s hne hname ih => exact ih hs.nextLine h
  | case3 limit forest s hne column hname hdepth =>
    cases h
    exact ⟨hs, rfl⟩
  | case4 => cases h
  | case5 limit forest s hne column hname hdepth level entry hentry ih =>
    obtain ⟨n, -, hnext⟩ := readEntry_next hname hentry
    obtain ⟨hwithin, htext⟩ := ih (hs.readEntry hname hentry) h
    exact ⟨hwithin, by rw [htext, hnext]; rfl⟩

/-- At the top level the whole text is read. -/
theorem end_of_sweep {limit : Nat} {forest els : List Element} {s t : Scanner} (hs : s.Within)
    (h : sweep 0 limit forest s = .ok (els, t)) : t.rest = [] ∧ t.pos = s.text.length := by
  obtain ⟨hwithin, htext⟩ := hs.sweep h
  rcases ends_of_sweep h with hend | ⟨column, -, hdepth⟩
  · exact ⟨hend, htext ▸ hwithin.pos_of_end hend⟩
  · exact absurd hdepth (Nat.not_lt_zero _)

theorem Scanner.within_ofSource (source : List Char) : (ofSource source).Within := Nat.zero_le _

theorem stop_of_read {source : List Char} {els : List Element} {stop : Nat}
    (h : read source 0 0 = .ok (els, stop)) : stop = (normalize source).length := by
  obtain ⟨t, hsweep, rfl⟩ := read_eq_ok_iff.mp h
  exact (end_of_sweep (Scanner.within_ofSource source) hsweep).2

/-- Reading an outline gives the forest and the end of a single sweep, and fails exactly when the
sweep meets a span that is never closed. -/
theorem read_eq_sweep (source : List Char) (level start : Nat) :
    read source level start =
      (sweep level level [] { text := normalize source, pos := start }).map
        fun (forest, s) => (forest, s.pos) := by
  have hagree := agree_readSiblings _ (Nat.le_refl level) rfl (endsLine_normalize source start)
    (Nat.lt_succ_self _) []
  rw [read, readForest]
  cases hread : readSiblings _ level { text := normalize source, pos := start } with
  | error e =>
    rw [hread] at hagree
    rw [hagree]
    rfl
  | ok read =>
    rw [hread] at hagree
    obtain ⟨-, hends, hsweep⟩ := hagree
    rw [hsweep level (by omega), Nat.sub_self, attachAll_zero]
    rcases hends with hend | ⟨column, hname, hdepth⟩
    · rw [sweep_of_end hend]; rfl
    · rw [sweep_of_name _ _ _ hname, if_pos hdepth]; rfl

end Pagewright.Outline
