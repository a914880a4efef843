import Pagewright.Proofs.Outline.Indent
import Pagewright.Proofs.Outline.Nesting
import Pagewright.Proofs.Outline.Sweep

/-! What follows a text that was read to its end is read by itself if it begins with a name: no
text block, no span and no deeper line of the text before it reaches into it. -/
namespace Pagewright

namespace Text

theorem lastLineStart_append {front : List Char} (h : Outline.EndsLines front) (back : List Char) :
    lastLineStart (front ++ back) = front.length + lastLineStart back := by
  have hfront : front.reverse.takeWhile (· != '\n') = [] := by
    rcases h with rfl | h
    · rfl
    · obtain ⟨lines, rfl⟩ := List.getLast?_eq_some_iff.mp h
      simp
  have hrun : (front ++ back).reverse.takeWhile (· != '\n') =
      back.reverse.takeWhile (· != '\n') := by
    rw [List.reverse_append, Outline.takeWhile_append_of_nil hfront]
  have hle : (back.reverse.takeWhile (· != '\n')).length ≤ back.length := by
    simpa using (List.takeWhile_prefix (· != '\n') (l := back.reverse)).length_le
  unfold lastLineStart
  rw [hrun, List.length_append]
  omega

def Position.below (p : Position) (lines : Nat) : Position := { p with line := p.line + lines }

/-- Behind whole lines a place has the same column, so many lines further down. -/
theorem Position.ofOffset_append {front : List Char} (h : Outline.EndsLines front)
    (back : List Char) (offset : Nat) : ofOffset (front ++ back) (front.length + offset) =
      (ofOffset back offset).below (front.count '\n') := by
  have htake : (front ++ back).take (front.length + offset) = front ++ back.take offset :=
    List.take_length_add_append offset
  unfold ofOffset below
  dsimp only
  rw [htake, lastLineStart_append h, List.count_append]
  simp only [Position.mk.injEq]
  constructor <;> omega

end Text

namespace Outline

def Unclosed.below (e : Unclosed) (lines : Nat) : Unclosed := ⟨e.position.below lines⟩

section behind

variable {front : List Char} {s : Scanner}

namespace Scanner

/-- The same place with another text before its own. -/
def behind (s : Scanner) (front : List Char) : Scanner where
  text := front ++ s.text
  pos := front.length + s.pos

@[simp] theorem rest_behind (s : Scanner) (front : List Char) : (s.behind front).rest = s.rest := by
  have hdrop : (front ++ s.text).drop (front.length + s.pos) = s.text.drop s.pos :=
    List.drop_length_add_append s.pos
  exact hdrop.trans s.rest_eq.symm

@[simp] theorem line_behind (s : Scanner) (front : List Char) : (s.behind front).line = s.line := by
  rw [line, rest_behind, line]

@[simp] theorem depth_behind (s : Scanner) (front : List Char) :
    (s.behind front).depth = s.depth := by
  rw [depth, line_behind, depth]

@[simp] theorem skip_behind (s : Scanner) (front : List Char) (n : Nat) :
    (s.behind front).skip n = (s.skip n).behind front := ext rfl (Nat.add_assoc _ _ _)

@[simp] theorem nextLine_behind (s : Scanner) (front : List Char) :
    (s.behind front).nextLine = s.nextLine.behind front := by
  rw [nextLine, line_behind, rest_behind, skip_behind, nextLine]

@[simp] theorem skipLines_behind (n : Nat) (s : Scanner) (front : List Char) :
    (s.behind front).skipLines n = (s.skipLines n).behind front := by
  induction n generalizing s with
  | zero => rfl
  | succ n ih => rw [skipLines, nextLine_behind, ih, skipLines]

theorem takeSpan_behind (h : EndsLines front) (s : Scanner) : (s.behind front).takeSpan =
    (s.takeSpan.map fun (span, t) => (span, t.behind front)).mapError
      (·.below (front.count '\n')) := by
  unfold takeSpan
  rw [rest_behind]
  cases Nesting.spanLength? {} s.rest with
  | some n => exact congrArg (fun t => Except.ok (s.rest.take n, t)) (skip_behind s front n)
  | none =>
    have hposition := Text.Position.ofOffset_append h s.text s.pos
    exact congrArg (fun p => Except.error (Unclosed.mk p)) hposition

end Scanner

def Entry.behind (entry : Entry) (front : List Char) : Entry :=
  { entry with next := entry.next.behind front }

theorem Entry.ofSpan_behind (level : Nat) (tag span : List Char) (s : Scanner) :
    ofSpan level tag span (s.behind front) = (ofSpan level tag span s).behind front := by
  have hblank : (s.behind front).afterBlank = s.afterBlank := by
    rw [Scanner.afterBlank, Scanner.line_behind, Scanner.afterBlank]
  have hdeeper : (s.behind front).deeperLines level = s.deeperLines level := by
    rw [Scanner.deeperLines, Scanner.nextLine_behind, Scanner.rest_behind, Scanner.deeperLines]
  unfold ofSpan behind
  simp only [hblank, hdeeper, Scanner.nextLine_behind, Scanner.skipLines_behind]

theorem Scanner.readEntry_behind (h : EndsLines front) (s : Scanner) (column level : Nat) :
    (s.behind front).readEntry column level =
      ((s.readEntry column level).map (·.behind front)).mapError
        (·.below (front.count '\n')) := by
  unfold readEntry takeWhile
  simp only [skip_behind, rest_behind, takeSpan_behind h]
  cases ((s.skip column).skip _).takeSpan with
  | error e => rfl
  | ok taken => exact congrArg Except.ok (Entry.ofSpan_behind level _ taken.1 taken.2)

/-- What stands before a text does not matter to how the text is read. -/
theorem sweep_behind (h : EndsLines front) (top limit : Nat) (forest : List Element)
    (s : Scanner) : sweep top limit forest (s.behind front) =
      ((sweep top limit forest s).map fun (els, t) => (els, t.behind front)).mapError
        (·.below (front.count '\n')) := by
  fun_induction sweep top limit forest s with
  | case1 limit forest s hend => rw [sweep_of_end (by rw [Scanner.rest_behind, hend])]; rfl
  | case2 limit forest s hne hname ih =>
    rw [sweep_of_no_name (by rwa [Scanner.line_behind]), Scanner.nextLine_behind, ih]
  | case3 limit forest s hne column hname hdepth =>
    rw [sweep_of_name _ _ _ (by rwa [Scanner.line_behind]), if_pos (by rwa [Scanner.depth_behind])]
    rfl
  | case4 limit forest s hne column hname hdepth level e hentry =>
    rw [sweep_of_name _ _ _ (by rwa [Scanner.line_behind]), if_neg (by rwa [Scanner.depth_behind]),
      Scanner.depth_behind, Scanner.readEntry_behind h, hentry]
    rfl
  | case5 limit forest s hne column hname hdepth level entry hentry ih =>
    rw [sweep_of_name _ _ _ (by rwa [Scanner.line_behind]), if_neg (by rwa [Scanner.depth_behind]),
      Scanner.depth_behind, Scanner.readEntry_behind h, hentry]
    exact ih

end behind

section before

variable {back : List Char} {s : Scanner}

namespace Scanner

/-- The same place with another text behind its own. -/
def before (s : Scanner) (back : List Char) : Scanner where
  text := s.text ++ back
  pos := s.pos

theorem rest_before (h : s.Within) (back : List Char) :
    (s.before back).rest = s.rest ++ back := by
  have hdrop : (s.text ++ back).drop s.pos = s.text.drop s.pos ++ back :=
    List.drop_append_of_le_length h
  rw [← s.rest_eq] at hdrop
  exact hdrop

theorem skip_before (s : Scanner) (back : List Char) (n : Nat) :
    (s.before back).skip n = (s.skip n).before back := ext rfl rfl

/-- A line that has its end does not go on in the text behind. -/
theorem line_before (h : s.Within) (hs : s.EndsLine) (hne : s.rest ≠ []) (back : List Char) :
    (s.before back).line = s.line ∧ (s.before back).nextLine = s.nextLine.before back := by
  obtain ⟨more, hmore⟩ := hs.rest_eq hne
  have hrest : (s.before back).rest = s.line ++ '\n' :: (more ++ back) := by
    rw [rest_before h, hmore, List.append_assoc, List.cons_append]
  have hline : (s.before back).line = s.line := line_of_rest s.not_mem_line hrest
  refine ⟨hline, ?_⟩
  rw [nextLine_eq (hline ▸ hrest), nextLine_eq hmore, hline, skip_before]

theorem skipLines_before {lines : List (List Char)} (n : Nat) (h : s.Within)
    (hlines : ∀ line ∈ lines, '\n' ∉ line) (hrest : s.rest = closed lines) (hn : n ≤ lines.length)
    (back : List Char) : (s.before back).skipLines n = (s.skipLines n).before back := by
  induction n generalizing s lines with
  | zero => rfl
  | succ n ih =>
    have hs : EndsLines s.rest := hrest ▸ endsLines_closed lines
    cases lines with
    | nil => simp at hn
    | cons line lines =>
      obtain ⟨hline, hmore⟩ := List.forall_mem_cons.mp hlines
      rw [closed_cons] at hrest
      have hown : s.line = line := line_of_rest hline hrest
      have hne : s.rest ≠ [] := by simp [hrest]
      have hnext : s.nextLine.rest = closed lines := rest_nextLine (hown ▸ hrest)
      rw [skipLines, (line_before h hs hne back).2, skipLines]
      exact ih h.nextLine hmore hnext (by simpa using hn)

theorem takeWhile_before (h : s.Within) (hs : s.EndsLine) (hne : s.rest ≠ []) {p : Char → Bool}
    (hp : p '\n' = false) (back : List Char) :
    (s.before back).takeWhile p = ((s.takeWhile p).1, (s.takeWhile p).2.before back) := by
  have hrun : (s.rest ++ back).takeWhile p = s.rest.takeWhile p := by
    rw [List.takeWhile_append]
    split
    next hall =>
      have hlast := hs.resolve_left hne
      rw [← (List.takeWhile_prefix _).eq_of_length hall] at hlast
      have hpass := List.mem_takeWhile_imp (List.mem_of_getLast? hlast)
      simp [hp] at hpass
    next => rfl
  unfold takeWhile
  rw [rest_before h, hrun]
  exact congrArg (Prod.mk _) (skip_before s back _)

theorem takeSpan_before {span : List Char} {t : Scanner} (h : s.Within)
    (hspan : s.takeSpan = .ok (span, t)) (back : List Char) :
    (s.before back).takeSpan = .ok (span, t.before back) := by
  unfold takeSpan at hspan ⊢
  split at hspan
  next n hn =>
    cases hspan
    have hlt := Nesting.spanLength?_lt hn
    have hn' : Nesting.spanLength? {} (s.rest ++ back) = some n :=
      Nesting.spanLength?_congr hn (List.take_append_of_le_length hlt)
    have htake : (s.rest ++ back).take n = s.rest.take n :=
      List.take_append_of_le_length (Nat.le_of_lt hlt)
    simp only [rest_before h, hn', htake, skip_before]
  next => cases hspan

end Scanner

def Entry.before (entry : Entry) (back : List Char) : Entry :=
  { entry with next := entry.next.before back }

/-- Only a text block looks at the lines below. -/
theorem Entry.ofSpan_before_of_deeper (level : Nat) (tag span : List Char) (h : s.Within)
    (hs : s.EndsLine) (hne : s.rest ≠ []) (hdeeper : (Modifiers.ofSpan span).textBlock →
      (s.before back).deeperLines level = s.deeperLines level) :
    ofSpan level tag span (s.before back) = (ofSpan level tag span s).before back := by
  obtain ⟨hline, hnext⟩ := Scanner.line_before h hs hne back
  have hblank : (s.before back).afterBlank = s.afterBlank := by
    rw [Scanner.afterBlank, hline, Scanner.afterBlank]
  cases hblock : (Modifiers.ofSpan span).textBlock with
  | false =>
    unfold ofSpan before
    simp only [hblock, hblank, hnext, Bool.false_eq_true, if_false]
    rfl
  | true =>
    obtain ⟨lines, hlines, hnewline⟩ := EndsLines.exists_closed hs.nextLine
    have hcount : (s.deeperLines level).length ≤ lines.length := by
      rw [Scanner.deeperLines_of_closed level hnewline hlines]
      exact (List.takeWhile_prefix _).length_le
    have hskip := Scanner.skipLines_before _ h.nextLine hnewline hlines hcount back
    unfold ofSpan before
    simp only [hblock, hblank, hdeeper hblock, hnext, hskip, if_true]

theorem Entry.ofSpan_before (level : Nat) (tag span : List Char) (h : s.Within) (hs : s.EndsLine)
    (hne : s.rest ≠ []) (hback : back.head? ≠ some '\t') :
    ofSpan level tag span (s.before back) = (ofSpan level tag span s).before back := by
  apply ofSpan_before_of_deeper level tag span h hs hne
  intro _
  obtain ⟨lines, hlines, hnewline⟩ := EndsLines.exists_closed hs.nextLine
  rw [Scanner.deeperLines_of_closed level hnewline hlines]
  apply Scanner.deeperLines_eq hnewline _ hback
  rw [(Scanner.line_before h hs hne back).2, Scanner.rest_before h.nextLine, hlines]

theorem Scanner.readEntry_before {column level : Nat} {entry : Entry} (h : s.Within)
    (hs : s.EndsLine) (hname : s.line.findIdx? isNameChar = some column)
    (hentry : s.readEntry column level = .ok entry) (hback : back.head? ≠ some '\t') :
    (s.before back).readEntry column level = .ok (entry.before back) := by
  have hwithin := h.skip_column hname
  have hends : (s.skip column).EndsLine := hs.skip column
  have hne := rest_skip_ne_nil hname
  obtain ⟨span, t, hspan, rfl, htends, htne⟩ := exists_span_of_readEntry hs hentry
  have htag : ((s.skip column).takeWhile isNameChar).2.Within :=
    hwithin.skip (List.takeWhile_prefix _).length_le
  have hbefore := takeSpan_before htag hspan back
  have hwhole := takeWhile_before hwithin hends hne (p := isNameChar) rfl back
  rw [← skip_before] at hwhole
  have hspan' : (((s.before back).skip column).takeWhile isNameChar).2.takeSpan =
      .ok (span, t.before back) := by rw [hwhole, hbefore]
  rw [readEntry_of_takeSpan level hspan', hwhole,
    Entry.ofSpan_before level _ span (htag.takeSpan hspan) htends htne hback]

/-- A sweep that comes to the end of its text goes on in the text behind. -/
theorem sweep_before {top limit : Nat} {forest els : List Element} {t : Scanner} (h : s.Within)
    (hs : s.EndsLine) (hsweep : sweep top limit forest s = .ok (els, t)) (ht : t.rest = [])
    (hback : back.head? ≠ some '\t') :
    ∃ last, sweep top limit forest (s.before back) = sweep top last els (t.before back) := by
  fun_induction sweep top limit forest s with
  | case1 limit forest s hend =>
    cases hsweep
    exact ⟨limit, rfl⟩
  | case2 limit forest s hne hname ih =>
    obtain ⟨hline, hnext⟩ := Scanner.line_before h hs hne back
    rw [sweep_of_no_name (by rwa [hline]), hnext]
    exact ih h.nextLine hs.nextLine hsweep
  | case3 limit forest s hne column hname hdepth =>
    cases hsweep
    exact absurd ht hne
  | case4 limit forest s hne column hname hdepth level e hentry => cases hsweep
  | case5 limit forest s hne column hname hdepth level entry hentry ih =>
    obtain ⟨hline, -⟩ := Scanner.line_before h hs hne back
    have hdepthBefore : (s.before back).depth = s.depth := by
      rw [Scanner.depth, hline, Scanner.depth]
    have hbefore := Scanner.readEntry_before h hs hname hentry hback
    obtain ⟨n, -, hnext⟩ := Scanner.readEntry_next hname hentry
    rw [sweep_of_name _ _ _ (by rwa [hline]), hdepthBefore, if_neg hdepth, hbefore]
    exact ih (h.readEntry hname hentry) (hnext ▸ hs.skip n) hsweep

end before

section forest

variable {els forest : List Element} {depth : Nat}

theorem attach_append (el : Element) (h : forest ≠ [] ∨ depth = 0) :
    attach el depth (els ++ forest) = els ++ attach el depth forest := by
  cases depth with
  | zero => exact List.append_assoc ..
  | succ depth =>
    have hne : forest ≠ [] := h.resolve_right (Nat.succ_ne_zero depth)
    obtain ⟨front, last, rfl⟩ := List.eq_nil_or_concat' forest |>.resolve_left hne
    simp [attach, ← List.append_assoc]

theorem attach_ne_nil (el : Element) (h : forest ≠ [] ∨ depth = 0) :
    attach el depth forest ≠ [] := by
  cases depth with
  | zero => simp [attach]
  | succ depth =>
    have hne : forest ≠ [] := h.resolve_right (Nat.succ_ne_zero depth)
    obtain ⟨front, last, rfl⟩ := List.eq_nil_or_concat' forest |>.resolve_left hne
    simp [attach]

/-- Elements read before stay in front of what is read if the next element is one of the roots. -/
theorem sweep_append {top limit : Nat} (els : List Element) {s : Scanner}
    (h : forest ≠ [] ∨ limit ≤ top) : sweep top limit (els ++ forest) s =
      (sweep top limit forest s).map fun (more, t) => (els ++ more, t) := by
  fun_induction sweep top limit forest s with
  | case1 limit forest s hend => rw [sweep_of_end hend]; rfl
  | case2 limit forest s hne hname ih => rw [sweep_of_no_name hname, ih h]
  | case3 limit forest s hne column hname hdepth =>
    rw [sweep_of_name _ _ _ hname, if_pos hdepth]
    rfl
  | case4 limit forest s hne column hname hdepth level e hentry =>
    rw [sweep_of_name _ _ _ hname, if_neg hdepth, hentry]
    rfl
  | case5 limit forest s hne column hname hdepth level entry hentry ih =>
    have hroot : forest ≠ [] ∨ level - top = 0 := h.imp_right fun hle => by omega
    rw [sweep_of_name _ _ _ hname, if_neg hdepth, hentry]
    dsimp only [Except.bind]
    rw [attach_append entry.element hroot]
    exact ih (.inl (attach_ne_nil entry.element hroot))

end forest

section read

variable {front back : List Char}

theorem exists_normalize_cons {c : Char} (hc : isNameChar c) (cs : List Char) :
    packIndent true (unifyLineEnds (c :: cs)) ≠ [] ∧ ∃ more, normalize (c :: cs) = c :: more := by
  have hreturn : c ≠ '\r' := by rintro rfl; exact absurd hc (by decide)
  have hline : c ≠ '\n' := by rintro rfl; exact absurd hc (by decide)
  have hpack := packIndent_cons true (isIndent_of_isNameChar hc) hline (unifyLineEnds cs)
  rw [unifyLineEnds_cons hreturn, hpack]
  refine ⟨List.cons_ne_nil c _, ?_⟩
  unfold normalize endLine
  rw [unifyLineEnds_cons hreturn, hpack]
  split
  · exact ⟨_, rfl⟩
  · exact ⟨_ ++ ['\n'], rfl⟩

/-- What follows the end of a sweep is swept as it stands alone, if it begins with a name. -/
theorem sweep_behind_of_name (h : EndsLines front) {last : Nat} {els : List Element} {s : Scanner}
    {c : Char} {cs : List Char} (hrest : s.rest = c :: cs) (hname : isNameChar c) :
    sweep 0 last els (s.behind front) =
      ((sweep 0 0 [] s).map fun (more, t) => (els ++ more, t.behind front)).mapError
        (·.below (front.count '\n')) := by
  have hline : ∃ own, s.line = c :: own := by
    have hc : c ≠ '\n' := by rintro rfl; exact absurd hname (by decide)
    unfold Scanner.line
    rw [hrest, List.takeWhile_cons_of_pos (by simpa using hc)]
    exact ⟨_, rfl⟩
  obtain ⟨own, hown⟩ := hline
  have hcolumn : s.line.findIdx? isNameChar = some 0 := by simp [hown, List.findIdx?_cons, hname]
  have hdepth : s.depth = 0 := by
    have hindent : isIndent c = false := isIndent_of_isNameChar hname
    unfold Scanner.depth
    rw [hown, List.takeWhile_cons_of_neg (by simp [hindent])]
    rfl
  have happend : sweep 0 0 (els ++ []) s =
      (sweep 0 0 [] s).map fun (more, t) => (els ++ more, t) :=
    sweep_append els (.inr (Nat.le_refl 0))
  rw [List.append_nil] at happend
  rw [sweep_behind h, sweep_limit hcolumn (by omega) (by omega : s.depth ≤ 0), happend]
  cases sweep 0 0 [] s <;> rfl

theorem sweep_ofSource_append {els : List Element} {t : Scanner} {c : Char} (cs : List Char)
    (hfront : EndsLines front) (hne : front ≠ [])
    (hsweep : sweep 0 0 [] (.ofSource front) = .ok (els, t)) (hname : isNameChar c) :
    sweep 0 0 [] (.ofSource (front ++ c :: cs)) =
      ((sweep 0 0 [] (.ofSource (c :: cs))).map fun (more, t) =>
        (els ++ more, t.behind (normalize front))).mapError (·.below (front.count '\n')) := by
  obtain ⟨hpacked, cs', hcs⟩ := exists_normalize_cons hname cs
  have hwithin := Scanner.within_ofSource front
  have hends := Scanner.endsLine_ofSource front
  have hnormal : EndsLines (normalize front) := hends
  obtain ⟨hend, hpos⟩ := end_of_sweep hwithin hsweep
  have hhead : (normalize (c :: cs)).head? ≠ some '\t' := by
    rw [hcs]
    rintro ⟨⟩
    exact absurd hname (by decide)
  have hstart : Scanner.ofSource (front ++ c :: cs) =
      (Scanner.ofSource front).before (normalize (c :: cs)) :=
    Scanner.ext (normalize_append hfront hne hpacked) rfl
  have hgoesOn : t.before (normalize (c :: cs)) =
      (Scanner.ofSource (c :: cs)).behind (normalize front) := by
    have htext := (hwithin.sweep hsweep).2
    exact Scanner.ext (congrArg (· ++ normalize (c :: cs)) htext) hpos
  obtain ⟨last, hgo⟩ := sweep_before hwithin hends hsweep hend hhead
  rw [hstart, hgo, hgoesOn, sweep_behind_of_name hnormal hcs hname, count_normalize hfront hne]

/-- Sections of an outline are read one by one: the second has its own forest or its own error,
which only stands further down. -/
theorem read_append_of_name {els : List Element} {stop : Nat} {c : Char} (cs : List Char)
    (hfront : EndsLines front) (hread : read front 0 0 = .ok (els, stop)) (hname : isNameChar c) :
    (∀ more stop', read (c :: cs) 0 0 = .ok (more, stop') → read (front ++ c :: cs) 0 0 =
      .ok (els ++ more,
        (if front = [] then 0 else (normalize front).length) + (normalize (c :: cs)).length)) ∧
    ∀ e, read (c :: cs) 0 0 = .error e →
      read (front ++ c :: cs) 0 0 = .error (e.below (front.count '\n')) := by
  by_cases hne : front = []
  · subst hne
    obtain ⟨rfl, -⟩ : [] = els ∧ 1 = stop := Prod.mk.inj (Except.ok.inj hread)
    constructor
    · intro more stop' h
      rw [List.nil_append, h, stop_of_read h]
      simp
    · intro e h
      exact h
  obtain ⟨t, hsweep, -⟩ := read_eq_ok_iff.mp hread
  have happend := sweep_ofSource_append cs hfront hne hsweep hname
  constructor
  · intro more stop' h
    have hstop := stop_of_read h
    obtain ⟨u, hu, hpos⟩ := read_eq_ok_iff.mp h
    refine read_eq_ok_iff.mpr ⟨u.behind (normalize front), by rw [happend, hu]; rfl, ?_⟩
    rw [if_neg hne, ← hstop, ← hpos]
    rfl
  · intro e h
    rw [read_eq_error_iff] at h ⊢
    rw [happend, h]
    rfl

/-- An attribute list over two lines and an open text block do not reach into what follows, and an
error in it is found so many lines further down. -/
theorem read_append_of_name_list :
    read ("ul\n\tli(a,\nb).\n\t\tone\n\t\t\ttwo\n".toList ++ "p x".toList) 0 0 = .ok
        ([{ tag := "ul",
            children := [{ tag := "li", attributes := [("a", none), ("b", none)],
                           text := some "one\n\ttwo" }] },
          { tag := "p", text := some "x" }], 31) ∧
      read ("ul\n\tli(a,\nb).\n\t\tone\n\t\t\ttwo\n".toList ++ "p(\n".toList) 0 0 =
        .error ⟨6, 2⟩ := by
  have hread : read "ul\n\tli(a,\nb).\n\t\tone\n\t\t\ttwo\n".toList 0 0 = .ok
      ([{ tag := "ul",
          children := [{ tag := "li", attributes := [("a", none), ("b", none)],
                         text := some "one\n\ttwo" }] }], 27) := by rfl
  have hends : EndsLines "ul\n\tli(a,\nb).\n\t\tone\n\t\t\ttwo\n".toList := .inr (by decide)
  have hok : read "p x".toList 0 0 = .ok ([{ tag := "p", text := some "x" }], 4) := by rfl
  have herror : read "p(\n".toList 0 0 = .error ⟨1, 2⟩ := by rfl
  constructor
  · exact (read_append_of_name " x".toList hends hread (by decide)).1 _ _ hok
  · exact (read_append_of_name "(\n".toList hends hread (by decide)).2 _ herror

end read

end Outline

end Pagewright
