import Mathlib.Data.List.DropRight
import Pagewright.Proofs.Outline.Indent
import Pagewright.Proofs.Outline.Nesting
import Pagewright.Proofs.Outline.Sweep

/-! Carriage returns that are left before line ends. A text is read to its end also without them:
they lead no line, end no span, and stand behind the full stop that opens a text block. -/
namespace Pagewright.Outline

/-- A full stop outside quotes and brackets with nothing but blanks behind it. -/
def EndsWithStop (span : List Char) : Prop := ∃ front tail, span = front ++ '.' :: tail ∧
  (∀ c ∈ tail, Text.isBlank c) ∧ Nesting.after {} front = {}

section stop

open Nesting

variable {n : Nesting} {cs : List Char}

/-- The last piece behind the first one is a lone full stop exactly if the text ends with one that
is cut off. -/
theorem getLast?_cuts_iff {first : List Char} {rest : List (List Char)}
    (h : cuts isMark .kept n cs = first :: rest) :
    rest.getLast? = some ['.'] ↔ ∃ front, cs = front ++ ['.'] ∧ n.after front = {} := by
  induction cs generalizing n first rest with
  | nil =>
    obtain ⟨-, rfl⟩ := List.cons.inj h
    simp
  | cons c cs ih =>
    obtain ⟨next, more, hcuts, hjoin, hhead⟩ := exists_cuts_kept isMark (n.step c) cs
    have hlast := ih hcuts
    -- The text ends with its first character, or its rest ends as it does.
    have hsplit : (∃ front, c :: cs = front ++ ['.'] ∧ n.after front = {}) ↔
        (c = '.' ∧ cs = [] ∧ n = {}) ∨ more.getLast? = some ['.'] := by
      rw [hlast]
      constructor
      · rintro ⟨front, hfront, hafter⟩
        cases front with
        | nil =>
          obtain ⟨hc, hnil⟩ := List.cons.inj hfront
          exact .inl ⟨hc, hnil, hafter⟩
        | cons a front =>
          obtain ⟨rfl, hmore⟩ := List.cons.inj hfront
          exact .inr ⟨front, hmore, hafter⟩
      · rintro (⟨rfl, hnil, rfl⟩ | ⟨front, hfront, hafter⟩)
        · exact ⟨[], by rw [hnil]; rfl, rfl⟩
        · exact ⟨c :: front, by rw [hfront]; rfl, hafter⟩
    rw [hsplit]
    rw [cuts_cons hcuts] at h
    split at h
    next hcut =>
      obtain ⟨rfl, rfl⟩ := List.cons.inj h
      have hn : n = {} := by
        cases n
        simpa using hcut.2.symm
      subst hjoin
      cases more with
      | nil => simp [hn]
      | cons piece more =>
        obtain ⟨d, hd, -⟩ := hhead piece List.mem_cons_self
        have hne : piece ≠ [] := by rintro rfl; cases hd
        simp [hne]
    next hgo =>
      obtain ⟨rfl, rfl⟩ := List.cons.inj h
      refine (or_iff_right ?_).symm
      rintro ⟨rfl, -, rfl⟩
      exact hgo (by decide)

theorem getLast?_split_iff : (split isMark .kept cs).getLast? = some ['.'] ↔
    ∃ front, cs = front ++ ['.'] ∧ after {} front = {} := by
  obtain ⟨first, rest, hcuts, hjoin, hhead⟩ := exists_cuts_kept isMark {} cs
  have hlast := getLast?_cuts_iff hcuts
  have hrest : rest.filter (!·.isEmpty) = rest := by
    rw [List.filter_eq_self]
    intro piece hpiece
    obtain ⟨c, hc, -⟩ := hhead piece hpiece
    have hne : piece ≠ [] := by rintro rfl; cases hc
    simp [hne]
  rw [split, hcuts, ← hlast, List.filter_cons, hrest]
  cases rest with
  | cons piece rest => split <;> simp
  | nil =>
    have hfirst : first ≠ ['.'] := by
      rintro rfl
      exact absurd (hlast.mpr ⟨[], hjoin.symm, rfl⟩) (by simp)
    split <;> simp [hfirst]

theorem after_of_blank (h : ∀ c ∈ cs, Text.isBlank c) : n.after cs = n := by
  induction cs with
  | nil => rfl
  | cons c cs ih =>
    obtain ⟨hc, hcs⟩ := List.forall_mem_cons.mp h
    have hstep : n.step c = n := by
      have hquote : c ≠ '"' := by rintro rfl; exact absurd hc (by decide)
      have hopen : isOpener c = false := by
        simp only [isOpener, Bool.or_eq_false_iff, beq_eq_false_iff_ne]
        refine ⟨⟨?_, ?_⟩, ?_⟩ <;> rintro rfl <;> exact absurd hc (by decide)
      have hclose : isCloser c = false := by
        simp only [isCloser, Bool.or_eq_false_iff, beq_eq_false_iff_ne]
        refine ⟨⟨?_, ?_⟩, ?_⟩ <;> rintro rfl <;> exact absurd hc (by decide)
      simp [step, hquote, hopen, hclose]
    rw [after_cons, hstep, ih hcs]

theorem exists_trim_eq (cs : List Char) : ∃ lead tail, cs = lead ++ Text.trim cs ++ tail ∧
    (∀ c ∈ lead, Text.isBlank c) ∧ ∀ c ∈ tail, Text.isBlank c := by
  have hstart := List.takeWhile_append_dropWhile (p := Text.isBlank) (l := cs)
  have hend : Text.trimEnd (Text.trimStart cs) ++ (Text.trimStart cs).rtakeWhile Text.isBlank =
      Text.trimStart cs := List.rdropWhile_append_rtakeWhile ..
  refine ⟨cs.takeWhile Text.isBlank, (Text.trimStart cs).rtakeWhile Text.isBlank, ?_,
    fun c hc => List.mem_takeWhile_imp hc, fun c hc => List.mem_rtakeWhile_imp hc⟩
  rw [List.append_assoc, Text.trim, hend]
  exact hstart.symm

theorem trim_append_stop {front tail : List Char} (htail : ∀ c ∈ tail, Text.isBlank c) :
    Text.trim (front ++ '.' :: tail) = front.dropWhile Text.isBlank ++ ['.'] := by
  have hstop : ¬ Text.isBlank '.' := by decide
  have hstart : Text.trimStart (front ++ '.' :: tail) =
      front.dropWhile Text.isBlank ++ '.' :: tail := by
    unfold Text.trimStart
    rw [List.dropWhile_append, List.dropWhile_cons_of_neg hstop]
    split
    next hnil => rw [List.isEmpty_iff.mp hnil]; rfl
    next => rfl
  have htail' : ∀ c ∈ tail.reverse, Text.isBlank c := fun c hc => htail c (List.mem_reverse.mp hc)
  rw [Text.trim, hstart, Text.trimEnd, Text.dropEndWhile, List.append_cons, List.reverse_append,
    List.dropWhile_append_of_pos htail', List.reverse_concat, List.dropWhile_cons_of_neg hstop,
    List.reverse_cons, List.reverse_reverse]

/-- The last token is a lone full stop if the span ends with one. -/
theorem textBlock_iff {span : List Char} :
    (Modifiers.ofSpan span).textBlock = true ↔ EndsWithStop span := by
  have hsplit : (Modifiers.ofSpan span).textBlock = true ↔
      (split isMark .kept (Text.trim span)).getLast? = some ['.'] := decide_eq_true_iff
  rw [hsplit, getLast?_split_iff]
  constructor
  · rintro ⟨front, hfront, hafter⟩
    obtain ⟨lead, tail, hspan, hlead, htail⟩ := exists_trim_eq span
    refine ⟨lead ++ front, tail, ?_, htail, ?_⟩
    · rw [hspan, hfront]
      simp
    · rw [after_append, after_of_blank hlead, hafter]
  · rintro ⟨front, tail, rfl, htail, hafter⟩
    refine ⟨_, trim_append_stop htail, ?_⟩
    have hlead : ∀ c ∈ front.takeWhile Text.isBlank, Text.isBlank c := fun c hc =>
      List.mem_takeWhile_imp hc
    rw [← List.takeWhile_append_dropWhile (p := Text.isBlank) (l := front), after_append,
      after_of_blank hlead] at hafter
    exact hafter

end stop

section unify

variable {n : Nesting} {cs front back line : List Char} {lines : List (List Char)}

/-- What a text is cut at was cut at before its line ends were unified. -/
theorem exists_of_unifyLineEnds_eq {c : Char} (hc : c ≠ '\n') {front' back' : List Char}
    (h : unifyLineEnds cs = front' ++ c :: back') :
    ∃ front back, cs = front ++ c :: back ∧ unifyLineEnds front = front' ∧
      unifyLineEnds back = back' := by
  fun_induction unifyLineEnds cs generalizing front' with
  | case1 => simp at h
  | case2 cs ih =>
    cases front' with
    | nil => exact absurd (List.cons.inj h).1.symm hc
    | cons a front' =>
      obtain ⟨rfl, hmore⟩ := List.cons.inj h
      obtain ⟨front, back, rfl, rfl, hback⟩ := ih hmore
      exact ⟨'\r' :: '\n' :: front, back, rfl, rfl, hback⟩
  | case3 a cs hpair ih =>
    cases front' with
    | nil =>
      obtain ⟨rfl, hmore⟩ := List.cons.inj h
      exact ⟨[], cs, rfl, rfl, hmore⟩
    | cons b front' =>
      obtain ⟨rfl, hmore⟩ := List.cons.inj h
      obtain ⟨front, back, rfl, rfl, hback⟩ := ih hmore
      refine ⟨a :: front, back, rfl, ?_, hback⟩
      rw [unifyLineEnds]
      rintro more rfl rfl
      exact hpair _ rfl rfl

theorem blank_unifyLineEnds_iff (cs : List Char) :
    (∀ c ∈ unifyLineEnds cs, Text.isBlank c) ↔ ∀ c ∈ cs, Text.isBlank c := by
  fun_induction unifyLineEnds cs with
  | case1 => rfl
  | case2 cs ih =>
    have hreturn : Text.isBlank '\r' := by decide
    rw [List.forall_mem_cons, List.forall_mem_cons, List.forall_mem_cons, ih]
    exact (and_iff_right hreturn).symm
  | case3 c cs _ ih => rw [List.forall_mem_cons, List.forall_mem_cons, ih]

theorem step_return (n : Nesting) : n.step '\r' = n := by
  simp [Nesting.step, isOpener, isCloser]

theorem after_unifyLineEnds (n : Nesting) (cs : List Char) :
    n.after (unifyLineEnds cs) = n.after cs := by
  fun_induction unifyLineEnds cs generalizing n with
  | case1 => rfl
  | case2 cs ih => rw [Nesting.after_cons, Nesting.after_cons, Nesting.after_cons, step_return, ih]
  | case3 c cs _ ih => rw [Nesting.after_cons, Nesting.after_cons, ih]

/-- A span ends at the same place in a text whose line ends are unified. -/
theorem exists_spanLength?_unify {k : Nat} (h : n.spanLength? cs = some k) :
    ∃ k', n.spanLength? (unifyLineEnds cs) = some k' ∧
      (unifyLineEnds cs).drop k' = unifyLineEnds (cs.drop k) := by
  fun_induction unifyLineEnds cs generalizing n k with
  | case1 => simp [Nesting.spanLength?] at h
  | case2 cs ih =>
    rw [Nesting.spanLength?, if_neg (by simp), step_return] at h
    obtain ⟨k, hk, rfl⟩ := Option.map_eq_some_iff.mp h
    unfold Nesting.spanLength? at hk ⊢
    split at hk
    next hend =>
      cases hk
      exact ⟨0, by rw [if_pos hend], rfl⟩
    next hgo =>
      obtain ⟨j, hj, rfl⟩ := Option.map_eq_some_iff.mp hk
      obtain ⟨k', hk', hdrop⟩ := ih hj
      exact ⟨k' + 1, by rw [if_neg hgo, hk']; rfl, hdrop⟩
  | case3 c cs hpair ih =>
    unfold Nesting.spanLength? at h ⊢
    split at h
    next hend =>
      cases h
      refine ⟨0, by rw [if_pos hend], ?_⟩
      rw [List.drop_zero, List.drop_zero, unifyLineEnds]
      exact hpair
    next hgo =>
      obtain ⟨k, hk, rfl⟩ := Option.map_eq_some_iff.mp h
      obtain ⟨k', hk', hdrop⟩ := ih hk
      exact ⟨k' + 1, by rw [if_neg hgo, hk']; rfl, hdrop⟩

theorem endsWithStop_concat {span : List Char} {c : Char} (hc : Text.isBlank c) :
    EndsWithStop (span ++ [c]) ↔ EndsWithStop span := by
  constructor
  · rintro ⟨front, tail, hspan, htail, hafter⟩
    obtain rfl | ⟨tail, last, rfl⟩ := List.eq_nil_or_concat' tail
    · obtain ⟨-, hlast⟩ := List.append_inj' hspan rfl
      obtain rfl : c = '.' := List.singleton_inj.mp hlast
      exact absurd hc (by decide)
    · rw [← List.cons_append, ← List.append_assoc] at hspan
      obtain ⟨rfl, -⟩ := List.append_inj' hspan rfl
      exact ⟨front, tail, rfl, fun a ha => htail a (by simp [ha]), hafter⟩
  · rintro ⟨front, tail, rfl, htail, hafter⟩
    refine ⟨front, tail ++ [c], by simp, ?_, hafter⟩
    rw [List.forall_mem_append]
    exact ⟨htail, List.forall_mem_singleton.mpr hc⟩

theorem endsWithStop_unifyLineEnds (cs : List Char) :
    EndsWithStop (unifyLineEnds cs) ↔ EndsWithStop cs := by
  constructor
  · rintro ⟨front', tail', hsplit, htail, hafter⟩
    obtain ⟨front, tail, rfl, rfl, rfl⟩ := exists_of_unifyLineEnds_eq (by decide) hsplit
    rw [blank_unifyLineEnds_iff] at htail
    rw [after_unifyLineEnds] at hafter
    exact ⟨front, tail, rfl, htail, hafter⟩
  · rintro ⟨front, tail, rfl, htail, hafter⟩
    refine ⟨unifyLineEnds front, unifyLineEnds tail, ?_, ?_, ?_⟩
    · exact unifyLineEnds_append_of_getLast fun _ => by simp
    · rwa [blank_unifyLineEnds_iff]
    · rwa [after_unifyLineEnds]

end unify

section lines

variable {line front cs : List Char} {lines : List (List Char)}

/-- A line without a carriage return at its end. -/
def dropReturn (line : List Char) : List Char :=
  if line.getLast? = some '\r' then line.dropLast else line

theorem dropReturn_cases (line : List Char) :
    dropReturn line = line ∨ line = dropReturn line ++ ['\r'] := by
  unfold dropReturn
  split
  next hlast => exact .inr (List.dropLast_append_getLast? _ hlast).symm
  next => exact .inl rfl

theorem newline_notMem_dropReturn (h : '\n' ∉ line) : '\n' ∉ dropReturn line := by
  rcases dropReturn_cases line with heq | heq
  · rwa [heq]
  · rw [heq] at h
    exact fun hmem => h (List.mem_append_left _ hmem)

theorem unifyLineEnds_of_newline_notMem (h : '\n' ∉ cs) : unifyLineEnds cs = cs := by
  apply unifyLineEnds_eq_self
  intro hpair
  exact h (hpair.subset (by simp))

theorem unifyLineEnds_line (h : '\n' ∉ line) (cs : List Char) :
    unifyLineEnds (line ++ '\n' :: cs) = dropReturn line ++ '\n' :: unifyLineEnds cs := by
  by_cases hlast : line.getLast? = some '\r'
  · obtain ⟨own, rfl⟩ := List.getLast?_eq_some_iff.mp hlast
    have hown : '\n' ∉ own := fun hmem => h (List.mem_append_left _ hmem)
    have hdrop : dropReturn (own ++ ['\r']) = own := by simp [dropReturn]
    rw [hdrop, List.append_assoc, unifyLineEnds_append_of_getLast fun _ => by simp,
      unifyLineEnds_of_newline_notMem hown]
    rfl
  · have hdrop : dropReturn line = line := if_neg hlast
    rw [hdrop, unifyLineEnds_append_of_getLast fun hreturn => absurd hreturn hlast,
      unifyLineEnds_of_newline_notMem h]
    rfl

theorem unifyLineEnds_closed (h : ∀ line ∈ lines, '\n' ∉ line) :
    unifyLineEnds (closed lines) = closed (lines.map dropReturn) := by
  induction lines with
  | nil => rfl
  | cons line lines ih =>
    obtain ⟨hline, hlines⟩ := List.forall_mem_cons.mp h
    rw [closed_cons, unifyLineEnds_line hline, ih hlines, List.map_cons, closed_cons]

/-- A return leads no line and names nothing. -/
theorem takeWhile_dropReturn {p : Char → Bool} (hp : p '\r' = false) (line : List Char) :
    (dropReturn line).takeWhile p = line.takeWhile p := by
  rcases dropReturn_cases line with heq | heq
  · rw [heq]
  · have hstop : ['\r'].takeWhile p = [] := List.takeWhile_cons_of_neg (by simp [hp])
    conv_rhs => rw [heq, takeWhile_append_of_nil hstop]

theorem findIdx?_dropReturn (line : List Char) :
    (dropReturn line).findIdx? isNameChar = line.findIdx? isNameChar := by
  rcases dropReturn_cases line with heq | heq
  · rw [heq]
  · conv_rhs => rw [heq]
    rw [List.findIdx?_append]
    have hnone : ['\r'].findIdx? isNameChar = none := by decide
    simp [hnone]

theorem takeWhile_unifyLineEnds {p : Char → Bool} (hreturn : p '\r' = false)
    (hnewline : p '\n' = false) (cs : List Char) :
    (unifyLineEnds cs).takeWhile p = cs.takeWhile p := by
  fun_induction unifyLineEnds cs with
  | case1 => rfl
  | case2 cs _ =>
    rw [List.takeWhile_cons_of_neg (by simp [hnewline]),
      List.takeWhile_cons_of_neg (by simp [hreturn])]
  | case3 c cs _ ih => rw [List.takeWhile_cons, List.takeWhile_cons, ih]

end lines

section sweep

variable {s s' : Scanner}

/-- What is left at the second place is what is left at the first, with its line ends unified. -/
def Unified (s s' : Scanner) : Prop := s'.rest = unifyLineEnds s.rest

namespace Unified

theorem line (h : Unified s s') (hs : s.EndsLine) (hne : s.rest ≠ []) :
    s'.rest ≠ [] ∧ s'.line = dropReturn s.line ∧ Unified s.nextLine s'.nextLine := by
  obtain ⟨more, hmore⟩ := hs.rest_eq hne
  have hrest : s'.rest = dropReturn s.line ++ '\n' :: unifyLineEnds more :=
    (h.trans (congrArg unifyLineEnds hmore)).trans (unifyLineEnds_line s.not_mem_line more)
  have hline : s'.line = dropReturn s.line :=
    Scanner.line_of_rest (newline_notMem_dropReturn s.not_mem_line) hrest
  refine ⟨by simp [hrest], hline, ?_⟩
  rw [Unified, Scanner.rest_nextLine hmore, Scanner.rest_nextLine (hline ▸ hrest)]

theorem depth (h : Unified s s') (hs : s.EndsLine) (hne : s.rest ≠ []) : s'.depth = s.depth := by
  rw [Scanner.depth, (h.line hs hne).2.1, takeWhile_dropReturn (by decide), Scanner.depth]

/-- What stands inside a line may be skipped at both places, but not a return without the line end
behind it. -/
theorem skip_append (h : Unified s s') {front back : List Char} (hrest : s.rest = front ++ back)
    (hfront : '\n' ∉ front) (hcut : front.getLast? = some '\r' → back.head? ≠ some '\n') :
    Unified (s.skip front.length) (s'.skip front.length) := by
  have hrest' : s'.rest = front ++ unifyLineEnds back := by
    rw [h, hrest, unifyLineEnds_append_of_getLast hcut, unifyLineEnds_of_newline_notMem hfront]
  rw [Unified, Scanner.rest_skip, Scanner.rest_skip, hrest, hrest', List.drop_left, List.drop_left]

theorem skip_column (h : Unified s s') {column : Nat}
    (hname : s.line.findIdx? isNameChar = some column) :
    Unified (s.skip column) (s'.skip column) := by
  obtain ⟨hlt, hchar, -⟩ := List.findIdx?_eq_some_iff_getElem.mp hname
  obtain ⟨tail, htail⟩ : s.line <+: s.rest := List.takeWhile_prefix _
  have hsplit : s.rest = s.line.take column ++ (s.line[column] ::
      (s.line.drop (column + 1) ++ tail)) := by
    rw [← List.cons_append, ← List.drop_eq_getElem_cons hlt, ← List.append_assoc,
      List.take_append_drop, htail]
  have hskip := h.skip_append hsplit (fun hmem => s.not_mem_line (List.mem_of_mem_take hmem))
    fun _ heq => by
      rw [Option.some.inj heq] at hchar
      exact absurd hchar (by decide)
  rwa [List.length_take_of_le (Nat.le_of_lt hlt)] at hskip

theorem takeName (h : Unified s s') : (s'.takeWhile isNameChar).1 = (s.takeWhile isNameChar).1 ∧
    Unified (s.takeWhile isNameChar).2 (s'.takeWhile isNameChar).2 := by
  have hrun : s'.rest.takeWhile isNameChar = s.rest.takeWhile isNameChar := by
    rw [h, takeWhile_unifyLineEnds (by decide) (by decide)]
  have hname : ∀ c ∈ s.rest.takeWhile isNameChar, isNameChar c := fun c hc =>
    List.mem_takeWhile_imp hc
  have hskip := h.skip_append (List.takeWhile_append_dropWhile (p := isNameChar)).symm
    (fun hmem => absurd (hname _ hmem) (by decide))
    fun hlast => absurd (hname _ (List.mem_of_getLast? hlast)) (by decide)
  unfold Scanner.takeWhile
  rw [hrun]
  exact ⟨rfl, hskip⟩

theorem takeSpan (h : Unified s s') {span : List Char} {t : Scanner}
    (hspan : s.takeSpan = .ok (span, t)) : ∃ span' t', s'.takeSpan = .ok (span', t') ∧
      Unified t t' ∧ (Modifiers.ofSpan span').textBlock = (Modifiers.ofSpan span).textBlock := by
  obtain ⟨-, hhead⟩ := Scanner.takeSpan_eq_ok hspan
  unfold Scanner.takeSpan at hspan ⊢
  split at hspan
  next k hk =>
    cases hspan
    obtain ⟨k', hk', hdrop⟩ := exists_spanLength?_unify hk
    rw [← h] at hk' hdrop
    refine ⟨s'.rest.take k', s'.skip k', by rw [hk'], hdrop, ?_⟩
    -- The character behind the span is a blank that stays.
    obtain ⟨c, more, hmore, hc, hreturn⟩ : ∃ c more, s.rest.drop k = c :: more ∧
        Text.isBlank c ∧ c ≠ '\r' := by
      rcases hhead with heq | heq <;> obtain ⟨more, hmore⟩ := List.head?_eq_some_iff.mp heq <;>
        exact ⟨_, more, hmore, by decide, by decide⟩
    have hbehind := unifyLineEnds_cons hreturn more
    have hfull : unifyLineEnds (s.rest.take k ++ [c]) = s'.rest.take k' ++ [c] := by
      have hjoin : s.rest.take k ++ [c] ++ more = s.rest := by
        rw [← List.append_cons, ← hmore, List.take_append_drop]
      have hjoin' : s'.rest.take k' ++ [c] ++ unifyLineEnds more = s'.rest := by
        rw [← List.append_cons, ← hbehind, ← hmore, ← hdrop, List.take_append_drop]
      have hcut : unifyLineEnds (s.rest.take k ++ [c] ++ more) =
          unifyLineEnds (s.rest.take k ++ [c]) ++ unifyLineEnds more :=
        unifyLineEnds_append_of_getLast fun hlast => absurd (by simpa using hlast) hreturn
      rw [hjoin, ← h, ← hjoin'] at hcut
      exact (List.append_cancel_right hcut).symm
    rw [Bool.eq_iff_iff, textBlock_iff, textBlock_iff, ← endsWithStop_concat hc, ← hfull,
      endsWithStop_unifyLineEnds, endsWithStop_concat hc]
  next => cases hspan

theorem skipLines_deeper (h : Unified s s') (hs : s.EndsLine) (hne : s.rest ≠ []) (level : Nat) :
    Unified (s.nextLine.skipLines (s.deeperLines level).length)
      (s'.nextLine.skipLines (s'.deeperLines level).length) := by
  obtain ⟨lines, hlines, hnewline⟩ := EndsLines.exists_closed hs.nextLine
  obtain ⟨-, -, hnext⟩ := h.line hs hne
  have hlines' : s'.nextLine.rest = closed (lines.map dropReturn) := by
    rw [hnext, hlines, unifyLineEnds_closed hnewline]
  have hnewline' : ∀ line ∈ lines.map dropReturn, '\n' ∉ line := by
    rw [List.forall_mem_map]
    exact fun line hline => newline_notMem_dropReturn (hnewline line hline)
  have htabs (line : List Char) : leadingTabs (dropReturn line) = leadingTabs line :=
    congrArg List.length (takeWhile_dropReturn (p := (· == '\t')) rfl line)
  have hbelow := Scanner.deeperLines_of_closed level hnewline hlines
  have hbelow' : s'.deeperLines level = (s.deeperLines level).map dropReturn := by
    rw [Scanner.deeperLines_of_closed level hnewline' hlines', hbelow, List.takeWhile_map]
    congr 2
    funext line
    exact congrArg (fun tabs => decide (level < tabs)) (htabs line)
  have hle : (s.deeperLines level).length ≤ lines.length := by
    rw [hbelow]
    exact (List.takeWhile_prefix _).length_le
  have hdrop : ∀ line ∈ lines.drop (s.deeperLines level).length, '\n' ∉ line := fun line hline =>
    hnewline line (List.mem_of_mem_drop hline)
  rw [Unified, Scanner.rest_skipLines _ hnewline hlines hle, hbelow', List.length_map,
    Scanner.rest_skipLines _ hnewline' hlines' (by rwa [List.length_map]), ← List.map_drop,
    unifyLineEnds_closed hdrop]

theorem readEntry (h : Unified s s') (hs : s.EndsLine) {column level : Nat} {entry : Entry}
    (hname : s.line.findIdx? isNameChar = some column)
    (hentry : s.readEntry column level = .ok entry) :
    ∃ entry', s'.readEntry column level = .ok entry' ∧ entry'.textBlock = entry.textBlock ∧
      Unified entry.next entry'.next := by
  obtain ⟨span, t, hspan, rfl, ht, hne⟩ := Scanner.exists_span_of_readEntry hs hentry
  obtain ⟨htag, hafter⟩ := (h.skip_column hname).takeName
  obtain ⟨span', t', hspan', hbehind, hblock⟩ := hafter.takeSpan hspan
  refine ⟨_, Scanner.readEntry_of_takeSpan level hspan', hblock, ?_⟩
  unfold Entry.ofSpan
  dsimp only
  rw [hblock]
  split
  · exact hbehind.skipLines_deeper ht hne level
  · exact (hbehind.line ht hne).2.2

end Unified

/-- A text that is read to its end is also read to its end with its line ends unified. -/
theorem exists_sweep_of_unified {top limit : Nat} {forest els : List Element} {t : Scanner}
    (hs : s.EndsLine) (hsweep : sweep top limit forest s = .ok (els, t)) (hend : t.rest = []) :
    ∀ forest' s', Unified s s' →
      ∃ els' t', sweep top limit forest' s' = .ok (els', t') ∧ t'.rest = [] := by
  fun_induction sweep top limit forest s with
  | case1 limit forest s hnil =>
    intro forest' s' h
    have hnil' : s'.rest = [] := by rw [h, hnil]; rfl
    exact ⟨forest', s', sweep_of_end hnil', hnil'⟩
  | case2 limit forest s hne hname ih =>
    intro forest' s' h
    obtain ⟨-, hline, hnext⟩ := h.line hs hne
    rw [sweep_of_no_name (by rwa [hline, findIdx?_dropReturn])]
    exact ih hs.nextLine hsweep forest' _ hnext
  | case3 limit forest s hne column hname hdepth =>
    cases hsweep
    exact absurd hend hne
  | case4 => cases hsweep
  | case5 limit forest s hne column hname hdepth level entry hentry ih =>
    intro forest' s' h
    obtain ⟨-, hline, -⟩ := h.line hs hne
    obtain ⟨entry', hentry', hblock, hnext⟩ := h.readEntry hs hname hentry
    obtain ⟨n, -, hn⟩ := Scanner.readEntry_next hname hentry
    rw [sweep_of_name _ _ _ (by rwa [hline, findIdx?_dropReturn]), h.depth hs hne, if_neg hdepth,
      hentry']
    dsimp only [Except.bind]
    rw [hblock]
    exact ih (hn ▸ hs.skip n) hsweep _ _ hnext

theorem KeepsIndent.dropReturn {line : List Char} (h : KeepsIndent line) :
    KeepsIndent (dropReturn line) := by
  rwa [KeepsIndent, takeWhile_dropReturn (by decide)]

/-- Lines that are packed stay as they are when they are normalized again, but for returns that the
first time has brought before a line end. -/
theorem normalize_closed_of_keepsIndent {lines : List (List Char)} (hne : lines ≠ [])
    (h : ∀ line ∈ lines, '\n' ∉ line ∧ KeepsIndent line) :
    normalize (closed lines) = unifyLineEnds (closed lines) := by
  have hclosed : closed lines ≠ [] := by
    rw [closed_eq_unlines hne]
    simp
  have hdropped : ∀ line ∈ lines.map dropReturn, '\n' ∉ line ∧ KeepsIndent line := by
    rw [List.forall_mem_map]
    exact fun line hline => ⟨newline_notMem_dropReturn (h line hline).1, (h line hline).2.dropReturn⟩
  rw [normalize_of_endsLines (endsLines_closed lines) hclosed,
    unifyLineEnds_closed fun line hline => (h line hline).1, packIndent_closed_eq_self hdropped]

/-- Lines that are swept to their end are also read as a text of their own. -/
theorem exists_read_of_sweep {lines : List (List Char)} {els : List Element} {t : Scanner}
    (h : ∀ line ∈ lines, '\n' ∉ line ∧ KeepsIndent line)
    (hsweep : sweep 0 0 [] { text := closed lines } = .ok (els, t)) (hend : t.rest = []) :
    ∃ els' stop, read (closed lines) 0 0 = .ok (els', stop) := by
  by_cases hne : lines = []
  · subst hne
    exact ⟨_, _, rfl⟩
  · have hs : Scanner.EndsLine { text := closed lines } := endsLines_closed lines
    have hstart : Unified { text := closed lines } (.ofSource (closed lines)) :=
      normalize_closed_of_keepsIndent hne h
    obtain ⟨els', t', hsweep', -⟩ := exists_sweep_of_unified hs hsweep hend [] _ hstart
    exact ⟨els', t'.pos, read_eq_ok_iff.mpr ⟨t', hsweep', rfl⟩⟩

end sweep

end Pagewright.Outline
