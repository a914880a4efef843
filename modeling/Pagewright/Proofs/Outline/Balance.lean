import Mathlib.Algebra.Group.Nat.Even
import Mathlib.Data.List.Induction
import Mathlib.Order.Bounds.Basic
import Pagewright.Proofs.Outline.Line
import Pagewright.Proofs.Outline.Nesting

/-! Quotes and brackets by their numbers. A scanner carries what is open along; what it carries is
what can be counted before its position, so a span ends where the counts say. -/
namespace Pagewright.Outline

/-- The double quotes of the text come in pairs, so that what follows stands outside them. -/
def Unquoted (cs : List Char) : Prop := Even (cs.count '"')

instance (cs : List Char) : Decidable (Unquoted cs) := inferInstanceAs (Decidable (Even _))

/-- How many characters of a kind stand outside double quotes. -/
def countUnquoted (p : Char → Bool) (cs : List Char) : Nat :=
  (List.range cs.length).countP fun i => decide (Unquoted (cs.take i)) && cs[i]?.any p

section counts

variable (cs : List Char) (c : Char)

theorem unquoted_concat : Unquoted (cs ++ [c]) ↔ if c = '"' then ¬ Unquoted cs else Unquoted cs := by
  unfold Unquoted
  rw [List.count_append]
  by_cases hc : c = '"'
  · subst hc
    rw [if_pos rfl, List.count_singleton_self, Nat.even_add_one]
  · rw [if_neg hc, List.count_singleton, if_neg (by simpa using hc), Nat.add_zero]

theorem countUnquoted_concat (p : Char → Bool) : countUnquoted p (cs ++ [c]) =
    countUnquoted p cs + if Unquoted cs ∧ p c then 1 else 0 := by
  have hbefore : ∀ i ∈ List.range cs.length,
      (decide (Unquoted ((cs ++ [c]).take i)) && (cs ++ [c])[i]?.any p) =
        (decide (Unquoted (cs.take i)) && cs[i]?.any p) := by
    intro i hi
    have hlt : i < cs.length := List.mem_range.mp hi
    rw [List.take_append_of_le_length hlt.le, List.getElem?_append_left hlt]
  unfold countUnquoted
  rw [List.length_append, List.length_singleton, List.range_succ, List.countP_append,
    List.countP_congr fun i hi => by rw [hbefore i hi]]
  simp [List.countP_singleton]

theorem isCloser_of_isOpener {c : Char} (h : isOpener c) : isCloser c = false := by
  have hcases : (c = '(' ∨ c = '[') ∨ c = '\x7b' := by simpa [isOpener] using h
  rcases hcases with (rfl | rfl) | rfl <;> rfl

/-- What is open behind a text is counted in it. -/
theorem Nesting.after_eq : Nesting.after {} cs =
    { depth := (countUnquoted isOpener cs : Int) - countUnquoted isCloser cs
      quoted := !decide (Unquoted cs) } := by
  induction cs using List.reverseRecOn with
  | nil => decide
  | append_singleton cs c ih =>
    rw [after_append, after_cons, after_nil, ih, Nesting.step]
    simp only [countUnquoted_concat, unquoted_concat]
    by_cases hquote : c = '"'
    · subst hquote
      simp [isOpener, isCloser]
    · by_cases hquoted : Unquoted cs
      · by_cases hopen : isOpener c
        · have hclose := isCloser_of_isOpener hopen
          simp only [hquote, hquoted, hopen, hclose, and_true, and_false, if_true, if_false,
            decide_true, Bool.not_true, Bool.false_eq_true]
          congr 1
          omega
        · by_cases hclose : isCloser c
          · simp only [hquote, hquoted, hopen, hclose, and_true, and_false, if_true, if_false,
              decide_true, Bool.not_true, Bool.false_eq_true]
            congr 1
            omega
          · simp [hquote, hquoted, hopen, hclose]
      · simp [hquote, hquoted]

end counts

/-- A span that begins at an offset may end at another: a blank or a line end stands there, outside
double quotes, and between them at most as many brackets are opened as are closed. -/
structure EndsSpan (text : List Char) (start i : Nat) : Prop where
  start_le : start ≤ i
  stop : ∃ c, text[i]? = some c ∧ (c = ' ' ∨ c = '\n')
  unquoted : Unquoted (text.extract start i)
  closed : countUnquoted isOpener (text.extract start i) ≤
    countUnquoted isCloser (text.extract start i)

section span

variable {text : List Char} {start : Nat}

theorem endsAt_iff {k : Nat} :
    Nesting.EndsAt {} (text.drop start) k ↔ EndsSpan text start (start + k) := by
  have hpassed : (text.drop start).take k = text.extract start (start + k) := by
    rw [List.extract_eq_take_drop, Nat.add_sub_cancel_left]
  have hclosed (m n : Nat) : (m : Int) - n ≤ 0 ↔ m ≤ n := by omega
  rw [Nesting.EndsAt, hpassed, Nesting.after_eq, List.getElem?_drop]
  constructor
  · rintro ⟨⟨c, hc, hend⟩, hquoted, hdepth⟩
    exact ⟨Nat.le_add_right _ _, ⟨c, hc, by simpa [isSpanEnd] using hend⟩, by simpa using hquoted,
      (hclosed _ _).mp hdepth⟩
  · rintro ⟨-, ⟨c, hc, hend⟩, hquoted, hclose⟩
    exact ⟨⟨c, hc, by simpa [isSpanEnd] using hend⟩, by simpa using hquoted,
      (hclosed _ _).mpr hclose⟩

theorem spanLength?_iff_isLeast {k : Nat} : Nesting.spanLength? {} (text.drop start) = some k ↔
    IsLeast {i | EndsSpan text start i} (start + k) := by
  rw [Nesting.spanLength?_eq_some_iff, endsAt_iff]
  refine and_congr_right fun _ => ?_
  constructor
  · intro h i hi
    by_contra hlt
    obtain ⟨j, rfl⟩ := Nat.exists_eq_add_of_le hi.start_le
    exact h j (by omega) (endsAt_iff.mpr hi)
  · intro h i hi hends
    have hle : start + k ≤ start + i := h (endsAt_iff.mp hends)
    omega

theorem spanLength?_eq_none_iff_forall : Nesting.spanLength? {} (text.drop start) = none ↔
    ∀ i, ¬ EndsSpan text start i := by
  rw [Nesting.spanLength?_eq_none_iff]
  constructor
  · intro h i hi
    obtain ⟨j, rfl⟩ := Nat.exists_eq_add_of_le hi.start_le
    exact h j (endsAt_iff.mpr hi)
  · exact fun h i hi => h (start + i) (endsAt_iff.mp hi)

theorem trySpan_eq (s : Scanner) : s.trySpan =
    match Nesting.spanLength? {} s.rest with
    | some n => (.ok (s.rest.take n), s.skip n)
    | none => (.error ⟨.ofOffset s.text s.pos⟩, s) := by
  unfold Scanner.trySpan Scanner.takeSpan
  cases Nesting.spanLength? {} s.rest <;> rfl

/-- A span goes up to the first place where it may end, which is left to be read. If there is none,
the error tells where the span begins, and the scanner stays there. -/
theorem trySpan_eq_iff (text : List Char) (start : Nat) (s : Scanner) :
    (∀ span, Scanner.trySpan { text, pos := start } = (.ok span, s) ↔
      ∃ i, IsLeast {i | EndsSpan text start i} i ∧ span = text.extract start i ∧
        s = { text, pos := i }) ∧
    (∀ e, Scanner.trySpan { text, pos := start } = (.error e, s) ↔
      (∀ i, ¬ EndsSpan text start i) ∧ e = ⟨.ofOffset text start⟩ ∧
        s = { text, pos := start }) := by
  rw [trySpan_eq]
  dsimp only
  cases hlength : Nesting.spanLength? {} (text.drop start) with
  | none =>
    have hnone := spanLength?_eq_none_iff_forall.mp hlength
    constructor
    · intro span
      exact iff_of_false nofun fun ⟨i, hi, _⟩ => hnone i hi.1
    · intro e
      constructor
      · intro h
        obtain ⟨herror, hs⟩ := Prod.mk.inj h
        exact ⟨hnone, (Except.error.inj herror).symm, hs.symm⟩
      · rintro ⟨-, rfl, rfl⟩
        rfl
  | some k =>
    have hleast := spanLength?_iff_isLeast.mp hlength
    have hspan : (text.drop start).take k = text.extract start (start + k) := by
      rw [List.extract_eq_take_drop, Nat.add_sub_cancel_left]
    have hskip : Scanner.skip { text, pos := start } k = { text, pos := start + k } :=
      Scanner.ext rfl rfl
    constructor
    · intro span
      dsimp only
      rw [hspan, hskip]
      constructor
      · intro h
        obtain ⟨hok, hs⟩ := Prod.mk.inj h
        exact ⟨start + k, hleast, (Except.ok.inj hok).symm, hs.symm⟩
      · rintro ⟨i, hi, rfl, rfl⟩
        rw [hleast.unique hi]
    · intro e
      exact iff_of_false nofun fun ⟨hnone, _⟩ => hnone _ hleast.1

/-- Closing brackets that close nothing let a span end inside later brackets, but a blank in quotes
does not end it. -/
example : Scanner.trySpan { text := "p)(a\" b\" c".toList, pos := 1 } =
    (.ok ")(a\" b\"".toList, { text := "p)(a\" b\" c".toList, pos := 8 }) := by rfl

end span

end Pagewright.Outline
