import Mathlib.Order.Bounds.Basic
import Pagewright.Outline.Move
import Pagewright.Proofs.Outline.Sweep

/-! What a scanner hands out is what it passes. Each step takes the text from the place where it
begins to the place where it ends, and so does every run of steps. -/
namespace Pagewright.Outline

/-- From a place to one that is not before it, exactly the text between them was taken. -/
structure Takes (s : Scanner) (cs : List Char) (s' : Scanner) : Prop where
  text_eq : s'.text = s.text
  le_pos : s.pos ≤ s'.pos
  pos_le : s'.pos ≤ s.text.length
  taken_eq : cs = s.text.extract s.pos s'.pos

section passage

variable {s s' s'' : Scanner} {cs cs' : List Char} {n : Nat}

theorem extract_append_extract (cs : List Char) {a b c : Nat} (hab : a ≤ b) (hbc : b ≤ c) :
    cs.extract a b ++ cs.extract b c = cs.extract a c := by
  obtain ⟨m, rfl⟩ := Nat.exists_eq_add_of_le hab
  obtain ⟨n, rfl⟩ := Nat.exists_eq_add_of_le hbc
  have hsum : a + m + n - a = m + n := by omega
  rw [List.extract_eq_take_drop, List.extract_eq_take_drop, List.extract_eq_take_drop, hsum,
    Nat.add_sub_cancel_left, Nat.add_sub_cancel_left, List.take_add, List.drop_drop]

namespace Takes

theorem trans (h : Takes s cs s') (h' : Takes s' cs' s'') : Takes s (cs ++ cs') s'' where
  text_eq := h'.text_eq.trans h.text_eq
  le_pos := h.le_pos.trans h'.le_pos
  pos_le := h.text_eq ▸ h'.pos_le
  taken_eq := by
    rw [h.taken_eq, h'.taken_eq, h.text_eq, extract_append_extract _ h.le_pos h'.le_pos]

theorem within (h : Takes s cs s') : s'.Within := by
  unfold Scanner.Within
  rw [h.text_eq]
  exact h.pos_le

end Takes

namespace Scanner

theorem takes_self (h : s.Within) : Takes s [] s where
  text_eq := rfl
  le_pos := le_rfl
  pos_le := h
  taken_eq := by simp

theorem takes_skip (h : s.Within) (hn : n ≤ s.rest.length) :
    Takes s (s.rest.take n) (s.skip n) where
  text_eq := rfl
  le_pos := Nat.le_add_right _ n
  pos_le := h.skip hn
  taken_eq := by
    have hpos : (s.skip n).pos - s.pos = n := Nat.add_sub_cancel_left ..
    rw [List.extract_eq_take_drop, hpos, s.rest_eq]

/-- Where fewer characters are left, all of them are taken. -/
theorem advance_eq (h : s.Within) (n : Nat) : s.advance n =
    (s.rest.take (min n s.rest.length), s.skip (min n s.rest.length)) := by
  have hlength := h.length_rest
  have hpos : min (s.pos + n) s.text.length = s.pos + min n s.rest.length := by omega
  unfold advance
  rw [← List.take_eq_take_min]
  exact congrArg _ (ext rfl hpos)

theorem takes_takeWhile (h : s.Within) (p : Char → Bool) :
    Takes s (s.takeWhile p).1 (s.takeWhile p).2 := by
  have hrun : s.rest.takeWhile p <+: s.rest := List.takeWhile_prefix p
  have htakes := takes_skip h hrun.length_le
  rwa [← List.prefix_iff_eq_take.mp hrun] at htakes

theorem takes_perform (h : s.Within) (move : Move) :
    Takes s (s.perform move).1.taken (s.perform move).2 := by
  cases move with
  | peek offset => exact takes_self h
  | atEnd => exact takes_self h
  | lineEnd => exact takes_self h
  | advance n =>
    have htakes := takes_skip h (Nat.min_le_right n s.rest.length)
    rwa [perform, advance_eq h n]
  | takeWhile p => exact takes_takeWhile h p
  | span =>
    unfold perform trySpan takeSpan
    cases hlength : Nesting.spanLength? {} s.rest with
    | none => exact takes_self h
    | some n => exact takes_skip h (Nesting.spanLength?_lt hlength).le

/-- A step that hands out no text leaves the scanner where it is. -/
theorem perform_of_ne_text (move : Move) (h : ∀ cs, (s.perform move).1 ≠ .text cs) :
    (s.perform move).2 = s := by
  cases move with
  | peek offset => rfl
  | atEnd => rfl
  | lineEnd => rfl
  | advance n => exact absurd rfl (h _)
  | takeWhile p => exact absurd rfl (h _)
  | span =>
    unfold perform trySpan at h ⊢
    cases hspan : s.takeSpan with
    | error e => rfl
    | ok taken =>
      simp only [hspan] at h
      exact absurd rfl (h _)

theorem takes_run (h : s.Within) (moves : List Move) :
    Takes s ((s.run moves).1.flatMap Answer.taken) (s.run moves).2 := by
  induction moves generalizing s with
  | nil => exact takes_self h
  | cons move moves ih =>
    have hstep := takes_perform h move
    exact hstep.trans (ih hstep.within)

/-- The end of the line is the first line end from here on, or the end of the text. -/
theorem isLeast_lineEnd (h : s.Within) :
    IsLeast {i | s.pos ≤ i ∧ (s.text[i]? = some '\n' ∨ i = s.text.length)} s.lineEnd := by
  have hlength := h.length_rest
  have hget (n : Nat) : s.rest[n]? = s.text[s.pos + n]? := by
    rw [s.rest_eq, List.getElem?_drop]
  unfold lineEnd
  cases hfind : s.rest.findIdx? (· == '\n') with
  | none =>
    have hnone : ∀ c ∈ s.rest, c ≠ '\n' := by simpa using hfind
    refine ⟨⟨h, .inr rfl⟩, ?_⟩
    rintro i ⟨hi, hnewline | rfl⟩
    · obtain ⟨k, rfl⟩ := Nat.exists_eq_add_of_le hi
      rw [← hget] at hnewline
      exact absurd rfl (hnone _ (List.mem_of_getElem? hnewline))
    · exact le_rfl
  | some n =>
    obtain ⟨hlt, hnewline, hbefore⟩ := List.findIdx?_eq_some_iff_getElem.mp hfind
    refine ⟨⟨Nat.le_add_right _ n, .inl ?_⟩, ?_⟩
    · rw [← hget, List.getElem?_eq_getElem hlt]
      simpa using hnewline
    rintro i ⟨hi, hstands | rfl⟩
    · obtain ⟨k, rfl⟩ := Nat.exists_eq_add_of_le hi
      refine Nat.add_le_add_left ?_ s.pos
      by_contra hk
      rw [Nat.not_le] at hk
      rw [← hget, List.getElem?_eq_getElem (hk.trans hlt)] at hstands
      exact absurd (Option.some.inj hstands) (by simpa using hbefore k hk)
    · dsimp only
      omega

/-- Nothing is lost and nothing is handed out twice: what the steps of a run hand out is the text
from its start to the place where it leaves the scanner, and a step that hands out nothing, a failed
one included, does not move it. -/
theorem run_takes_all (text : List Char) (start : Nat) (hstart : start ≤ text.length)
    (moves : List Move) :
    let s : Scanner := { text, pos := start }
    let s' := (s.run moves).2
    Takes s ((s.run moves).1.flatMap Answer.taken) s' ∧
      (∀ move, Takes s' (s'.perform move).1.taken (s'.perform move).2 ∧
        ((∀ cs, (s'.perform move).1 ≠ .text cs) → (s'.perform move).2 = s')) ∧
      IsLeast {i | s'.pos ≤ i ∧ (text[i]? = some '\n' ∨ i = text.length)} s'.lineEnd := by
  intro s s'
  have hwithin : s.Within := hstart
  have hrun : Takes s _ s' := takes_run hwithin moves
  refine ⟨hrun, fun move => ⟨takes_perform hrun.within move, perform_of_ne_text move⟩, ?_⟩
  have hline := isLeast_lineEnd hrun.within
  rwa [hrun.text_eq] at hline

/-- A span that is never closed is tried in the middle of a run, which goes on past the end. -/
theorem run_takes_all_unclosed :
    let text := "div(a\nb".toList
    let s : Scanner := { text, pos := 1 }
    let name : List Move := [.takeWhile isNameChar]
    let moves : List Move := name ++ [.span, .advance 1, .lineEnd, .peek (-1), .advance 9]
    1 ≤ text.length ∧ (s.run name).2.pos = 3 ∧ (s.run moves).2.pos = 7 ∧
      (s.run moves).1.flatMap Answer.taken = text.extract 1 7 ∧
      ((s.run name).2.perform .span).2 = (s.run name).2 ∧
      IsLeast {i | 3 ≤ i ∧ (text[i]? = some '\n' ∨ i = text.length)} 5 := by
  intro text s name moves
  have hstart : 1 ≤ text.length := by decide
  have hfailed : ((s.run name).2.perform .span).1 = .failed ⟨⟨1, 4⟩⟩ := rfl
  obtain ⟨-, hstep, hline⟩ := run_takes_all text 1 hstart name
  refine ⟨hstart, rfl, rfl, (run_takes_all text 1 hstart moves).1.taken_eq, ?_, hline⟩
  exact (hstep .span).2 fun cs => by rw [hfailed]; exact nofun

end Scanner

end passage

end Pagewright.Outline
