import Mathlib.Data.Prod.Lex
import Mathlib.Data.Set.Function
import Mathlib.Order.Interval.Set.Defs
import Pagewright.Proofs.Outline.Sections

/-! Offsets and positions. Reading a text, its offsets and the positions on its lines go on side by
side: each position stands for one offset, and none is passed over. -/
namespace Pagewright.Text

open Outline (closed closed_cons)

/-- How many characters the first lines of a text take up together with their ends. -/
def lengthOfLines (text : List Char) (n : Nat) : Nat :=
  (closed ((lines text).take n)).length

namespace Position

/-- The offset that a position stands for. -/
def toOffset (text : List Char) (p : Position) : Nat :=
  lengthOfLines text (p.line - 1) + (p.column - 1)

/-- Positions in reading order: by their lines, and on one line by their columns. -/
def key (p : Position) : ℕ ×ₗ ℕ := toLex (p.line, p.column)

/-- A position of a text is a column of one of its lines, or the place behind that line. -/
structure IsIn (p : Position) (text : List Char) : Prop where
  one_le_line : 1 ≤ p.line
  one_le_column : 1 ≤ p.column
  column_le : ∃ line, (lines text)[p.line - 1]? = some line ∧ p.column ≤ line.length + 1

end Position

/-- An offset of a text has whole lines before it and, on its own line, a part of that line. -/
structure Cut (text : List Char) (offset : Nat) (front : List (List Char)) (part : List Char) :
    Prop where
  exists_text_eq : ∃ back, text = closed front ++ (part ++ back)
  offset_eq : offset = (closed front).length + part.length
  newline_notMem_front : ∀ line ∈ front, '\n' ∉ line
  newline_notMem_part : '\n' ∉ part

section cut

variable {text part : List Char} {front : List (List Char)} {offset i j : Nat} {p : Position}

theorem unlines_append_cons (front : List (List Char)) (line : List Char)
    (more : List (List Char)) :
    unlines (front ++ line :: more) = closed front ++ unlines (line :: more) := by
  by_cases hfront : front = []
  · rw [hfront]
    rfl
  · unfold unlines
    rw [joinWith_append '\n' hfront (List.cons_ne_nil line more),
      Outline.closed_eq_unlines hfront, List.append_assoc]
    rfl

theorem exists_unlines_eq (line : List Char) (more : List (List Char)) :
    ∃ back, unlines (line :: more) = line ++ back := by
  cases more with
  | nil => exact ⟨[], (List.append_nil line).symm⟩
  | cons next more => exact ⟨_, Outline.unlines_cons_cons line next more⟩

theorem exists_cut (h : offset ≤ text.length) : ∃ front part, Cut text offset front part := by
  obtain ⟨front, part, hlines⟩ := (List.eq_nil_or_concat' (lines (text.take offset))).resolve_left
    (fields_ne_nil '\n' _)
  have hmem : ∀ line ∈ front ++ [part], '\n' ∉ line := fun line hline =>
    not_mem_of_mem_fields (hlines ▸ hline)
  have htake : text.take offset = closed front ++ part := by
    calc text.take offset = unlines (lines (text.take offset)) := (joinWith_fields '\n' _).symm
      _ = closed front ++ unlines [part] := by rw [hlines, unlines_append_cons]
      _ = closed front ++ part := rfl
  refine ⟨front, part, ⟨text.drop offset, ?_⟩, ?_, fun line hline => hmem line (by simp [hline]),
    hmem part (by simp)⟩
  · rw [← List.append_assoc, ← htake, List.take_append_drop]
  · rw [← List.length_append, ← htake, List.length_take, Nat.min_eq_left h]

/-- What stands before a place of a line is the front of that line. -/
theorem exists_lines_append_eq (h : '\n' ∉ part) (back : List Char) :
    ∃ rest more, lines (part ++ back) = (part ++ rest) :: more := by
  induction part with
  | nil => exact List.exists_cons_of_ne_nil (fields_ne_nil '\n' back)
  | cons c part ih =>
    obtain ⟨hc, hpart⟩ : c ≠ '\n' ∧ '\n' ∉ part := by simpa [eq_comm] using h
    obtain ⟨rest, more, hlines⟩ := ih hpart
    refine ⟨rest, more, ?_⟩
    unfold lines at hlines ⊢
    rw [List.cons_append, fields, if_neg hc, hlines, List.cons_append]

theorem Cut.lines_eq (h : Cut text offset front part) :
    ∃ rest more, lines text = front ++ (part ++ rest) :: more := by
  obtain ⟨back, rfl⟩ := h.exists_text_eq
  obtain ⟨rest, more, hlines⟩ := exists_lines_append_eq h.newline_notMem_part back
  exact ⟨rest, more, by rw [Outline.lines_closed_append h.newline_notMem_front, hlines]⟩

theorem Cut.of_lines {rest : List Char} {more : List (List Char)}
    (h : lines text = front ++ (part ++ rest) :: more) :
    Cut text ((closed front).length + part.length) front part := by
  have hmem : ∀ line ∈ front ++ (part ++ rest) :: more, '\n' ∉ line := fun line hline =>
    not_mem_of_mem_fields (h ▸ hline)
  rw [List.forall_mem_append, List.forall_mem_cons] at hmem
  obtain ⟨back, hback⟩ := exists_unlines_eq (part ++ rest) more
  have htext : text = closed front ++ (part ++ (rest ++ back)) := by
    calc text = unlines (lines text) := (joinWith_fields '\n' text).symm
      _ = closed front ++ unlines ((part ++ rest) :: more) := by rw [h, unlines_append_cons]
      _ = closed front ++ (part ++ (rest ++ back)) := by rw [hback, List.append_assoc]
  exact ⟨⟨_, htext⟩, rfl, hmem.1, fun hnewline => hmem.2.1 (List.mem_append_left rest hnewline)⟩

theorem Cut.le_length (h : Cut text offset front part) : offset ≤ text.length := by
  obtain ⟨back, rfl⟩ := h.exists_text_eq
  rw [h.offset_eq]
  simp

theorem count_closed (h : ∀ line ∈ front, '\n' ∉ line) :
    (closed front).count '\n' = front.length := by
  induction front with
  | nil => rfl
  | cons line front ih =>
    obtain ⟨hline, hfront⟩ := List.forall_mem_cons.mp h
    simp [closed_cons, List.count_eq_zero.mpr hline, ih hfront]

theorem Cut.lengthOfLines_eq (h : Cut text offset front part) :
    lengthOfLines text front.length = (closed front).length := by
  obtain ⟨rest, more, hlines⟩ := h.lines_eq
  rw [lengthOfLines, hlines, List.take_left]

theorem ofOffset_of_notMem (h : '\n' ∉ part) (back : List Char) :
    Position.ofOffset (part ++ back) part.length = ⟨1, part.length + 1⟩ := by
  have hrun : part.reverse.takeWhile (· != '\n') = part.reverse := by
    rw [List.takeWhile_eq_self_iff]
    intro c hc
    simpa using ne_of_mem_of_not_mem (List.mem_reverse.mp hc) h
  unfold Position.ofOffset lastLineStart
  simp [hrun, List.count_eq_zero.mpr h]

theorem Cut.ofOffset_eq (h : Cut text offset front part) :
    Position.ofOffset text offset = ⟨front.length + 1, part.length + 1⟩ := by
  obtain ⟨back, htext⟩ := h.exists_text_eq
  rw [htext, h.offset_eq, Position.ofOffset_append (Outline.endsLines_closed front),
    ofOffset_of_notMem h.newline_notMem_part, count_closed h.newline_notMem_front]
  simp [Position.below, Nat.add_comm]

namespace Position

theorem toOffset_ofOffset (h : offset ≤ text.length) :
    (ofOffset text offset).toOffset text = offset := by
  obtain ⟨front, part, hcut⟩ := exists_cut h
  rw [hcut.ofOffset_eq, toOffset, hcut.offset_eq]
  simp only [Nat.add_sub_cancel, hcut.lengthOfLines_eq]

theorem isIn_ofOffset (h : offset ≤ text.length) : (ofOffset text offset).IsIn text := by
  obtain ⟨front, part, hcut⟩ := exists_cut h
  obtain ⟨rest, more, hlines⟩ := hcut.lines_eq
  rw [hcut.ofOffset_eq]
  refine ⟨Nat.le_add_left 1 _, Nat.le_add_left 1 _, part ++ rest, ?_, ?_⟩
  · rw [hlines]
    simp
  · simp

theorem IsIn.exists_ofOffset_eq (h : p.IsIn text) : ∃ i ≤ text.length, ofOffset text i = p := by
  obtain ⟨line, hline, hcolumn⟩ := h.column_le
  obtain ⟨hlt, rfl⟩ := List.getElem?_eq_some_iff.mp hline
  set front := (lines text).take (p.line - 1)
  set part := (lines text)[p.line - 1].take (p.column - 1)
  have hfront : front.length = p.line - 1 := List.length_take_of_le hlt.le
  have hpart : part.length = p.column - 1 := List.length_take_of_le (by omega)
  have hlines : lines text = front ++ (part ++ (lines text)[p.line - 1].drop (p.column - 1)) ::
      (lines text).drop (p.line - 1 + 1) := by
    rw [List.take_append_drop, ← List.drop_eq_getElem_cons hlt, List.take_append_drop]
  have hcut := Cut.of_lines hlines
  refine ⟨_, hcut.le_length, ?_⟩
  rw [hcut.ofOffset_eq, hfront, hpart, Nat.sub_add_cancel h.one_le_line,
    Nat.sub_add_cancel h.one_le_column]

theorem line_ofOffset_le (text : List Char) (h : i ≤ j) :
    (ofOffset text i).line ≤ (ofOffset text j).line := by
  have hsub : (text.take i).count '\n' ≤ (text.take j).count '\n' :=
    (List.take_prefix_take_left h).sublist.count_le '\n'
  exact Nat.succ_le_succ hsub

theorem key_ofOffset_lt (hij : i < j) (hj : j ≤ text.length) :
    (ofOffset text i).key < (ofOffset text j).key := by
  have hi := isIn_ofOffset (hij.le.trans hj)
  have hioffset := toOffset_ofOffset (hij.le.trans hj)
  have hjoffset := toOffset_ofOffset hj
  have hline := line_ofOffset_le text hij.le
  rw [key, key, Prod.Lex.toLex_lt_toLex]
  rcases hline.lt_or_eq with hlt | heq
  · exact .inl hlt
  · -- On one line both columns are counted from the same offset.
    refine .inr ⟨heq, ?_⟩
    unfold toOffset at hioffset hjoffset
    rw [heq] at hioffset
    have := hi.one_le_column
    dsimp only
    omega

end Position

end cut

namespace Position

/-- Offsets and positions go on side by side: a later offset has a later position, each position of
the text is that of one offset, and this offset is what the lines above and the column come to. -/
theorem ofOffset_strictMonoOn_bijOn (text : List Char) :
    StrictMonoOn (fun i => (ofOffset text i).key) (Set.Iic text.length) ∧
    Set.BijOn (ofOffset text) (Set.Iic text.length) {p | p.IsIn text} ∧
    ∀ i ≤ text.length, 1 ≤ (ofOffset text i).line ∧ 1 ≤ (ofOffset text i).column ∧
      (ofOffset text i).toOffset text = i := by
  refine ⟨fun i _ j hj hij => key_ofOffset_lt hij hj, ⟨?_, ?_, ?_⟩, ?_⟩
  · exact fun i hi => isIn_ofOffset hi
  · intro i hi j hj hsame
    rw [← toOffset_ofOffset hi, hsame, toOffset_ofOffset hj]
  · exact fun p hp => hp.exists_ofOffset_eq
  · exact fun i hi => ⟨(isIn_ofOffset hi).one_le_line, (isIn_ofOffset hi).one_le_column,
      toOffset_ofOffset hi⟩

/-- At a line end, on an empty line and behind the last line. -/
theorem ofOffset_strictMonoOn_bijOn_empty_line :
    let text := "p\n\nq\n".toList
    (ofOffset text 1 = ⟨1, 2⟩ ∧ ofOffset text 2 = ⟨2, 1⟩ ∧ ofOffset text 5 = ⟨4, 1⟩) ∧
      (ofOffset text 1).key < (ofOffset text 2).key ∧
      (∃ i ≤ text.length, ofOffset text i = ⟨3, 2⟩) ∧
      (5 ≤ text.length ∧ (ofOffset text 5).toOffset text = 5) := by
  intro text
  obtain ⟨hmono, hbij, hoffset⟩ := ofOffset_strictMonoOn_bijOn text
  have hless : (ofOffset text 1).key < (ofOffset text 2).key :=
    hmono (Set.mem_Iic.mpr (by decide)) (Set.mem_Iic.mpr (by decide)) (by decide)
  have hisIn : IsIn ⟨3, 2⟩ text := ⟨by decide, by decide, "q".toList, by decide⟩
  exact ⟨by decide, hless, hbij.surjOn hisIn, by decide, (hoffset 5 (by decide)).2.2⟩

end Position

end Pagewright.Text
