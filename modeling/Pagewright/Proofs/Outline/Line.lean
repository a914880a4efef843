import Mathlib.Data.List.TakeWhile
import Pagewright.Outline.Reader

/-! Lines as a scanner sees them: a tag and the end of a text block are searched line by line. -/
namespace Pagewright.Outline

def isIndent (c : Char) : Bool := c == ' ' || c == '\t'

theorem isIndent_of_isNameChar {c : Char} (h : isNameChar c) : isIndent c = false := by
  simp only [isIndent, Bool.or_eq_false_iff, beq_eq_false_iff_ne]
  constructor <;> rintro rfl <;> exact absurd h (by decide)

/-- A run does not go on in what it would not begin. -/
theorem takeWhile_append_of_nil {α : Type} {p : α → Bool} {back : List α}
    (h : back.takeWhile p = []) (front : List α) :
    (front ++ back).takeWhile p = front.takeWhile p := by
  rw [List.takeWhile_append, h, List.append_nil]
  split
  next hall => exact ((List.takeWhile_prefix p).eq_of_length hall).symm
  next => rfl

namespace Scanner

theorem ext {s t : Scanner} (htext : s.text = t.text) (hpos : s.pos = t.pos) : s = t := by
  obtain ⟨_, _, _, hs⟩ := s
  obtain ⟨_, _, _, ht⟩ := t
  dsimp only at htext hpos
  subst htext hpos hs ht
  rfl

@[simp] theorem skip_zero (s : Scanner) : s.skip 0 = s := ext rfl rfl

@[simp] theorem skip_skip (s : Scanner) (m n : Nat) : (s.skip m).skip n = s.skip (m + n) :=
  ext rfl (Nat.add_assoc s.pos m n)

@[simp] theorem rest_skip (s : Scanner) (n : Nat) : (s.skip n).rest = s.rest.drop n := rfl

/-- What is left of the line at the position, without its end. -/
def line (s : Scanner) : List Char := s.rest.takeWhile (· != '\n')

/-- Tabs among the blanks and tabs that lead the line. -/
def depth (s : Scanner) : Nat := (s.line.takeWhile isIndent).count '\t'

/-- The start of the next line, or the end of the text. -/
def nextLine (s : Scanner) : Scanner := s.skip (min (s.line.length + 1) s.rest.length)

def skipLines : Nat → Scanner → Scanner
  | 0, s => s
  | n + 1, s => skipLines n s.nextLine

/-- A line that has begun has an end. -/
def EndsLine (s : Scanner) : Prop := s.rest = [] ∨ s.rest.getLast? = some '\n'

theorem not_mem_line (s : Scanner) : '\n' ∉ s.line := fun h => by
  simpa using List.mem_takeWhile_imp h

theorem line_of_rest {s : Scanner} {line more : List Char} (hline : '\n' ∉ line)
    (h : s.rest = line ++ '\n' :: more) : s.line = line := by
  have hall : ∀ c ∈ line, (c != '\n') = true := fun c hc => by
    simpa using fun he : c = '\n' => hline (he ▸ hc)
  rw [Scanner.line, h, List.takeWhile_append_of_pos hall]
  simp

theorem rest_eq_line (s : Scanner) :
    s.rest = s.line ∨ ∃ more, s.rest = s.line ++ '\n' :: more := by
  have happ := List.takeWhile_append_dropWhile (p := (· != '\n')) (l := s.rest)
  cases hd : s.rest.dropWhile (· != '\n') with
  | nil => exact .inl (by rw [hd, List.append_nil] at happ; exact happ.symm)
  | cons c more =>
    have hc : c = '\n' := by simpa [hd] using List.head?_dropWhile_not (· != '\n') s.rest
    exact .inr ⟨more, by rw [hd, hc] at happ; exact happ.symm⟩

theorem EndsLine.skip {s : Scanner} (h : s.EndsLine) (n : Nat) : (s.skip n).EndsLine := by
  rcases h with h | h
  · exact .inl (by simp [h])
  · by_cases hn : n < s.rest.length
    · refine .inr ?_
      rw [rest_skip, List.getLast?_drop, if_neg (by omega), h]
    · exact .inl (List.drop_eq_nil_of_le (by omega))

theorem EndsLine.nextLine {s : Scanner} (h : s.EndsLine) : s.nextLine.EndsLine := h.skip _

theorem EndsLine.rest_eq {s : Scanner} (h : s.EndsLine) (hne : s.rest ≠ []) :
    ∃ more, s.rest = s.line ++ '\n' :: more := by
  rcases s.rest_eq_line with hl | hl
  · rcases h with h | h
    · exact absurd h hne
    · rw [hl] at h
      exact absurd (List.mem_of_getLast? h) s.not_mem_line
  · exact hl

theorem nextLine_eq {s : Scanner} {more : List Char} (h : s.rest = s.line ++ '\n' :: more) :
    s.nextLine = s.skip (s.line.length + 1) := by
  have hlen : s.rest.length = s.line.length + (more.length + 1) := by
    simpa using congrArg List.length h
  rw [nextLine, Nat.min_eq_left (by omega)]

theorem rest_nextLine {s : Scanner} {more : List Char} (h : s.rest = s.line ++ '\n' :: more) :
    s.nextLine.rest = more := by
  have hdrop := congrArg (List.drop (s.line.length + 1)) h
  rw [nextLine_eq h, rest_skip, hdrop]
  simp

theorem rest_nextLine_lt {s : Scanner} (h : s.rest ≠ []) :
    s.nextLine.rest.length < s.rest.length := by
  have := List.length_pos_iff.mpr h
  simp only [nextLine, rest_skip, List.length_drop]
  omega

/-- Nothing was passed that is not in the text. -/
def Within (s : Scanner) : Prop := s.pos ≤ s.text.length

theorem Within.length_rest {s : Scanner} (h : s.Within) :
    s.pos + s.rest.length = s.text.length := by
  unfold Within at h
  rw [s.rest_eq, List.length_drop]
  omega

theorem Within.skip {s : Scanner} (h : s.Within) {n : Nat} (hn : n ≤ s.rest.length) :
    (s.skip n).Within := by
  have hlength := h.length_rest
  change s.pos + n ≤ s.text.length
  omega

theorem Within.nextLine {s : Scanner} (h : s.Within) : s.nextLine.Within :=
  h.skip (Nat.min_le_right _ _)

theorem Within.skipLines {s : Scanner} (h : s.Within) (n : Nat) : (s.skipLines n).Within := by
  induction n generalizing s with
  | zero => exact h
  | succ n ih => exact ih h.nextLine

theorem Within.pos_of_end {s : Scanner} (h : s.Within) (hend : s.rest = []) :
    s.pos = s.text.length := by
  have hlength := h.length_rest
  rwa [hend] at hlength

end Scanner

def TagLine.shift (n : Nat) (t : TagLine) : TagLine := ⟨n + t.lineStart, n + t.tagStart, t.depth⟩

theorem findTag_shift (n seen start depth : Nat) (leading : Bool) (cs : List Char) :
    findTag (n + seen) (n + start) depth leading cs =
      (findTag seen start depth leading cs).map (·.shift n) := by
  induction cs generalizing seen start depth leading with
  | nil => rfl
  | cons c cs ih =>
    simp only [findTag, Nat.add_assoc, ih]
    split
    · rfl
    · split <;> (try split) <;> rfl

/-- Inside a line the search counts the tabs that still lead it. -/
theorem findTag_of_name {line : List Char} {column : Nat} (tail : List Char)
    (seen start depth : Nat) (leading : Bool) (hline : '\n' ∉ line)
    (h : line.findIdx? isNameChar = some column) :
    findTag seen start depth leading (line ++ tail) = some ⟨start, seen + column,
      depth + if leading then (line.takeWhile isIndent).count '\t' else 0⟩ := by
  induction line generalizing seen depth leading column with
  | nil => simp at h
  | cons c line ih =>
    obtain ⟨hc, hmore⟩ : c ≠ '\n' ∧ '\n' ∉ line := by simpa [eq_comm] using hline
    rw [List.cons_append, findTag]
    by_cases hname : isNameChar c
    · have hindent : isIndent c = false := isIndent_of_isNameChar hname
      simp_all [List.findIdx?_cons]
    · simp only [List.findIdx?_cons, hname, Bool.false_eq_true, if_false,
        Option.map_eq_some_iff] at h
      obtain ⟨column, hcolumn, rfl⟩ := h
      simp only [hname, Bool.false_eq_true, if_false, if_neg hc]
      cases leading with
      | false => simp [ih _ _ _ hmore hcolumn]; omega
      | true =>
        by_cases ht : c = '\t'
        · subst ht
          simp [ih _ _ _ hmore hcolumn, isIndent]; omega
        · by_cases hb : c = ' '
          · subst hb
            simp [ih _ _ _ hmore hcolumn, isIndent]; omega
          · simp [ih _ _ _ hmore hcolumn, isIndent, ht, hb]; omega

theorem findTag_of_no_name {line : List Char} (more : List Char) (seen start depth : Nat)
    (leading : Bool) (hline : '\n' ∉ line) (h : line.findIdx? isNameChar = none) :
    findTag seen start depth leading (line ++ '\n' :: more) =
      findTag (seen + (line.length + 1)) (seen + (line.length + 1)) 0 true more := by
  induction line generalizing seen depth leading with
  | nil => simp [findTag, isNameChar]
  | cons c line ih =>
    obtain ⟨hc, hmore⟩ : c ≠ '\n' ∧ '\n' ∉ line := by simpa [eq_comm] using hline
    simp only [List.findIdx?_cons] at h
    split at h
    · cases h
    next hname =>
      have hlen : seen + ((c :: line).length + 1) = seen + 1 + (line.length + 1) := by
        simp; omega
      rw [List.cons_append, findTag, if_neg hname, if_neg hc, hlen]
      split <;> exact ih _ _ _ hmore (by simpa using h)

end Pagewright.Outline
