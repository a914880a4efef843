import Mathlib.Data.List.Forall2
import Pagewright.Proofs.Outline.Origin

/-! What normalizing changes. Each line stays where it is, as wide as before: only the blanks and
tabs that lead it are written in another way. -/
namespace Pagewright.Outline

/-- The lines of a text, whether the last one has its end or not. -/
def linesOf (cs : List Char) : List (List Char) :=
  Text.lines (if cs.getLast? = some '\n' then cs.dropLast else cs)

/-- A text with every tab written as four blanks. -/
def expandTabs (cs : List Char) : List Char :=
  cs.flatMap fun c => if c = '\t' then List.replicate 4 ' ' else [c]

/-- A line whose leading blanks and tabs were packed: it is as wide as before, and what follows
them is kept. -/
structure PacksTo (old new : List Char) : Prop where
  keepsIndent : KeepsIndent new
  width_eq : expandTabs (new.takeWhile isIndent) = expandTabs (old.takeWhile isIndent)
  rest_eq : new.dropWhile isIndent = old.dropWhile isIndent

section packing

variable {leading : Bool} {line cs source : List Char} {lines : List (List Char)}

theorem expandTabs_cons (c : Char) (cs : List Char) : expandTabs (c :: cs) =
    (if c = '\t' then List.replicate 4 ' ' else [c]) ++ expandTabs cs := List.flatMap_cons

/-- Packing rewrites the run that leads the line and nothing else. -/
theorem exists_packIndent_eq (hline : '\n' ∉ line) (hleading : leading) :
    ∃ lead, packIndent leading line = lead ++ line.dropWhile isIndent ∧
      (∀ c ∈ lead, isIndent c) ∧ expandTabs lead = expandTabs (line.takeWhile isIndent) := by
  fun_induction packIndent leading line with
  | case1 => exact ⟨[], rfl, by simp, rfl⟩
  | case2 line ih =>
    obtain ⟨lead, hpacked, hindent, hwidth⟩ := ih (by simpa using hline) rfl
    refine ⟨'\t' :: lead, by simp [hpacked, isIndent], ?_, ?_⟩
    · exact List.forall_mem_cons.mpr ⟨by decide, hindent⟩
    · simp [expandTabs_cons, hwidth, isIndent, List.replicate]
  | case3 leading c line hgroup ih =>
    obtain ⟨hc, hmore⟩ : c ≠ '\n' ∧ '\n' ∉ line := by simpa [eq_comm] using hline
    by_cases hindent : isIndent c
    · have hflag : (c == '\n' || (leading && (c == ' ' || c == '\t'))) = true := by
        simpa [hc, hleading, isIndent] using hindent
      obtain ⟨lead, hpacked, hlead, hwidth⟩ := ih hmore hflag
      refine ⟨c :: lead, ?_, List.forall_mem_cons.mpr ⟨hindent, hlead⟩, ?_⟩
      · rw [hpacked, List.dropWhile_cons_of_pos hindent, List.cons_append]
      · rw [List.takeWhile_cons_of_pos hindent, expandTabs_cons, expandTabs_cons, hwidth]
    · have hflag : (c == '\n' || (leading && (c == ' ' || c == '\t'))) = false := by
        simpa [hc, hleading, isIndent] using hindent
      have hrest : packIndent false line = line := packIndent_eq_self hmore (by simp)
      refine ⟨[], ?_, by simp, ?_⟩
      · rw [hflag, hrest, List.dropWhile_cons_of_neg hindent, List.nil_append]
      · rw [List.takeWhile_cons_of_neg hindent]

theorem packsTo_packIndent (h : '\n' ∉ line) : PacksTo line (packIndent true line) := by
  obtain ⟨lead, hpacked, hlead, hwidth⟩ := exists_packIndent_eq h rfl
  have hrest : (packIndent true line).dropWhile isIndent = line.dropWhile isIndent := by
    rw [hpacked, List.dropWhile_append_of_pos hlead, List.dropWhile_idempotent]
  have hsame : (packIndent true line).takeWhile isIndent ++ line.dropWhile isIndent =
      lead ++ line.dropWhile isIndent := by
    rw [← hpacked, ← hrest, List.takeWhile_append_dropWhile]
  have hrun : (packIndent true line).takeWhile isIndent = lead := List.append_cancel_right hsame
  exact ⟨keepsIndent_packIndent h rfl, by rw [hrun, hwidth], hrest⟩

theorem newline_notMem_linesOf : ∀ line ∈ linesOf cs, '\n' ∉ line := fun _ hline =>
  Text.not_mem_of_mem_fields hline

theorem linesOf_ne_nil (cs : List Char) : linesOf cs ≠ [] := Text.fields_ne_nil _ _

theorem endLine_eq_closed (cs : List Char) : endLine cs = closed (linesOf cs) := by
  have hjoin (cs : List Char) : Text.unlines (Text.lines cs) = cs := Text.joinWith_fields _ cs
  rw [closed_eq_unlines (linesOf_ne_nil cs), linesOf, hjoin]
  unfold endLine
  split
  next hlast =>
    obtain ⟨front, rfl⟩ := List.getLast?_eq_some_iff.mp hlast
    rw [List.dropLast_concat]
  next => rfl

theorem linesOf_closed (hne : lines ≠ []) (h : ∀ line ∈ lines, '\n' ∉ line) :
    linesOf (closed lines) = lines := by
  rw [closed_eq_unlines hne, linesOf, if_pos List.getLast?_concat, List.dropLast_concat]
  exact Text.fields_joinWith hne h

theorem packIndent_eq_nil_iff : packIndent leading cs = [] ↔ cs = [] := by
  unfold packIndent
  split <;> simp

/-- Packing adds no line end at the end of a text and takes none away. -/
theorem getLast?_packIndent (leading : Bool) (cs : List Char) :
    (packIndent leading cs).getLast? = some '\n' ↔ cs.getLast? = some '\n' := by
  fun_induction packIndent leading cs with
  | case1 => rfl
  | case2 cs ih => simp [List.getLast?_cons, Option.getD_eq_iff, ih]
  | case3 leading c cs _ ih =>
    simp [List.getLast?_cons, Option.getD_eq_iff, ih, packIndent_eq_nil_iff]

theorem normalize_eq_closed (h : '\r' ∉ source) :
    normalize source = closed ((linesOf source).map (packIndent true)) := by
  rw [normalize, unifyLineEnds_of_notMem h, ← packIndent_closed newline_notMem_linesOf,
    ← endLine_eq_closed, endLine, endLine]
  by_cases hlast : source.getLast? = some '\n'
  · rw [if_pos hlast, if_pos ((getLast?_packIndent true source).mpr hlast)]
  · rw [if_neg hlast, if_neg (mt (getLast?_packIndent true source).mp hlast),
      packIndent_append true (.inr ⟨[], rfl⟩)]
    rfl

theorem mem_packIndent {c : Char} (h : c ∈ packIndent leading cs) : c ∈ cs ∨ c = '\t' := by
  fun_induction packIndent leading cs with
  | case1 => exact .inl h
  | case2 cs ih =>
    rcases List.mem_cons.mp h with rfl | h
    · exact .inr rfl
    · exact (ih h).imp_left fun hc => by simp [hc]
  | case3 leading d cs _ ih =>
    rcases List.mem_cons.mp h with rfl | h
    · exact .inl List.mem_cons_self
    · exact (ih h).imp_left (List.mem_cons_of_mem d)

theorem return_notMem_normalize (h : '\r' ∉ source) : '\r' ∉ normalize source := by
  rw [normalize, unifyLineEnds_of_notMem h]
  intro hmem
  have hpacked : '\r' ∈ packIndent true source := by
    unfold endLine at hmem
    split at hmem
    · exact hmem
    · simpa using hmem
  rcases mem_packIndent hpacked with hsource | htab
  · exact h hsource
  · exact absurd htab (by decide)

/-- Normalizing keeps the lines and, of each, its width and what follows the blanks and tabs that
lead it. The last line has its end then, and a text that was normalized stays as it is. -/
theorem packsTo_normalize (source : List Char) (h : '\r' ∉ source) :
    List.Forall₂ PacksTo (linesOf source) (linesOf (normalize source)) ∧
    (normalize source).getLast? = some '\n' ∧
    (normalize source).count '\n' =
      source.count '\n' + (if source.getLast? = some '\n' then 0 else 1) ∧
    normalize (normalize source) = normalize source := by
  have hline : ∀ line ∈ linesOf source, '\n' ∉ line := newline_notMem_linesOf
  have hpackedLine : ∀ line ∈ (linesOf source).map (packIndent true), '\n' ∉ line :=
    List.forall_mem_map.mpr fun line hmem => newline_notMem_packIndent true (hline line hmem)
  have hne : (linesOf source).map (packIndent true) ≠ [] := by simp [linesOf_ne_nil]
  have hnormal := normalize_eq_closed h
  refine ⟨?_, ?_, ?_, ?_⟩
  · rw [hnormal, linesOf_closed hne hpackedLine, List.forall₂_map_right_iff, List.forall₂_same]
    exact fun line hmem => packsTo_packIndent (hline line hmem)
  · rw [hnormal, closed_eq_unlines hne, List.getLast?_concat]
  · rw [hnormal, ← packIndent_closed hline, count_packIndent, ← endLine_eq_closed, endLine]
    split <;> simp
  · have hreturn := return_notMem_normalize h
    rw [hnormal] at hreturn ⊢
    apply normalize_closed hne hreturn
    exact List.forall_mem_map.mpr fun line hmem =>
      ⟨newline_notMem_packIndent true (hline line hmem),
        keepsIndent_packIndent (hline line hmem) rfl⟩

/-- Blanks that a tab cuts apart are packed apart, and blanks behind a name are kept. -/
theorem packsTo_normalize_list :
    let source := "ul\n  \t      li a    b\n\n    ".toList
    '\r' ∉ source ∧
      normalize source = "ul\n  \t\t  li a    b\n\n\t\n".toList ∧
      List.Forall₂ PacksTo (linesOf source) (linesOf (normalize source)) ∧
      normalize (normalize source) = normalize source := by
  intro source
  obtain ⟨hlines, -, -, hagain⟩ := packsTo_normalize source (by decide)
  exact ⟨by decide, by decide, hlines, hagain⟩

end packing

end Pagewright.Outline
