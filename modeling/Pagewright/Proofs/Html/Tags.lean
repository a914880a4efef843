import Pagewright.Proofs.Html.Verbatim

/-! The tags on a page: what is written between two brackets, with what stands in front of it in its
line and what follows it up to the next one. -/
namespace Pagewright

/-- No bracket and no line end. -/
def Inert (cs : List Char) : Prop := ∀ c ∈ cs, c ≠ '<' ∧ c ≠ '>' ∧ c ≠ '\n'

instance (cs : List Char) : Decidable (Inert cs) := List.decidableBAll _ _

/-- Nothing but line ends and tabs. -/
def IsLayout (cs : List Char) : Prop := ∀ c ∈ cs, c = '\n' ∨ c = '\t'

/-- The tag in front of a text: two brackets and no bracket between them. -/
def tagAt? : List Char → Option (List Char)
  | [] => none
  | c :: cs =>
    let inner := cs.takeWhile fun c => c ≠ '<' && c ≠ '>'
    if c = '<' ∧ (cs.drop inner.length).head? = some '>' then some ('<' :: inner ++ ['>']) else none

/-- A text up to its first tag. -/
def untilTag : List Char → List Char
  | [] => []
  | c :: cs => if (tagAt? (c :: cs)).isSome then [] else c :: untilTag cs

structure Tag where
  /-- What stands in front of it in its line. -/
  indent : List Char
  text : List Char
  /-- What follows it up to the next tag. -/
  gap : List Char

/-- The tags of a text from left to right, where a line has begun with this. -/
def tagsFrom (line : List Char) : List Char → List Tag
  | [] => []
  | c :: cs =>
    let more := tagsFrom (if c = '\n' then [] else line ++ [c]) cs
    match tagAt? (c :: cs) with
    | some tag => ⟨line, tag, untilTag ((c :: cs).drop tag.length)⟩ :: more
    | none => more

/-- How a line goes on that has begun with this. -/
def lineBehind (line cs : List Char) : List Char :=
  cs.foldl (fun line c => if c = '\n' then [] else line ++ [c]) line

section inert

variable {cs front back : List Char}

theorem Inert.newline_notMem (h : Inert cs) : '\n' ∉ cs := fun hmem => (h _ hmem).2.2 rfl

theorem Inert.open_notMem (h : Inert cs) : '<' ∉ cs := fun hmem => (h _ hmem).1 rfl

@[simp] theorem inert_append : Inert (front ++ back) ↔ Inert front ∧ Inert back :=
  List.forall_mem_append

@[simp] theorem inert_cons {c : Char} :
    Inert (c :: cs) ↔ (c ≠ '<' ∧ c ≠ '>' ∧ c ≠ '\n') ∧ Inert cs := List.forall_mem_cons

@[simp] theorem inert_nil : Inert [] := by simp [Inert]

theorem inert_joinWith {sep : Char} {parts : List (List Char)}
    (hsep : sep ≠ '<' ∧ sep ≠ '>' ∧ sep ≠ '\n') (h : ∀ part ∈ parts, Inert part) :
    Inert (Text.joinWith sep parts) := by
  induction parts with
  | nil => exact inert_nil
  | cons part parts ih =>
    rw [List.forall_mem_cons] at h
    cases parts with
    | nil => exact h.1
    | cons next parts =>
      rw [Text.joinWith_cons sep part (List.cons_ne_nil next parts)]
      exact inert_append.mpr ⟨h.1, inert_cons.mpr ⟨hsep, ih h.2⟩⟩

@[simp] theorem isLayout_append : IsLayout (front ++ back) ↔ IsLayout front ∧ IsLayout back :=
  List.forall_mem_append

@[simp] theorem isLayout_nil : IsLayout [] := by simp [IsLayout]

/-- A line end and the tabs of the next line. -/
@[simp] theorem isLayout_newline (levels : Nat) :
    IsLayout ('\n' :: List.replicate levels '\t') := by
  simp [IsLayout]

theorem IsLayout.open_notMem (h : IsLayout cs) : '<' ∉ cs := by
  intro hmem
  rcases h _ hmem with heq | heq <;> exact absurd heq (by decide)

theorem IsLayout.hang (h : IsLayout cs) (levels : Nat) : IsLayout (hang levels cs) := by
  intro c hc
  obtain ⟨a, ha, hmem⟩ := List.mem_flatMap.mp hc
  split at hmem
  · exact isLayout_newline levels c hmem
  · rw [List.mem_singleton.mp hmem]
    exact h a ha

end inert

/-- A tag that holds no brackets and no line ends between its own two. -/
def IsTag (tag : List Char) : Prop := ∃ inner, Inert inner ∧ tag = '<' :: (inner ++ ['>'])

theorem IsTag.newline_notMem {tag : List Char} (h : IsTag tag) : '\n' ∉ tag := by
  obtain ⟨inner, hinner, rfl⟩ := h
  simpa using hinner.newline_notMem

section scan

variable {tag gap rest : List Char}

theorem tagAt?_append (h : IsTag tag) (rest : List Char) : tagAt? (tag ++ rest) = some tag := by
  obtain ⟨inner, hinner, rfl⟩ := h
  have hinside : ∀ c ∈ inner, (c ≠ '<' && c ≠ '>') = true := by
    intro c hc
    simp [(hinner c hc).1, (hinner c hc).2.1]
  have htake : (inner ++ '>' :: rest).takeWhile (fun c => c ≠ '<' && c ≠ '>') = inner := by
    rw [List.takeWhile_append_of_pos hinside, List.takeWhile_cons_of_neg (by decide),
      List.append_nil]
  rw [List.cons_append, ← List.append_cons, tagAt?]
  simp only [htake, List.drop_left, List.head?_cons, and_self, if_true, List.cons_append]

theorem tagAt?_of_ne {c : Char} (hc : c ≠ '<') (cs : List Char) : tagAt? (c :: cs) = none := by
  rw [tagAt?, if_neg fun h => hc h.1]

theorem untilTag_append (h : '<' ∉ gap) (rest : List Char) :
    untilTag (gap ++ rest) = gap ++ untilTag rest := by
  induction gap with
  | nil => rfl
  | cons c gap ih =>
    rw [List.mem_cons, not_or] at h
    rw [List.cons_append, untilTag, tagAt?_of_ne (Ne.symm h.1), if_neg (by simp), ih h.2,
      List.cons_append]

theorem untilTag_tag (h : IsTag tag) (rest : List Char) : untilTag (tag ++ rest) = [] := by
  have hfound := tagAt?_append h rest
  obtain ⟨inner, hinner, rfl⟩ := h
  rw [List.cons_append] at hfound ⊢
  rw [untilTag, hfound, Option.isSome_some, if_pos rfl]

theorem tagsFrom_append (h : '<' ∉ gap) (line rest : List Char) :
    tagsFrom line (gap ++ rest) = tagsFrom (lineBehind line gap) rest := by
  induction gap generalizing line with
  | nil => rfl
  | cons c gap ih =>
    rw [List.mem_cons, not_or] at h
    rw [List.cons_append, tagsFrom, tagAt?_of_ne (Ne.symm h.1)]
    exact ih h.2 _

theorem tagsFrom_tag (h : IsTag tag) (line rest : List Char) :
    tagsFrom line (tag ++ rest) =
      ⟨line, tag, untilTag rest⟩ :: tagsFrom (lineBehind line tag) rest := by
  have hfound := tagAt?_append h rest
  have hdrop : (tag ++ rest).drop tag.length = rest := List.drop_left
  obtain ⟨inner, hinner, rfl⟩ := h
  have hinside : '<' ∉ inner ++ ['>'] := by simpa using hinner.open_notMem
  rw [List.cons_append] at hfound hdrop ⊢
  rw [tagsFrom, hfound]
  dsimp only
  rw [hdrop, tagsFrom_append hinside]
  rfl

theorem lineBehind_of_notMem (line : List Char) (h : '\n' ∉ gap) :
    lineBehind line gap = line ++ gap := by
  induction gap generalizing line with
  | nil => exact (List.append_nil line).symm
  | cons c gap ih =>
    rw [List.mem_cons, not_or] at h
    have hstep : lineBehind line (c :: gap) = lineBehind (line ++ [c]) gap := by
      rw [lineBehind, List.foldl_cons, if_neg (Ne.symm h.1)]
      rfl
    rw [hstep, ih _ h.2, List.append_assoc, List.singleton_append]

/-- A line end and the tabs of the next line are what stands in front of the tag in it. -/
theorem tagsFrom_newline (line rest : List Char) (levels : Nat) :
    tagsFrom line ('\n' :: List.replicate levels '\t' ++ rest) =
      tagsFrom (List.replicate levels '\t') rest := by
  have hline : lineBehind line ('\n' :: List.replicate levels '\t') =
      List.replicate levels '\t' := lineBehind_of_notMem [] (by simp)
  rw [tagsFrom_append (isLayout_newline levels).open_notMem, hline]

end scan

end Pagewright
