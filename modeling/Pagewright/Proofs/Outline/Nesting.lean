import Pagewright.Text.Blank
import Pagewright.Outline.Nesting

/-! Runs that a scanner passes over: quotes and brackets hide what it looks for. -/
namespace Pagewright.Outline

/-- A character that is no blank and that neither nests nor quotes. -/
def isFree (c : Char) : Bool := !(Text.isBlank c || c == '"' || isOpener c || isCloser c)

theorem isFree_iff {c : Char} : isFree c = true ↔ Text.isBlank c = false ∧ c ≠ '"' ∧
    isOpener c = false ∧ isCloser c = false := by
  simp [isFree, and_assoc]

def isSpanEnd (c : Char) : Bool := c == ' ' || c == '\n'

/-- Where a modifier begins. -/
def isMark (c : Char) : Bool := c == '.' || c == '#' || c == '('

def isStop (c : Char) : Bool := isMark c || isSpanEnd c

namespace Nesting

/-- Where one of the characters stands in a run, it is quoted or inside brackets. -/
def Hides (p : Char → Bool) : Nesting → List Char → Prop
  | _, [] => True
  | n, c :: cs => (p c → n.quoted ∨ 0 < n.depth) ∧ Hides p (n.step c) cs

/-- A run that hides the characters and closes all it opens. -/
structure Passes (p : Char → Bool) (n : Nesting) (cs : List Char) : Prop where
  hides : Hides p n cs
  after : n.after cs = n

section Passes

variable {p : Char → Bool} {n : Nesting} {front back cs : List Char}

@[simp] theorem after_nil : n.after [] = n := rfl

@[simp] theorem after_cons (c : Char) : n.after (c :: cs) = (n.step c).after cs := rfl

theorem after_append : n.after (front ++ back) = (n.after front).after back := List.foldl_append

theorem step_of_free {c : Char} (h : isFree c) : n.step c = n := by
  obtain ⟨-, hquote, hopen, hclose⟩ := isFree_iff.mp h
  simp [step, hquote, hopen, hclose]

theorem Hides.append (h : Hides p n front) (h' : Hides p (n.after front) back) :
    Hides p n (front ++ back) := by
  induction front generalizing n with
  | nil => exact h'
  | cons c front ih => exact ⟨h.1, ih h.2 h'⟩

theorem Hides.mono {q : Char → Bool} (h : Hides p n cs) (hq : ∀ c, q c → p c) : Hides q n cs := by
  induction cs generalizing n with
  | nil => trivial
  | cons c cs ih => exact ⟨fun hc => h.1 (hq c hc), ih h.2⟩

theorem Passes.append (h : Passes p n front) (h' : Passes p n back) :
    Passes p n (front ++ back) where
  hides := h.hides.append (h.after.symm ▸ h'.hides)
  after := by rw [after_append, h.after, h'.after]

theorem Passes.flatten {runs : List (List Char)} (h : ∀ run ∈ runs, Passes p n run) :
    Passes p n runs.flatten := by
  induction runs with
  | nil => exact ⟨trivial, rfl⟩
  | cons run runs ih =>
    rw [List.flatten_cons]
    exact (h run (by simp)).append (ih fun run hrun => h run (by simp [hrun]))

theorem passes_of_free (h : ∀ c ∈ cs, isFree c)
    (hp : ∀ c ∈ cs, p c → n.quoted ∨ 0 < n.depth) : Passes p n cs := by
  induction cs with
  | nil => exact ⟨trivial, rfl⟩
  | cons c cs ih =>
    obtain ⟨hc, hcs⟩ := List.forall_mem_cons.mp h
    obtain ⟨hpc, hpcs⟩ := List.forall_mem_cons.mp hp
    have ih := ih hcs hpcs
    have hstep : n.step c = n := step_of_free hc
    exact ⟨⟨hpc, hstep.symm ▸ ih.hides⟩, by rw [after_cons, hstep, ih.after]⟩

/-- Inside quotes everything is hidden up to the next quote. -/
theorem passes_inside (hn : n.quoted = true) (h : '"' ∉ cs) : Passes p n cs := by
  induction cs with
  | nil => exact ⟨trivial, rfl⟩
  | cons c cs ih =>
    obtain ⟨hc, hcs⟩ : c ≠ '"' ∧ '"' ∉ cs := by simpa [eq_comm] using h
    have hstep : n.step c = n := by simp [step, hc, hn]
    have ih := ih hcs
    exact ⟨⟨fun _ => .inl hn, hstep.symm ▸ ih.hides⟩, by rw [after_cons, hstep, ih.after]⟩

theorem passes_quoted (hn : n.quoted = false) (hp : p '"' → 0 < n.depth) (h : '"' ∉ cs) :
    Passes p n ('"' :: (cs ++ ['"'])) := by
  have hstep : n.step '"' = { n with quoted := true } := by simp [step, hn]
  have hback : ({ n with quoted := true } : Nesting).step '"' = n := by cases n; simp_all [step]
  have hinside : Passes p { n with quoted := true } cs := passes_inside rfl h
  refine ⟨⟨fun hc => .inr (hp hc), ?_⟩, ?_⟩
  · rw [hstep]
    exact hinside.hides.append (hinside.after.symm ▸ ⟨fun _ => .inl rfl, trivial⟩)
  · rw [after_cons, hstep, after_append, hinside.after, after_cons, hback, after_nil]

end Passes

section scanners

variable {n : Nesting} {boundary : Char → Bool} {sep : Separator} {piece cs first : List Char}
  {rest : List (List Char)}

theorem spanLength?_append (h : Hides isSpanEnd n piece) : n.spanLength? (piece ++ cs) =
    ((n.after piece).spanLength? cs).map (· + piece.length) := by
  induction piece generalizing n with
  | nil => simp
  | cons c piece ih =>
    have hgo : ¬ ((c = ' ' ∨ c = '\n') ∧ ¬ n.quoted ∧ n.depth ≤ 0) := by
      rintro ⟨hc, hquoted, hdepth⟩
      rcases h.1 (by simpa [isSpanEnd] using hc) with hq | hd
      · exact hquoted hq
      · omega
    rw [List.cons_append, spanLength?, if_neg hgo, ih h.2, Option.map_map]
    rfl

/-- Here a span may end: at an unquoted blank or line end, at depth zero or below. -/
def EndsAt (n : Nesting) (cs : List Char) (i : Nat) : Prop :=
  (∃ c, cs[i]? = some c ∧ isSpanEnd c) ∧ (n.after (cs.take i)).quoted = false ∧
    (n.after (cs.take i)).depth ≤ 0

theorem endsAt_zero {c : Char} : n.EndsAt (c :: cs) 0 ↔
    (c = ' ' ∨ c = '\n') ∧ ¬ n.quoted ∧ n.depth ≤ 0 := by
  simp [EndsAt, isSpanEnd]

theorem endsAt_succ {c : Char} {i : Nat} :
    n.EndsAt (c :: cs) (i + 1) ↔ (n.step c).EndsAt cs i := by
  simp [EndsAt]

theorem not_endsAt_nil {i : Nat} : ¬ n.EndsAt [] i := by
  simp [EndsAt]

/-- A span ends at the first place where it may. -/
theorem spanLength?_eq_some_iff {k : Nat} :
    n.spanLength? cs = some k ↔ n.EndsAt cs k ∧ ∀ i < k, ¬ n.EndsAt cs i := by
  induction cs generalizing n k with
  | nil => simp [spanLength?, not_endsAt_nil]
  | cons c cs ih =>
    unfold spanLength?
    split
    next hend =>
      have hzero : n.EndsAt (c :: cs) 0 := endsAt_zero.mpr hend
      constructor
      · intro h
        obtain rfl : 0 = k := Option.some.inj h
        exact ⟨hzero, fun i hi => absurd hi (Nat.not_lt_zero i)⟩
      · rintro ⟨-, hleast⟩
        cases k with
        | zero => rfl
        | succ k => exact absurd hzero (hleast 0 (Nat.succ_pos k))
    next hgo =>
      have hzero : ¬ n.EndsAt (c :: cs) 0 := fun h => hgo (endsAt_zero.mp h)
      cases k with
      | zero => simp [hzero]
      | succ k =>
        have hlater : (∀ i < k + 1, ¬ n.EndsAt (c :: cs) i) ↔
            ∀ i < k, ¬ (n.step c).EndsAt cs i := by
          constructor
          · intro h i hi
            exact fun hi' => h (i + 1) (Nat.succ_lt_succ hi) (endsAt_succ.mpr hi')
          · intro h i hi
            cases i with
            | zero => exact hzero
            | succ i => exact fun hi' => h i (Nat.lt_of_succ_lt_succ hi) (endsAt_succ.mp hi')
        rw [hlater, endsAt_succ, ← ih]
        simp

theorem spanLength?_eq_none_iff :
    n.spanLength? cs = none ↔ ∀ i, ¬ n.EndsAt cs i := by
  induction cs generalizing n with
  | nil => simp [spanLength?, not_endsAt_nil]
  | cons c cs ih =>
    unfold spanLength?
    split
    next hend => exact iff_of_false nofun fun h => h 0 (endsAt_zero.mpr hend)
    next hgo =>
      rw [Option.map_eq_none_iff, ih]
      constructor
      · intro h i
        cases i with
        | zero => exact fun hi => hgo (endsAt_zero.mp hi)
        | succ i => exact fun hi => h i (endsAt_succ.mp hi)
      · exact fun h i hi => h (i + 1) (endsAt_succ.mpr hi)

/-- What stands behind the end of a span does not matter to its length. -/
theorem spanLength?_congr {k : Nat} {cs' : List Char} (h : n.spanLength? cs = some k)
    (hsame : cs'.take (k + 1) = cs.take (k + 1)) : n.spanLength? cs' = some k := by
  induction cs generalizing n k cs' with
  | nil => simp [spanLength?] at h
  | cons c cs ih =>
    cases cs' with
    | nil => simp at hsame
    | cons c' cs' =>
      obtain ⟨rfl, hmore⟩ := List.cons.inj hsame
      unfold spanLength? at h ⊢
      split at h
      next hend => rw [if_pos hend, h]
      next hgo =>
        obtain ⟨k, hk, rfl⟩ := Option.map_eq_some_iff.mp h
        rw [if_neg hgo, ih hk hmore]
        rfl

theorem cuts_cons {c : Char} (hcuts : cuts boundary sep (n.step c) cs = first :: rest) :
    cuts boundary sep n (c :: cs) =
      if boundary c ∧ ¬ n.quoted ∧ n.depth = 0 then
        [] :: (match sep with | .kept => (c :: first) :: rest | .dropped => first :: rest)
      else (c :: first) :: rest := by
  cases sep <;> simp only [cuts, hcuts]

/-- A boundary that is kept begins the piece behind it, and nothing is lost. -/
theorem exists_cuts_kept (p : Char → Bool) (n : Nesting) (cs : List Char) :
    ∃ first rest, cuts p .kept n cs = first :: rest ∧ first ++ rest.flatten = cs ∧
      ∀ piece ∈ rest, ∃ c, piece.head? = some c ∧ p c := by
  induction cs generalizing n with
  | nil => exact ⟨[], [], rfl, rfl, by simp⟩
  | cons c cs ih =>
    obtain ⟨first, rest, hcuts, rfl, hhead⟩ := ih (n.step c)
    rw [cuts_cons hcuts]
    split
    next hcut =>
      exact ⟨[], (c :: first) :: rest, rfl, rfl, List.forall_mem_cons.mpr ⟨⟨c, rfl, hcut.1⟩, hhead⟩⟩
    next => exact ⟨c :: first, rest, rfl, rfl, hhead⟩

theorem cuts_append (h : Hides boundary n piece)
    (hcuts : cuts boundary sep (n.after piece) cs = first :: rest) :
    cuts boundary sep n (piece ++ cs) = (piece ++ first) :: rest := by
  induction piece generalizing n with
  | nil => exact hcuts
  | cons c piece ih =>
    have hgo : ¬ (boundary c ∧ ¬ n.quoted ∧ n.depth = 0) := by
      rintro ⟨hc, hquoted, hdepth⟩
      rcases h.1 hc with hq | hd
      · exact hquoted hq
      · omega
    rw [List.cons_append, cuts_cons (ih h.2 hcuts), if_neg hgo, List.cons_append]

/-- A run that begins with a mark and hides the other marks and the ends of spans. -/
structure IsToken (token : List Char) : Prop where
  last : ∀ c ∈ token.getLast?, Text.isBlank c = false
  head : ∃ c tail, token = c :: tail ∧ isMark c ∧
    Hides isStop (step {} c) tail
  after : after {} token = {}

theorem IsToken.passes {token : List Char} (h : IsToken token) : Passes isSpanEnd {} token := by
  obtain ⟨-, ⟨c, tail, rfl, hc, htail⟩, hafter⟩ := h
  refine ⟨⟨fun hend => ?_, htail.mono fun c hc => by simp [isStop, hc]⟩, hafter⟩
  have hend : c = ' ' ∨ c = '\n' := by simpa [isSpanEnd] using hend
  rcases hend with rfl | rfl <;> simp [isMark] at hc

theorem spanLength?_flatten {tokens : List (List Char)} (h : ∀ token ∈ tokens, IsToken token)
    {c : Char} (hc : isSpanEnd c) (cs : List Char) :
    spanLength? {} (tokens.flatten ++ c :: cs) = some tokens.flatten.length := by
  have hpasses := Passes.flatten fun token htoken => (h token htoken).passes
  have hstop : spanLength? {} (c :: cs) = some 0 := if_pos ⟨by simpa [isSpanEnd] using hc, by simp⟩
  rw [spanLength?_append hpasses.hides, hpasses.after, hstop]
  simp

theorem cuts_kept {tokens : List (List Char)} (h : ∀ token ∈ tokens, IsToken token) :
    cuts isMark .kept {} tokens.flatten = [] :: tokens := by
  induction tokens with
  | nil => rfl
  | cons token tokens ih =>
    obtain ⟨-, ⟨c, tail, rfl, hc, htail⟩, hafter⟩ := h token (by simp)
    have htail : Hides isMark (step {} c) tail := htail.mono fun c hc => by simp [isStop, hc]
    have ih := ih fun token htoken => h token (by simp [htoken])
    rw [← hafter] at ih
    rw [List.flatten_cons, List.cons_append, cuts_cons (cuts_append htail ih),
      if_pos (by simp [hc]), List.append_nil]

theorem cuts_dropped (comma : Char) (hcomma : boundary comma) (hfree : isFree comma)
    {pieces : List (List Char)} (hpiece : Passes boundary {} piece)
    (h : ∀ piece ∈ pieces, Passes boundary {} piece) :
    cuts boundary .dropped {} (piece ++ pieces.flatMap (comma :: ·)) = piece :: pieces := by
  induction pieces generalizing piece with
  | nil =>
    have hlast : cuts boundary .dropped (after {} piece) [] = [[]] := rfl
    simpa using cuts_append hpiece.hides hlast
  | cons next pieces ih =>
    obtain ⟨hnext, hmore⟩ := List.forall_mem_cons.mp h
    have ih := ih hnext hmore
    rw [← step_of_free (n := {}) hfree] at ih
    have hcut := cuts_cons ih
    rw [if_pos (by simp [hcomma]), ← hpiece.after] at hcut
    rw [List.flatMap_cons, List.cons_append, cuts_append hpiece.hides hcut, List.append_nil]

end scanners

end Nesting

end Pagewright.Outline
