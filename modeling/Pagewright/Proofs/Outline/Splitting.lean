import Pagewright.Outline.Modifier
import Pagewright.Proofs.Outline.Balance

/-! Where a text is split. Its pieces are what stands between the boundaries that are neither quoted
nor nested, so nothing but a dropped boundary is lost and nothing is moved. -/
namespace Pagewright.Outline

/-- A boundary outside double quotes, with as many brackets opened as closed before it. -/
structure IsBoundary (p : Char → Bool) (text : List Char) (i : Nat) : Prop where
  stands : text[i]?.any p
  unquoted : Unquoted (text.take i)
  closed : countUnquoted isOpener (text.take i) = countUnquoted isCloser (text.take i)

instance (p : Char → Bool) (text : List Char) (i : Nat) : Decidable (IsBoundary p text i) :=
  decidable_of_iff (text[i]?.any p ∧ Unquoted (text.take i) ∧
    countUnquoted isOpener (text.take i) = countUnquoted isCloser (text.take i))
    ⟨fun h => ⟨h.1, h.2.1, h.2.2⟩, fun h => ⟨h.stands, h.unquoted, h.closed⟩⟩

/-- The offsets of the boundaries, in their order. -/
def boundaries (p : Char → Bool) (text : List Char) : List Nat :=
  (List.range text.length).filter (IsBoundary p text ·)

/-- The characters of a text that are no boundaries, in their order. -/
def withoutBoundaries (p : Char → Bool) (text : List Char) : List Char :=
  ((List.range text.length).filter (¬ IsBoundary p text ·)).filterMap (text[·]?)

/-- The pieces of a text from an offset on, cut at the offsets of a list; behind each of these the
next piece begins after a gap. -/
def stretches (text : List Char) (gap start : Nat) : List Nat → List (List Char)
  | [] => [text.drop start]
  | i :: cuts => text.extract start i :: stretches text gap (i + gap) cuts

/-- What stands in an attribute list: the first character goes, and a parenthesis that closes. -/
def listBody (token : List Char) : List Char :=
  if (token.drop 1).getLast? = some ')' then (token.drop 1).dropLast else token.drop 1

namespace Nesting

/-- How many characters of a boundary are left out between two pieces. -/
def Separator.gap : Separator → Nat
  | .kept => 0
  | .dropped => 1

/-- The text is cut here if so much is open at its front. -/
def CutsAt (p : Char → Bool) (n : Nesting) (cs : List Char) (i : Nat) : Prop :=
  cs[i]?.any p ∧ (n.after (cs.take i)).quoted = false ∧ (n.after (cs.take i)).depth = 0

instance (p : Char → Bool) (n : Nesting) (cs : List Char) (i : Nat) :
    Decidable (n.CutsAt p cs i) := inferInstanceAs (Decidable (_ ∧ _ ∧ _))

def cutPlaces (p : Char → Bool) (n : Nesting) (cs : List Char) : List Nat :=
  (List.range cs.length).filter (n.CutsAt p cs ·)

end Nesting

section splitting

open Nesting

variable {p : Char → Bool} {sep : Separator} {n : Nesting} {c : Char} {cs text : List Char}
  {i gap start : Nat} {cuts : List Nat} {first : List Char} {rest : List (List Char)}

theorem cutsAt_iff : CutsAt p {} text i ↔ IsBoundary p text i := by
  have hclosed (a b : Nat) : (a : Int) - b = 0 ↔ a = b := by omega
  rw [CutsAt, Nesting.after_eq]
  dsimp only
  rw [hclosed]
  constructor
  · rintro ⟨hstands, hquoted, hcount⟩
    exact ⟨hstands, by simpa using hquoted, hcount⟩
  · rintro ⟨hstands, hunquoted, hcount⟩
    exact ⟨hstands, by simpa using hunquoted, hcount⟩

theorem cutsAt_zero : n.CutsAt p (c :: cs) 0 ↔ p c ∧ ¬ n.quoted ∧ n.depth = 0 := by
  simp [CutsAt]

theorem cutsAt_succ : n.CutsAt p (c :: cs) (i + 1) ↔ (n.step c).CutsAt p cs i := by
  simp [CutsAt]

theorem filter_range_succ (q : Nat → Bool) (k : Nat) : (List.range (k + 1)).filter q =
    (if q 0 then [0] else []) ++ ((List.range k).filter fun i => q (i + 1)).map (· + 1) := by
  rw [List.range_succ_eq_map, List.filter_cons, List.filter_map]
  split <;> rfl

theorem cutPlaces_cons (p : Char → Bool) (n : Nesting) (c : Char) (cs : List Char) :
    cutPlaces p n (c :: cs) = (if p c ∧ ¬ n.quoted ∧ n.depth = 0 then [0] else []) ++
      (cutPlaces p (n.step c) cs).map (· + 1) := by
  unfold cutPlaces
  rw [List.length_cons, filter_range_succ]
  simp only [cutsAt_zero, cutsAt_succ, decide_eq_true_eq]

theorem stretches_shift (c : Char) (text : List Char) (gap start : Nat) (cuts : List Nat) :
    stretches (c :: text) gap (start + 1) (cuts.map (· + 1)) = stretches text gap start cuts := by
  induction cuts generalizing start with
  | nil => rfl
  | cons i cuts ih =>
    have hnext : i + 1 + gap = i + gap + 1 := Nat.add_right_comm i 1 gap
    have hpiece : (c :: text).extract (start + 1) (i + 1) = text.extract start i := by
      rw [List.extract_eq_take_drop, List.extract_eq_take_drop, Nat.add_sub_add_right,
        List.drop_succ_cons]
    rw [List.map_cons, stretches, stretches, hpiece, hnext, ih]

theorem stretches_cons (h : stretches text gap 0 cuts = first :: rest) (c : Char) :
    stretches (c :: text) gap 0 (cuts.map (· + 1)) = (c :: first) :: rest := by
  cases cuts with
  | nil =>
    obtain ⟨rfl, rfl⟩ := List.cons.inj h
    rfl
  | cons i cuts =>
    obtain ⟨rfl, rfl⟩ := List.cons.inj h
    have hnext : i + 1 + gap = i + gap + 1 := Nat.add_right_comm i 1 gap
    rw [List.map_cons, stretches, hnext, stretches_shift]
    rfl

theorem stretches_ne_nil : stretches text gap start cuts ≠ [] := by
  cases cuts <;> simp [stretches]

/-- The pieces are what stands between the places where the text is cut. -/
theorem cuts_eq_stretches (p : Char → Bool) (sep : Separator) (n : Nesting) (cs : List Char) :
    Nesting.cuts p sep n cs = stretches cs sep.gap 0 (cutPlaces p n cs) := by
  induction cs generalizing n with
  | nil => rfl
  | cons c cs ih =>
    obtain ⟨first, rest, hstretches⟩ := List.exists_cons_of_ne_nil
      (stretches_ne_nil : stretches cs sep.gap 0 (cutPlaces p (n.step c) cs) ≠ [])
    have hmore := stretches_cons hstretches c
    rw [cuts_cons ((ih (n.step c)).trans hstretches), cutPlaces_cons]
    by_cases hcut : p c ∧ ¬ n.quoted ∧ n.depth = 0
    · rw [if_pos hcut, if_pos hcut, List.singleton_append, stretches]
      cases sep with
      | kept => exact congrArg _ hmore.symm
      | dropped => exact congrArg _ (hstretches.symm.trans (stretches_shift c cs 1 0 _).symm)
    · rw [if_neg hcut, if_neg hcut, List.nil_append, hmore]

theorem cutPlaces_eq_boundaries (p : Char → Bool) (text : List Char) :
    cutPlaces p {} text = boundaries p text := by
  unfold cutPlaces boundaries
  simp only [cutsAt_iff]

/-- Of a text whose boundaries are dropped everything else is left. -/
theorem flatten_cuts_dropped (p : Char → Bool) (n : Nesting) (cs : List Char) :
    (Nesting.cuts p .dropped n cs).flatten =
      ((List.range cs.length).filter (¬ n.CutsAt p cs ·)).filterMap (cs[·]?) := by
  induction cs generalizing n with
  | nil => rfl
  | cons c cs ih =>
    obtain ⟨first, rest, hcuts⟩ := List.exists_cons_of_ne_nil
      (cuts_eq_stretches p .dropped (n.step c) cs ▸ stretches_ne_nil)
    have ih := ih (n.step c)
    rw [hcuts, List.flatten_cons] at ih
    rw [cuts_cons hcuts, List.length_cons, filter_range_succ, List.filterMap_append,
      List.filterMap_map]
    simp only [cutsAt_zero, cutsAt_succ, decide_eq_true_eq, Function.comp_def,
      List.getElem?_cons_succ]
    rw [← ih]
    by_cases hcut : p c ∧ ¬ n.quoted ∧ n.depth = 0
    · rw [if_pos hcut, if_neg (not_not.mpr hcut)]
      rfl
    · rw [if_neg hcut, if_pos hcut]
      rfl

theorem flatten_split (p : Char → Bool) (sep : Separator) (cs : List Char) :
    (split p sep cs).flatten = (Nesting.cuts p sep {} cs).flatten :=
  List.flatten_filter_not_isEmpty

/-- Modifiers are split just before each boundary, and a boundary begins each token but the first
one. Of an attribute list the free commas are dropped, and nothing else. -/
theorem split_at_boundaries (s : List Char) :
    (splitModifiers s =
        (stretches (Text.trim s) 0 0 (boundaries isMark (Text.trim s))).filter (!·.isEmpty) ∧
      (splitModifiers s).flatten = Text.trim s ∧
      ∀ token ∈ (splitModifiers s).tail, ∃ c, token.head? = some c ∧ isMark c) ∧
    (splitAttributes s =
        (stretches (listBody s) 1 0 (boundaries (· == ',') (listBody s))).filter (!·.isEmpty) ∧
      (splitAttributes s).flatten = withoutBoundaries (· == ',') (listBody s)) := by
  have hmodifiers : splitModifiers s = split isMark .kept (Text.trim s) := rfl
  have hattributes : splitAttributes s = split (· == ',') .dropped (listBody s) := rfl
  have hstretches (p : Char → Bool) (sep : Separator) (text : List Char) :
      split p sep text = (stretches text sep.gap 0 (boundaries p text)).filter (!·.isEmpty) := by
    rw [split, cuts_eq_stretches, cutPlaces_eq_boundaries]
  obtain ⟨first, rest, hcuts, hjoin, hhead⟩ := exists_cuts_kept isMark {} (Text.trim s)
  refine ⟨⟨hmodifiers ▸ hstretches .., ?_, ?_⟩, hattributes ▸ hstretches .., ?_⟩
  · rw [hmodifiers, flatten_split, hcuts, List.flatten_cons, hjoin]
  · have hrest : ∀ token ∈ rest.filter (!·.isEmpty), ∃ c, token.head? = some c ∧ isMark c :=
      fun token htoken => hhead token (List.mem_filter.mp htoken).1
    rw [hmodifiers, split, hcuts, List.filter_cons]
    split
    · exact hrest
    · exact fun token htoken => hrest token (List.mem_of_mem_tail htoken)
  · rw [hattributes, flatten_split, flatten_cuts_dropped]
    simp only [cutsAt_iff]
    rfl

/-- A quoted parenthesis closes no list, and an empty part of a list is none. -/
theorem split_at_boundaries_list :
    let s := " .card(a=\").\",,b=f(x,y)). ".toList
    let list := "(a=\").\",,b=f(x,y))".toList
    splitModifiers s = [".card".toList, list, ".".toList] ∧
      list ∈ (splitModifiers s).tail ∧ (∃ c, list.head? = some c ∧ isMark c) ∧
      splitAttributes list = ["a=\").\"".toList, "b=f(x,y)".toList] ∧
      (splitAttributes list).flatten = withoutBoundaries (· == ',') (listBody list) := by
  intro s list
  have hmem : list ∈ (splitModifiers s).tail := by decide
  exact ⟨by decide, hmem, (split_at_boundaries s).1.2.2 list hmem, by decide,
    (split_at_boundaries list).2.2⟩

end splitting

end Pagewright.Outline
