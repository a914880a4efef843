import Mathlib.Data.List.Infix
import Pagewright.Markdown.Render

/-! Paragraph tags in rendered text. A text without its outer tags still has every paragraph opened
and closed if it was a single one, but not if the paragraphs behind the first have attributes. -/
namespace Pagewright.Markdown

inductive ParagraphTag where
  | plain
  | withAttributes
  | close
  deriving DecidableEq

namespace ParagraphTag

/-- How a tag begins; only one with attributes goes on. -/
def text : ParagraphTag → List Char
  | .plain => paragraphStart
  | .withAttributes => "<p ".toList
  | .close => paragraphEnd

/-- The tag at the front of a text. -/
def at? (cs : List Char) : Option ParagraphTag :=
  [plain, withAttributes, close].find? fun tag => tag.text.isPrefixOf cs

end ParagraphTag

open ParagraphTag

/-- The paragraph tags of a text from left to right. -/
def paragraphTags : List Char → List ParagraphTag
  | [] => []
  | c :: cs => (at? (c :: cs)).toList ++ paragraphTags cs

/-- Every tag that opens a paragraph is followed by one that closes it, and no other tag closes. -/
inductive Paired : List ParagraphTag → Prop where
  | nil : Paired []
  | cons {tag : ParagraphTag} {rest : List ParagraphTag} (hopen : tag ≠ .close)
      (hrest : Paired rest) : Paired (tag :: .close :: rest)

/-- A text as the inside of a plain paragraph. -/
def asParagraph (inner : List Char) : List Char := paragraphStart ++ inner ++ paragraphEnd

theorem asParagraph_inj {inner inner' : List Char} :
    asParagraph inner = asParagraph inner' ↔ inner = inner' := by
  simp [asParagraph]

theorem ne_asParagraph (inner : List Char) : inner ≠ asParagraph inner := fun h => by
  have hlength := congrArg List.length h
  simp [asParagraph, paragraphStart] at hlength
  omega

section tags

variable {cs front back inner : List Char} {tag : ParagraphTag}

theorem at?_eq_some_iff : at? cs = some tag ↔ tag.text <+: cs := by
  constructor
  · intro h
    simpa using List.find?_some h
  · rintro ⟨more, rfl⟩
    cases tag <;> simp [at?, ParagraphTag.text, paragraphStart, paragraphEnd]

/-- Only the first character of a tag is an opening bracket, so no tag reaches over another one. -/
theorem prefix_append_open_iff {c : Char} :
    tag.text <+: c :: front ++ '<' :: back ↔ tag.text <+: c :: front := by
  constructor
  · intro h
    rcases List.prefix_or_prefix_of_prefix h (List.prefix_append _ _) with hshort | ⟨more, hmore⟩
    · exact hshort
    · rw [← hmore] at h ⊢
      have hmore' : more <+: '<' :: back := (List.prefix_append_right_inj _).mp h
      rcases List.prefix_cons_iff.mp hmore' with rfl | ⟨tail, rfl, -⟩
      · rw [List.append_nil]
      · have htail : '<' ∉ tag.text.tail := by cases tag <;> decide
        rw [← hmore] at htail
        simp at htail
  · exact fun h => h.trans (List.prefix_append _ _)

theorem at?_append_open {c : Char} : at? (c :: front ++ '<' :: back) = at? (c :: front) := by
  ext tag
  rw [at?_eq_some_iff, at?_eq_some_iff, prefix_append_open_iff]

theorem paragraphTags_append_open : paragraphTags (front ++ '<' :: back) =
    paragraphTags front ++ paragraphTags ('<' :: back) := by
  induction front with
  | nil => rfl
  | cons c front ih =>
    have hcons (cs : List Char) :
        paragraphTags (c :: cs) = (at? (c :: cs)).toList ++ paragraphTags cs := rfl
    rw [List.cons_append, hcons, hcons, ih, ← List.cons_append, at?_append_open, List.append_assoc]

theorem paragraphTags_asParagraph :
    paragraphTags (asParagraph inner) = .plain :: paragraphTags inner ++ [.close] := by
  have hend : paragraphEnd = '<' :: "/p>".toList := rfl
  have hclose : paragraphTags ('<' :: "/p>".toList) = [.close] := by decide
  have hstart (cs : List Char) : paragraphTags (paragraphStart ++ cs) = .plain :: paragraphTags cs :=
    rfl
  rw [asParagraph, List.append_assoc, hstart, hend, paragraphTags_append_open, hclose,
    List.cons_append]

theorem contains_paragraphStart_iff :
    Text.contains paragraphStart cs ↔ .plain ∈ paragraphTags cs := by
  induction cs with
  | nil => decide
  | cons c cs ih =>
    have hfront : Text.startsWith paragraphStart (c :: cs) ↔ at? (c :: cs) = some .plain := by
      rw [at?_eq_some_iff]
      exact List.isPrefixOf_iff_prefix
    rw [paragraphTags, List.mem_append, Option.mem_toList, ← hfront, ← ih, Text.contains,
      Text.cutAt, Text.contains]
    split
    next h => simp [h]
    next h => simp [h]

theorem unwrap_asParagraph : unwrap (asParagraph inner) =
    if .plain ∈ paragraphTags inner then asParagraph inner else inner := by
  have hinner : ((asParagraph inner).drop paragraphStart.length).take
      ((asParagraph inner).length - paragraphStart.length - paragraphEnd.length) = inner := by
    simp [asParagraph]
  unfold unwrap
  rw [hinner]
  by_cases hplain : .plain ∈ paragraphTags inner
  · have hcontains := contains_paragraphStart_iff.mpr hplain
    simp [hplain, hcontains]
  · have hcontains := mt contains_paragraphStart_iff.mp hplain
    simp [hplain, hcontains, asParagraph]

theorem unwrap_of_ne (h : ∀ inner, cs ≠ asParagraph inner) : unwrap cs = cs := by
  unfold unwrap
  dsimp only
  split
  next hcs => exact absurd hcs.1 (h _)
  next => rfl

end tags

section paired

variable {h : List Char} {tags : List ParagraphTag}

/-- Between the first tag and the last one, tags that are paired with these begin with a closing one. -/
theorem Paired.eq_nil_of_inner {first last : ParagraphTag}
    (houter : Paired (first :: tags ++ [last])) (hinner : Paired tags) : tags = [] := by
  cases hinner with
  | nil => rfl
  | cons hopen hrest =>
    cases houter with
    | cons _ _ => exact absurd rfl hopen

/-- A text in which paragraphs are paired keeps them so, unless it begins with a plain one and all
others have attributes. So the outer tags are rightly taken away just from a single paragraph. -/
theorem paired_unwrap_iff (hpaired : Paired (paragraphTags h)) :
    (unwrap h = h ∨ h = asParagraph (unwrap h)) ∧
    (Paired (paragraphTags (unwrap h)) ↔
      ∀ inner, h = asParagraph inner → .plain ∈ paragraphTags inner ∨ paragraphTags inner = []) ∧
    (unwrap h ≠ h ∧ Paired (paragraphTags (unwrap h)) ↔
      ∃ inner, h = asParagraph inner ∧ paragraphTags inner = []) := by
  by_cases hwrapped : ∃ inner, h = asParagraph inner
  · obtain ⟨inner, rfl⟩ := hwrapped
    rw [unwrap_asParagraph]
    by_cases hplain : .plain ∈ paragraphTags inner
    · rw [if_pos hplain]
      refine ⟨.inl rfl, iff_of_true hpaired fun inner' h => ?_, iff_of_false (fun h => h.1 rfl) ?_⟩
      · exact .inl (asParagraph_inj.mp h ▸ hplain)
      · rintro ⟨inner', h, hnil⟩
        obtain rfl := asParagraph_inj.mp h
        simp [hnil] at hplain
    · rw [if_neg hplain]
      have hinner : Paired (paragraphTags inner) ↔ paragraphTags inner = [] := by
        rw [paragraphTags_asParagraph] at hpaired
        exact ⟨hpaired.eq_nil_of_inner, fun h => h ▸ .nil⟩
      refine ⟨.inr rfl, ?_, ?_⟩
      · simp [hinner, asParagraph_inj, hplain]
      · simp [hinner, asParagraph_inj, ne_asParagraph]
  · have hne : ∀ inner, h ≠ asParagraph inner := fun inner hinner => hwrapped ⟨inner, hinner⟩
    rw [unwrap_of_ne hne]
    refine ⟨.inl rfl, iff_of_true hpaired fun inner hinner => absurd hinner (hne inner), ?_⟩
    exact iff_of_false (fun h => h.1 rfl) fun ⟨inner, hinner, _⟩ => hne inner hinner

end paired

/-- A paragraph between two plain ones may have attributes. -/
theorem paired_unwrap_iff_three :
    let h := "<p>a</p>\n<p id=\"b\">b</p>\n<p>c</p>".toList
    Paired (paragraphTags h) ∧ (unwrap h = h ∨ h = asParagraph (unwrap h)) ∧
      (Paired (paragraphTags (unwrap h)) ↔
        ∀ inner, h = asParagraph inner → .plain ∈ paragraphTags inner ∨ paragraphTags inner = []) ∧
      (unwrap h ≠ h ∧ Paired (paragraphTags (unwrap h)) ↔
        ∃ inner, h = asParagraph inner ∧ paragraphTags inner = []) := by
  intro h
  have htags : paragraphTags h = [.plain, .close, .withAttributes, .close, .plain, .close] := by
    decide
  have hpaired : Paired (paragraphTags h) := by
    rw [htags]
    exact .cons nofun (.cons nofun (.cons nofun .nil))
  exact ⟨hpaired, paired_unwrap_iff hpaired⟩

/-- A rendered text of two paragraphs, of which the second has attributes, loses its outer tags. -/
theorem not_paired_unwrap : ¬ ∀ text, Paired (paragraphTags (html text)) →
    Paired (paragraphTags (unwrap (html text))) := by
  intro hall
  have hhtml : html "one</p><p class=\"note\">two".toList =
      "<p>one</p><p class=\"note\">two</p>".toList := by decide +kernel
  have htags : paragraphTags "<p>one</p><p class=\"note\">two</p>".toList =
      [.plain, .close, .withAttributes, .close] := by decide
  have hinner : paragraphTags (unwrap "<p>one</p><p class=\"note\">two</p>".toList) =
      [.close, .withAttributes] := by decide +kernel
  have hunwrap := hall "one</p><p class=\"note\">two".toList
  rw [hhtml, htags, hinner] at hunwrap
  have hopen := hunwrap (.cons nofun (.cons nofun .nil))
  cases hopen

end Pagewright.Markdown
