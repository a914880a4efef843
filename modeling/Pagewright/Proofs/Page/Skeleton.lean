import Pagewright.Proofs.Page.Expansion
import Pagewright.Proofs.Page.Passes

/-! When a document has the shape of a page: one html root that holds a head and then a body. -/
namespace Pagewright

def IsSkeleton (page : List Element) : Prop :=
  ∃ html head body, page = [Element.doctype, html] ∧ html.tag = "html" ∧
    html.children = [head, body] ∧ head.tag = "head" ∧ body.tag = "body"

/-- The elements of a forest that do not move to the head. -/
def staying (els : List Element) : List Element := els.filter fun el => !el.isHeadOnly

/-- One element stays in a forest, an html, and in it elements with these tags. -/
def HoldsOne (tags : List String) (els : List Element) : Prop :=
  ∃ html, staying els = [html] ∧ html.tag = "html" ∧ (staying html.children).map (·.tag) = tags

/-- A kept element has the tag of its source, and its children those of the ones that stay. -/
def SameTags (el kept : Element) : Prop :=
  kept.tag = el.tag ∧ kept.children.map (·.tag) = (staying el.children).map (·.tag)

theorem staying_cons (el : Element) (rest : List Element) : staying (el :: rest) =
    if el.isHeadOnly then staying rest else el :: staying rest := by
  rw [staying, List.filter_cons]
  cases el.isHeadOnly <;> rfl

theorem map_tag_of_sameTags {front kept : List Element} (h : List.Forall₂ SameTags front kept) :
    kept.map (·.tag) = front.map (·.tag) := by
  induction h with
  | nil => rfl
  | cons hfirst _ ih => rw [List.map_cons, List.map_cons, hfirst.1, ih]

namespace Resolves

variable {rules : Rules} {w w' : Workshop} {r : Resolution} {els : List Element}

theorem sameTags (h : Resolves rules false w els r w') (hels : Element.Unmarked els) :
    List.Forall₂ SameTags (staying els) r.kept := by
  induction h with
  | nil => exact .nil
  | define hmark _ _ _ => simp [hmark] at hels
  | copy hmark _ _ _ _ _ _ _ => simp [hmark] at hels
  | @plain w el rest el' sources inner r w₁ w₂ w' hmark hstyle hinner hrest ihinner ih =>
    obtain ⟨_, hchildren, hunmarked⟩ := (Element.unmarked_cons ..).mp hels
    obtain ⟨f, rfl⟩ := hstyle.exists_relabel
    have hinner := ihinner hchildren
    have hrest := ih hunmarked
    rw [staying_cons, Resolution.ofElement]
    simp only [Element.isHeadOnly_withChildren, Element.isHeadOnly_relabel, Bool.not_false,
      Bool.true_and]
    cases hkept : el.isHeadOnly with
    | true => exact hrest
    | false =>
      have htag := Element.tag_relabel f rules.linkCompiledScripts hkept
      exact .cons ⟨htag, map_tag_of_sameTags hinner⟩ hrest

/-- An unmarked element that is not head-only stays. -/
theorem exists_kept {el : Element} (h : Resolves rules false w [el] r w')
    (hmark : el.isMarked = false) (hkept : el.isHeadOnly = false) : ∃ kept, r.kept = [kept] := by
  obtain ⟨el', sources, inner, others, w₁, w₂, hstyle, _, hothers, rfl⟩ := h.of_not_marked hmark
  obtain ⟨f, rfl⟩ := hstyle.exists_relabel
  cases hothers
  refine ⟨(el.relabel f rules.linkCompiledScripts).withChildren inner.kept, ?_⟩
  rw [Resolution.ofElement_of_stays _ (by simp [hkept])]
  rfl

theorem holdsOne_iff (h : Resolves rules false w els r w') (hels : Element.Unmarked els)
    (tags : List String) : HoldsOne tags els ↔
      ∃ html, r.kept = [html] ∧ html.tag = "html" ∧ html.children.map (·.tag) = tags := by
  have hsame := h.sameTags hels
  rw [HoldsOne]
  generalize staying els = front at hsame
  generalize r.kept = kept at hsame
  constructor
  · rintro ⟨html, rfl, htag, htags⟩
    cases hsame with
    | cons hfirst hrest =>
      cases hrest
      exact ⟨_, rfl, hfirst.1.trans htag, hfirst.2.trans htags⟩
  · rintro ⟨html, rfl, htag, htags⟩
    cases hsame with
    | cons hfirst hrest =>
      cases hrest
      exact ⟨_, rfl, hfirst.1.symm.trans htag, hfirst.2.symm.trans htags⟩

end Resolves

theorem isSkeleton_of_kept (kept : List Element) : IsSkeleton (Element.doctype :: kept) ↔
    ∃ html, kept = [html] ∧ html.tag = "html" ∧
      html.children.map (·.tag) = ["head", "body"] := by
  constructor
  · rintro ⟨html, head, body, hpage, hhtml, hchildren, hhead, hbody⟩
    obtain rfl := (List.cons.inj hpage).2
    exact ⟨html, rfl, hhtml, by simp [hchildren, hhead, hbody]⟩
  · rintro ⟨html, rfl, hhtml, htags⟩
    obtain ⟨head, rest, hchildren, hhead, hrest⟩ := List.map_eq_cons_iff.mp htags
    obtain ⟨body, rest, rfl, hbody, hnil⟩ := List.map_eq_cons_iff.mp hrest
    rw [List.map_eq_nil_iff.mp hnil] at hchildren
    exact ⟨html, head, body, rfl, hhtml, hchildren, hhead, hbody⟩

theorem append_eq_singleton {before after : List Element} {el el' : Element} :
    before ++ [el] ++ after = [el'] ↔ before = [] ∧ after = [] ∧ el = el' := by
  cases before with
  | nil => simp [and_comm]
  | cons first rest => simp

theorem isSkeleton_of_prepend (before after : List Element) (html : Element) {head : Element}
    (hhead : head.tag = "head") :
    IsSkeleton (Element.doctype :: (before ++ [html.prepend head] ++ after)) ↔
      ∃ root, before ++ [html] ++ after = [root] ∧ root.tag = "html" ∧
        root.children.map (·.tag) = ["body"] := by
  simp only [isSkeleton_of_kept, append_eq_singleton]
  constructor
  · rintro ⟨_, ⟨rfl, rfl, rfl⟩, hhtml, htags⟩
    rw [Element.children_prepend, List.map_cons, hhead] at htags
    exact ⟨html, ⟨rfl, rfl, rfl⟩, hhtml, (List.cons.inj htags).2⟩
  · rintro ⟨_, ⟨rfl, rfl, rfl⟩, hhtml, htags⟩
    refine ⟨_, ⟨rfl, rfl, rfl⟩, hhtml, ?_⟩
    rw [Element.children_prepend, List.map_cons, hhead, htags]

/-- A document has the shape exactly if its page expands to one html that holds a body, apart from
what moves to the head. A root that is a component gets no head and has to hold one. -/
theorem isSkeleton_iff {rules : Rules} {els : List Element} {doc : Document} {w' : Workshop}
    (h : Returns (Document.ofForest rules els) {} doc w') :
    IsSkeleton doc.elements ↔ ∃ head plain registry registry',
      Expands [] (Rooted.ofForest els).headContent head registry ∧
      Expands registry (Rooted.ofForest els).page plain registry' ∧
      HoldsOne (if (Rooted.ofForest els).html.isMarked then ["head", "body"] else ["body"])
        plain := by
  obtain ⟨headPart, before, page, after, w₁, w₂, w₃, _, rfl, hhead, hbefore, hpage, hafter, head,
    hheadEq, helements, _⟩ := returns_ofForest_iff.mp h
  have hsound : Registry.Sound [] := nofun
  have hruns := (hbefore.append hpage).append hafter
  obtain ⟨headPlain, hheadExpands, _⟩ := hhead.expands hsound
  have hsound₁ := hheadExpands.sound hsound
  obtain ⟨plain, hexpands, hplain⟩ := hruns.expands hsound₁
  have hholds := (hplain []).holdsOne_iff (hexpands.unmarked hsound₁)
  -- The expansions are unique, so those of this run are the ones that count.
  have hiff : IsSkeleton doc.elements ↔ HoldsOne
      (if (Rooted.ofForest els).html.isMarked then ["head", "body"] else ["body"]) plain := by
    rw [hholds, helements]
    cases hmark : (Rooted.ofForest els).html.isMarked with
    | true => simpa using isSkeleton_of_kept (before.kept ++ page.kept ++ after.kept)
    | false =>
      obtain ⟨html, hkept⟩ := hpage.exists_kept ((Element.isMarked_withoutHead _).trans hmark)
        (Element.isHeadOnly_withoutHead (Rooted.tag_html els))
      have htag : head.tag = "head" := by
        rw [hheadEq]
        exact Element.tag_headOrNew _
      simpa [hkept] using isSkeleton_of_prepend before.kept after.kept html htag
  rw [hiff]
  constructor
  · intro hone
    exact ⟨headPlain, plain, w₁.registry, w'.registry, hheadExpands, hexpands, hone⟩
  · rintro ⟨_, _, _, _, hheadExpands', hexpands', hone⟩
    obtain ⟨_, rfl⟩ := hheadExpands.unique hheadExpands'
    obtain ⟨rfl, _⟩ := hexpands.unique hexpands'
    exact hone

set_option maxRecDepth 4000 in
/-- A paragraph is wrapped into a body, and the head takes in the viewport. -/
theorem isSkeleton_paragraph :
    ∃ doc w', Returns (Document.ofForest { compileScript := .ok } [{ tag := "p" }]) {} doc w' ∧
      IsSkeleton doc.elements := by
  have hhead : Expands [] [Element.viewport] [Element.viewport] [] := .keep rfl (.nil _) (.nil _)
  have hbody : Expands [] [{ tag := "body", children := [{ tag := "p" }] }]
      [{ tag := "body", children := [{ tag := "p" }] }] [] :=
    .keep rfl (.keep rfl (.nil _) (.nil _)) (.nil _)
  have hpage : Expands []
      [{ tag := "html", children := [{ tag := "body", children := [{ tag := "p" }] }] }]
      [{ tag := "html", children := [{ tag := "body", children := [{ tag := "p" }] }] }] [] :=
    .keep rfl hbody (.nil _)
  have hruns : Returns (Document.ofForest { compileScript := .ok } [{ tag := "p" }]) {}
      { elements := [Element.doctype,
          { tag := "html",
            children := [{ tag := "head", children := [Element.viewport] },
              { tag := "body", children := [{ tag := "p" }] }] }]
        scriptSources := [] } {} := rfl
  have hshape := (isSkeleton_iff hruns).mpr ⟨_, _, _, _, hhead, hpage, _, rfl, rfl, rfl⟩
  exact ⟨_, _, hruns, hshape⟩

set_option maxRecDepth 4000 in
/-- What is written beside an html element stays beside it. -/
theorem not_isSkeleton_beside_html : ¬ ∀ rules els doc w',
    Returns (Document.ofForest rules els) {} doc w' → IsSkeleton doc.elements := by
  intro h
  have hruns : Returns (Document.ofForest { compileScript := .ok }
      [{ tag := "html", children := [{ tag := "body" }] }, { tag := "p", text := some "x" }]) {}
      { elements := [Element.doctype,
          { tag := "html",
            children := [{ tag := "head", children := [Element.viewport] }, { tag := "body" }] },
          { tag := "p", text := some "x" }]
        scriptSources := [] } {} := rfl
  obtain ⟨html, head, body, hpage, _⟩ := h _ _ _ _ hruns
  simp at hpage

end Pagewright
