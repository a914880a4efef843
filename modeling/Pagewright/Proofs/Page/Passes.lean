import Mathlib.Data.List.TakeWhile
import Pagewright.Page.Document
import Pagewright.Proofs.Page.LevelBound

/-! The passes that make a document: over the head, and then around and in the root. -/
namespace Pagewright

namespace Rooted

/-- The content of the head that is made into the page. -/
def headContent (root : Rooted) : List Element :=
  root.html.headOrNew.children ++ [Element.viewport]

/-- What the passes after the head go over. -/
def page (root : Rooted) : List Element := root.before ++ [root.html.withoutHead] ++ root.after

/-- The forest that is made into a page; a doctype is given to it anyway. -/
def undeclared (els : List Element) : List Element := els.filter (·.tag != Element.doctypeTag)

/-- Either the root stands in the forest and is its first html element, or the forest has none and
is the content of a new root. -/
theorem ofForest_cases (els : List Element) :
    (∃ before html after, ofForest els = ⟨before, html, after⟩ ∧
      undeclared els = before ++ html :: after ∧ html.tag = "html" ∧
      ∀ el ∈ before, el.tag ≠ "html") ∨
    (ofForest els = ⟨[], { tag := "html", children := undeclared els }, []⟩ ∧
      ∀ el ∈ undeclared els, el.tag ≠ "html") := by
  have hsplit := List.takeWhile_append_dropWhile (p := fun el : Element => el.tag != "html")
    (l := undeclared els)
  have hbefore : ∀ el ∈ (undeclared els).takeWhile (·.tag != "html"), el.tag ≠ "html" := by
    intro el hel
    simpa using List.mem_takeWhile_imp hel
  rw [ofForest, ← undeclared]
  cases hafter : (undeclared els).dropWhile (·.tag != "html") with
  | nil =>
    rw [hafter, List.append_nil] at hsplit
    rw [hsplit] at hbefore
    exact .inr ⟨rfl, hbefore⟩
  | cons html after =>
    have hne : (undeclared els).dropWhile (·.tag != "html") ≠ [] := by simp [hafter]
    have hhtml := List.head_dropWhile_not (fun el : Element => el.tag != "html") hne
    simp only [hafter, List.head_cons, bne_eq_false_iff_eq] at hhtml
    rw [hafter] at hsplit
    exact .inl ⟨_, html, after, rfl, hsplit.symm, hhtml, hbefore⟩

theorem tag_html (els : List Element) : (ofForest els).html.tag = "html" := by
  rcases ofForest_cases els with ⟨_, _, _, hroot, _, hhtml, _⟩ | ⟨hroot, _⟩
  · rw [hroot]
    exact hhtml
  · rw [hroot]

theorem tag_ne_of_mem_before (els : List Element) :
    ∀ el ∈ (ofForest els).before, el.tag ≠ "html" := by
  rcases ofForest_cases els with ⟨_, _, _, hroot, _, _, hbefore⟩ | ⟨hroot, _⟩
  · rw [hroot]
    exact hbefore
  · rw [hroot]
    nofun

end Rooted

namespace Element

theorem tag_headOrNew (html : Element) : html.headOrNew.tag = "head" := by
  rw [headOrNew, child?]
  cases h : html.children.find? (·.tag = "head") with
  | none => rfl
  | some head => simpa using List.find?_some h

@[simp] theorem label_prepend (el child : Element) : (el.prepend child).label = el.label := rfl

@[simp] theorem children_prepend (el child : Element) :
    (el.prepend child).children = child :: el.children := rfl

@[simp] theorem tag_withoutHead (html : Element) : html.withoutHead.tag = html.tag := by
  rw [withoutHead]
  split <;> rfl

theorem isHeadOnly_withoutHead {html : Element} (hhtml : html.tag = "html") :
    html.withoutHead.isHeadOnly = false := by
  simp [isHeadOnly, hhtml]

@[simp] theorem isMarked_withoutHead (html : Element) :
    html.withoutHead.isMarked = html.isMarked := by
  rw [withoutHead]
  split <;> rfl

end Element

/-- The passes of a document: the answers of each and how they are put together. -/
theorem returns_ofForest_iff {rules : Rules} {els : List Element} {w w' : Workshop}
    {doc : Document} : Returns (Document.ofForest rules els) w doc w' ↔
      ∃ headPart before page after w₁ w₂ w₃, ∃ root : Rooted, root = Rooted.ofForest els ∧
        Resolves rules true w root.headContent headPart w₁ ∧
        Resolves rules false w₁ root.before before w₂ ∧
        Resolves rules false w₂ [root.html.withoutHead] page w₃ ∧
        Resolves rules false w₃ root.after after w' ∧
        ∃ head, head = root.html.headOrNew.withChildren (headPart.kept ++
            (headPart.hoisted ++ before.hoisted ++ page.hoisted ++ after.hoisted)) ∧
          doc.elements = Element.doctype :: before.kept ++ (if root.html.isMarked then page.kept
            else page.kept.map (·.prepend head)) ++ after.kept ∧
          doc.scriptSources = headPart.scriptSources ++ before.scriptSources ++
            page.scriptSources ++ after.scriptSources := by
  simp only [Document.ofForest, Returns.bind_iff, Returns.pure_iff, returns_resolve_iff]
  constructor
  · rintro ⟨headPart, w₁, hhead, before, w₂, hbefore, page, w₃, hpage, after, w₄, hafter, rfl, rfl⟩
    refine ⟨headPart, before, page, after, w₁, w₂, w₃, _, rfl, hhead, hbefore, hpage, hafter, _,
      rfl, ?_, rfl⟩
    simp only [Element.isMarked_withoutHead]
    rfl
  · rintro ⟨headPart, before, page, after, w₁, w₂, w₃, _, rfl, hhead, hbefore, hpage, hafter, _,
      rfl, helements, hsources⟩
    refine ⟨headPart, w₁, hhead, before, w₂, hbefore, page, w₃, hpage, after, w', hafter, ?_, rfl⟩
    obtain ⟨elements, scriptSources⟩ := doc
    dsimp only at helements hsources
    subst helements hsources
    simp only [Element.isMarked_withoutHead]
    rfl

end Pagewright
