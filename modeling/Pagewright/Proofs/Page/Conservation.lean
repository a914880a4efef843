import Pagewright.Proofs.Page.Layout

/-! A page holds every node that was written, once, and all head-only tags in its head. -/
namespace Pagewright

open Element

namespace Rooted

section finished

variable (f : String → String) (link : Bool)

/-- The head of a page without components. -/
def finishedHead (root : Rooted) : Element :=
  root.html.headOrNew.withChildren
    (rewriteIn f link true root.headContent ++ hoistedFrom f link false root.page)

def finishedRoot (root : Rooted) : Element :=
  (root.html.withoutHead.rewrite f link false).prepend (root.finishedHead f link)

/-- A page without components. -/
def finished (root : Rooted) : List Element :=
  (doctype :: rewriteIn f link false root.before) ++
    root.finishedRoot f link :: rewriteIn f link false root.after

variable {f link} {root : Rooted}

theorem tag_finishedRoot (hhtml : root.html.tag = "html") :
    (root.finishedRoot f link).tag = "html" := by
  have htag := tag_relabel f link (isHeadOnly_withoutHead hhtml)
  rw [finishedRoot, prepend, rewrite_eq]
  exact htag.trans ((tag_withoutHead _).trans hhtml)

theorem tag_ne_of_mem_front (hbefore : ∀ el ∈ root.before, el.tag ≠ "html") :
    ∀ el ∈ doctype :: rewriteIn f link false root.before, el.tag ≠ "html" := by
  intro el hel
  rcases List.mem_cons.mp hel with rfl | hel
  · decide
  · obtain ⟨source, hsource, hkept, rfl⟩ := mem_rewriteIn f link hel
    have htag := tag_relabel f link hkept
    rw [rewrite_eq, tag_withChildren, htag]
    exact hbefore source hsource

theorem pageHead?_finished (hhtml : root.html.tag = "html")
    (hbefore : ∀ el ∈ root.before, el.tag ≠ "html") :
    pageHead? (root.finished f link) = some (root.finishedHead f link) := by
  rw [pageHead?, finished, root?_append (tag_ne_of_mem_front hbefore) (tag_finishedRoot hhtml)]
  rfl

theorem outsidePageHead_finished (hhtml : root.html.tag = "html")
    (hbefore : ∀ el ∈ root.before, el.tag ≠ "html") :
    outsidePageHead (root.finished f link) = doctype :: rewriteIn f link false root.page := by
  have hroot : (root.finishedRoot f link).withChildren (root.finishedRoot f link).children.tail =
      root.html.withoutHead.rewrite f link false :=
    (root.html.withoutHead.rewrite f link false).withChildren_children
  have hkept := isHeadOnly_withoutHead hhtml
  rw [outsidePageHead, finished,
    onRoot_append _ (tag_ne_of_mem_front hbefore) (tag_finishedRoot hhtml), hroot, page]
  simp [rewriteIn_cons, hkept]

/-- The nodes of a page are those of the forest that it is made of, and two more. -/
theorem labels_finished (hhtml : root.html.tag = "html") :
    (labels (root.finished f link)).Perm
      ((labels (root.page ++ [root.html.headOrNew])).map (relabel f link) ++
        [doctype, viewport]) := by
  classical
  have hhead := labels_perm f link true root.headContent
  have hpage := labels_perm f link false root.page
  have hkept := isHeadOnly_withoutHead hhtml
  have hrewrite : rewriteIn f link false root.page = rewriteIn f link false root.before ++
      [root.html.withoutHead.rewrite f link false] ++ rewriteIn f link false root.after := by
    simp [page, rewriteIn_cons, hkept]
  have hrest : rewriteIn f link true root.headContent =
      rewriteIn f link true root.html.headOrNew.children ++ [viewport] := by
    rw [headContent, rewriteIn_append]
    rfl
  have hlabel : root.html.headOrNew.label.relabel f link = root.html.headOrNew.label := by
    have htag := root.html.tag_headOrNew
    refine relabel_eq_self f link ?_ ?_
    · simp [isStyleSheet, label, htag]
    · simp [label, htag]
  have hviewport : viewport.relabel f link = viewport ∧ viewport.label = viewport ∧
      viewport.children = [] ∧ doctype.label = doctype ∧ doctype.children = [] :=
    ⟨rfl, rfl, rfl, rfl, rfl⟩
  rw [List.perm_iff_count] at hhead hpage ⊢
  intro a
  have hhead := hhead a
  have hpage := hpage a
  rw [hrest] at hhead
  rw [hrewrite] at hpage
  rw [finished, finishedRoot, finishedHead, hrest]
  simp only [labels_append, labels_cons, labels_nil, label_prepend, children_prepend,
    label_withChildren, children_withChildren, List.count_append, List.count_cons, List.count_nil,
    List.map_append, List.map_cons, List.map_nil, hoistedFrom_head, headContent, hviewport, hlabel]
    at hhead hpage ⊢
  omega

theorem returns_finished {rules : Rules} {f : String → String}
    (hf : ∀ code, rules.compileScript code = .ok (f code)) {els : List Element}
    (hels : Unmarked els) (w : Workshop) :
    ∃ doc w', Returns (Document.ofForest rules els) w doc w' ∧
      doc.elements = (ofForest els).finished f rules.linkCompiledScripts := by
  have hunmarked := unmarked_page hels
  simp only [page, unmarked_append, unmarked_cons, unmarked_nil, and_true] at hunmarked
  obtain ⟨⟨⟨hbefore, hmark, hpage⟩, hafter⟩, _, hhead⟩ := hunmarked
  have hheadContent : Unmarked (ofForest els).headContent := by
    rw [headContent, unmarked_append]
    exact ⟨hhead, (unmarked_cons ..).mpr ⟨rfl, unmarked_nil, unmarked_nil⟩⟩
  have hroot : Unmarked [(ofForest els).html.withoutHead] := by simp [hmark, hpage]
  obtain ⟨n₁, hruns₁⟩ := resolves_of_unmarked hf true hheadContent w
  obtain ⟨n₂, hruns₂⟩ := resolves_of_unmarked hf false hbefore _
  obtain ⟨n₃, hruns₃⟩ := resolves_of_unmarked hf false hroot _
  obtain ⟨n₄, hruns₄⟩ := resolves_of_unmarked hf false hafter _
  refine ⟨⟨_, _⟩, _, returns_ofForest_iff.mpr ⟨_, _, _, _, _, _, _, _, rfl, hruns₁, hruns₂, hruns₃,
    hruns₄, _, rfl, rfl, rfl⟩, ?_⟩
  simp only [isMarked_withoutHead] at hmark
  have hkept := isHeadOnly_withoutHead (tag_html els)
  rw [finished, finishedRoot, finishedHead, page, hoistedFrom_append, hoistedFrom_append]
  simp [Resolution.ofUnmarked, hmark, hkept, rewriteIn_cons]

end finished

end Rooted

open Rooted

/-- Nothing is lost or doubled on the way to a page, and what belongs into the head is there. -/
theorem Document.ofForest_conserves {rules : Rules} {f : String → String}
    (hf : ∀ code, rules.compileScript code = .ok (f code)) {els : List Element}
    (hels : Unmarked els) (w : Workshop) :
    ∃ doc w' head, Returns (Document.ofForest rules els) w doc w' ∧
      pageHead? doc.elements = some head ∧
      (∀ node ∈ nodesOf (outsidePageHead doc.elements), node.isHeadOnly = false) ∧
      (labels doc.elements).Perm
        ((labels (undeclared els)).map (relabel f rules.linkCompiledScripts) ++
          ([doctype, viewport] ++ lacking (undeclared els))) ∧
      head.children =
        rewriteIn f rules.linkCompiledScripts true (sourceHeadContent (undeclared els)) ++
          [viewport] ++
          hoistedFrom f rules.linkCompiledScripts false (outsideHead (undeclared els)) := by
  obtain ⟨doc, w', hruns, helements⟩ := returns_finished hf hels w
  have hhtml := tag_html els
  have hbefore := tag_ne_of_mem_before els
  refine ⟨doc, w', (Rooted.ofForest els).finishedHead f rules.linkCompiledScripts, hruns, ?_, ?_,
    ?_, ?_⟩
  · rw [helements]
    exact pageHead?_finished hhtml hbefore
  · rw [helements, outsidePageHead_finished hhtml hbefore]
    intro node hnode
    have hdoctype : doctype.isHeadOnly = false ∧ doctype.children = [] := ⟨rfl, rfl⟩
    rw [nodesOf_cons, hdoctype.2, nodesOf_nil, List.nil_append] at hnode
    rcases List.mem_cons.mp hnode with rfl | hnode
    · exact hdoctype.1
    · exact not_isHeadOnly_of_mem _ _ _ node hnode
  · have hpage := (labels_page els).map (relabel f rules.linkCompiledScripts)
    rw [List.map_append, map_relabel_lacking] at hpage
    rw [helements]
    refine ((labels_finished hhtml).trans (hpage.append_right _)).trans ?_
    rw [List.append_assoc]
    exact List.perm_append_comm.append_left _
  · rw [finishedHead, children_withChildren, hoistedFrom_page, headContent, rewriteIn_append,
      children_headOrNew]
    rfl

/-- A title inside a paragraph moves to the head. -/
theorem Document.ofForest_conserves_title :
    ∃ doc w' head, Returns (Document.ofForest { compileScript := .ok }
        [{ tag := "p", children := [{ tag := "title" }] }]) {} doc w' ∧
      pageHead? doc.elements = some head ∧
      (∀ node ∈ nodesOf (outsidePageHead doc.elements), node.isHeadOnly = false) ∧
      (labels doc.elements).Perm [{ tag := "p" }, { tag := "title" }, doctype, viewport,
        { tag := "html" }, { tag := "head" }, { tag := "body" }] ∧
      head.children = [viewport, { tag := "title" }] := by
  have hels : Unmarked [{ tag := "p", children := [{ tag := "title" }] }] := by
    simp only [unmarked_cons, unmarked_nil, and_true]
    exact ⟨rfl, rfl⟩
  have hf : ∀ code, Rules.compileScript { compileScript := .ok } code = .ok (id code) :=
    fun _ => rfl
  obtain ⟨doc, w', head, hruns, hhead, houtside, hlabels, hchildren⟩ :=
    Document.ofForest_conserves hf hels {}
  exact ⟨doc, w', head, hruns, hhead, houtside, hlabels, hchildren⟩

end Pagewright
