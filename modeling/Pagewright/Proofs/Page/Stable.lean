import Pagewright.Proofs.Page.Layout
import Pagewright.Proofs.Page.Settled

/-! A page is stable: made into a page once more, it only gets another viewport. -/
namespace Pagewright

open Element

namespace Resolves

variable {rules : Rules} {w w' : Workshop} {r : Resolution} {els : List Element}

theorem tag_of_mem_kept (h : Resolves rules false w els r w') (hw : w.registry.WellFormed) :
    ∀ node ∈ r.kept, node.tag = "div" ∨ ∃ el ∈ els, node.tag = el.tag := by
  induction h with
  | nil => nofun
  | define _ hname _ ih =>
    intro node hnode
    have htag := ih (hw.define hname) node hnode
    simp only [List.exists_mem_cons_iff]
    exact htag.imp_right .inr
  | copy _ hname hown hgiven _ _ _ ih =>
    intro node hnode
    rcases List.mem_cons.mp hnode with rfl | hnode
    · exact .inl (hw.sound.lookup hname).1
    · have htag := ih (hgiven.wellFormed (hown.wellFormed hw)) node hnode
      simp only [List.exists_mem_cons_iff]
      exact htag.imp_right .inr
  | plain _ hstyle hinner _ _ ih =>
    obtain ⟨g, rfl⟩ := hstyle.exists_relabel
    have hw₁ := hstyle.restyle_registry.1 ▸ hw
    intro node hnode
    rw [Resolution.kept_append, Resolution.kept_ofElement, List.mem_append] at hnode
    simp only [List.exists_mem_cons_iff]
    rcases hnode with hnode | hnode
    · split at hnode
      next => cases hnode
      next hstays =>
        rw [isHeadOnly_relabel, Bool.not_false, Bool.true_and, Bool.not_eq_true] at hstays
        rw [List.mem_singleton.mp hnode, tag_withChildren, tag_relabel _ _ hstays]
        exact .inr (.inl rfl)
    · have htag := ih (hinner.wellFormed hw₁) node hnode
      exact htag.imp_right .inr

/-- An unmarked element that is not head-only keeps its tag and its place. -/
theorem exists_kept_of_mem (h : Resolves rules false w els r w') {el : Element} (hel : el ∈ els)
    (hmark : el.isMarked = false) (hstays : el.isHeadOnly = false) :
    ∃ node ∈ r.kept, node.tag = el.tag := by
  induction h with
  | nil => cases hel
  | define hmark' _ _ ih =>
    rcases List.mem_cons.mp hel with rfl | hel
    · simp [hmark] at hmark'
    · exact ih hel
  | copy hmark' _ _ _ _ _ _ ih =>
    rcases List.mem_cons.mp hel with rfl | hel
    · simp [hmark] at hmark'
    · obtain ⟨node, hnode, htag⟩ := ih hel
      exact ⟨node, List.mem_append_right _ hnode, htag⟩
  | plain _ hstyle _ _ _ ih =>
    rcases List.mem_cons.mp hel with rfl | hel
    · obtain ⟨g, rfl⟩ := hstyle.exists_relabel
      have hkept : (el.relabel g rules.linkCompiledScripts).isHeadOnly = false := by
        rw [isHeadOnly_relabel, hstays]
      have htag := tag_relabel g rules.linkCompiledScripts hstays
      rw [Resolution.ofElement_of_stays _ hkept]
      exact ⟨_, List.mem_cons_self, htag⟩
    · obtain ⟨node, hnode, htag⟩ := ih hel
      exact ⟨node, List.mem_append_right _ hnode, htag⟩

end Resolves

namespace Element

theorem headOrNew_prepend {html head : Element} (h : head.tag = "head") :
    (html.prepend head).headOrNew = head := by
  simp [headOrNew, child?, prepend, h]

theorem withoutHead_prepend {html head : Element} (h : head.tag = "head")
    (hbody : ∃ body ∈ html.children, body.tag = "body") :
    (html.prepend head).withoutHead = html := by
  have hany : html.children.any (·.tag == "body") = true := by simpa using hbody
  simp only [withoutHead, children_prepend, List.eraseP_cons, h, beq_self_eq_true, cond_true, hany,
    if_true]
  exact html.withChildren_children

/-- The first run finds a body among the children of a root, or makes one. -/
theorem exists_body {html : Element}
    (hmarks : ∀ el ∈ html.children, el.tag = "body" → el.isMarked = false) :
    ∃ body ∈ html.withoutHead.children, body.tag = "body" ∧ body.isMarked = false := by
  rw [children_withoutHead]
  split
  next hany =>
    obtain ⟨body, hbody, htag⟩ := List.any_eq_true.mp hany
    have hchild := List.eraseP_subset hbody
    exact ⟨body, hbody, by simpa using htag, hmarks body hchild (by simpa using htag)⟩
  next => exact ⟨_, List.mem_singleton_self _, rfl, rfl⟩

end Element

namespace Rooted

variable {els : List Element}

theorem tag_ne_doctype {el : Element} (h : el ∈ undeclared els) : el.tag ≠ doctypeTag := by
  simpa using (List.mem_filter.mp h).2

theorem mem_undeclared_of_around {el : Element}
    (h : el ∈ (ofForest els).before ++ (ofForest els).after) : el ∈ undeclared els := by
  rcases ofForest_cases els with ⟨before, html, after, hroot, hels, -, -⟩ | ⟨hroot, -⟩
  · rw [hroot] at h
    rw [hels]
    simp only [List.mem_append, List.mem_cons] at h ⊢
    tauto
  · rw [hroot] at h
    cases h

theorem mem_nodes_of_root {el : Element} (h : el ∈ (ofForest els).html.children) :
    el ∈ nodesOf els := by
  rcases ofForest_cases els with ⟨before, html, after, hroot, hels, -, -⟩ | ⟨hroot, -⟩
  · rw [hroot] at h
    have hhtml : html ∈ undeclared els := by simp [hels]
    have hmem := (List.mem_filter.mp hhtml).1
    exact nodesOf_children_subset hmem (mem_nodesOf h)
  · rw [hroot] at h
    exact mem_nodesOf (List.mem_filter.mp h).1

theorem isMarked_root (hmarks : ∀ el ∈ nodesOf els, el.tag = "html" → el.isMarked = false) :
    (ofForest els).html.isMarked = false := by
  rcases ofForest_cases els with ⟨before, html, after, hroot, hels, hhtml, -⟩ | ⟨hroot, -⟩
  · rw [hroot]
    have hmem : html ∈ undeclared els := by simp [hels]
    exact hmarks html (mem_nodesOf (List.mem_filter.mp hmem).1) hhtml
  · rw [hroot]
    rfl

theorem ofForest_append {before after : List Element} {html : Element}
    (hels : undeclared els = before ++ html :: after) (hbefore : ∀ el ∈ before, el.tag ≠ "html")
    (hhtml : html.tag = "html") : ofForest els = ⟨before, html, after⟩ := by
  have hpass : ∀ el ∈ before, (el.tag != "html") = true := by simpa using hbefore
  have hdrop : (before ++ html :: after).dropWhile (·.tag != "html") = html :: after := by
    rw [List.dropWhile_append_of_pos hpass, List.dropWhile_cons_of_neg (by simp [hhtml])]
  have htake : (before ++ html :: after).takeWhile (·.tag != "html") = before := by
    rw [List.takeWhile_append_of_pos hpass, List.takeWhile_cons_of_neg (by simp [hhtml]),
      List.append_nil]
  rw [ofForest, ← undeclared, hels]
  simp only [hdrop, htake]

end Rooted

/-- A page in its parts, of which resolving leaves everything as it is. -/
structure SettledPage (f : String → String) (link : Bool) where
  before : List Element
  html : Element
  head : Element
  after : List Element
  tag_head : head.tag = "head"
  tag_html : html.tag = "html"
  exists_body : ∃ body ∈ html.children, body.tag = "body"
  tag_ne : ∀ el ∈ before, el.tag ≠ "html"
  undeclared : ∀ el ∈ before ++ after, el.tag ≠ doctypeTag
  settled : Settled f link false (before ++ [html] ++ after)
  settled_head : Settled f link true head.children

namespace SettledPage

variable {f : String → String} {link : Bool} (p : SettledPage f link)

def elements : List Element := doctype :: p.before ++ p.html.prepend p.head :: p.after

/-- The same page with one more viewport at the end of its head. -/
def addViewport : SettledPage f link :=
  { p with
    head := p.head.withChildren (p.head.children ++ [viewport])
    tag_head := p.tag_head
    settled_head := by
      rw [children_withChildren, settled_append, settled_cons]
      exact ⟨p.settled_head, isSettled_viewport, nofun, nofun⟩ }

theorem tag_ne_of_mem_front : ∀ el ∈ doctype :: p.before, el.tag ≠ "html" :=
  List.forall_mem_cons.mpr ⟨by decide, p.tag_ne⟩

theorem pageHead?_elements : pageHead? p.elements = some p.head := by
  have hhtml : (p.html.prepend p.head).tag = "html" := p.tag_html
  rw [pageHead?, elements, root?_append p.tag_ne_of_mem_front hhtml]
  rfl

theorem elements_addViewport : p.addViewport.elements = onRoot (fun root => root.withChildren
    (p.head.withChildren (p.head.children ++ [viewport]) :: root.children.tail)) p.elements := by
  have hhtml : (p.html.prepend p.head).tag = "html" := p.tag_html
  rw [elements, elements, onRoot_append _ p.tag_ne_of_mem_front hhtml]
  rfl

theorem ofForest_elements :
    Rooted.ofForest p.elements = ⟨p.before, p.html.prepend p.head, p.after⟩ := by
  have hundeclared : Rooted.undeclared p.elements =
      p.before ++ p.html.prepend p.head :: p.after := by
    have hkeep : ∀ el ∈ p.before ++ p.html.prepend p.head :: p.after,
        (el.tag != doctypeTag) = true := by
      intro el hel
      have haround := p.undeclared el
      simp only [List.mem_append, List.mem_cons] at hel haround
      rcases hel with hel | rfl | hel
      · simpa using haround (.inl hel)
      · have htag : (p.html.prepend p.head).tag = "html" := p.tag_html
        simp [htag, doctypeTag]
      · simpa using haround (.inr hel)
    have hdoctype : (doctype.tag != doctypeTag) = false := by decide
    rw [Rooted.undeclared, elements, List.cons_append,
      List.filter_cons_of_neg (by simp [hdoctype])]
    exact List.filter_eq_self.mpr hkeep
  exact Rooted.ofForest_append hundeclared p.tag_ne p.tag_html

/-- Made into a page, it gets another viewport. -/
theorem returns_elements {rules : Rules} (p : SettledPage f rules.linkCompiledScripts)
    (hf : ∀ code, rules.compileScript code = .ok (f code)) (w : Workshop) :
    ∃ doc w', Returns (Document.ofForest rules p.elements) w doc w' ∧
      doc.elements = p.addViewport.elements := by
  have hheadOrNew : (p.html.prepend p.head).headOrNew = p.head := headOrNew_prepend p.tag_head
  have hwithoutHead := withoutHead_prepend p.tag_head p.exists_body
  have hsettled := p.settled
  rw [settled_append, settled_append] at hsettled
  obtain ⟨⟨hbefore, hhtml⟩, hafter⟩ := hsettled
  have hmark : p.html.isMarked = false := (settled_cons.mp hhtml).1.not_marked
  have hhead := p.addViewport.settled_head
  obtain ⟨sources₁, n₁, hruns₁⟩ := resolves_of_settled hf hhead w
  obtain ⟨sources₂, n₂, hruns₂⟩ := resolves_of_settled hf hbefore
    { w with compiled := w.compiled + n₁ }
  obtain ⟨sources₃, n₃, hruns₃⟩ := resolves_of_settled hf hhtml
    { w with compiled := w.compiled + n₁ + n₂ }
  obtain ⟨sources₄, n₄, hruns₄⟩ := resolves_of_settled hf hafter
    { w with compiled := w.compiled + n₁ + n₂ + n₃ }
  have hroot := p.ofForest_elements
  have hheadRuns : Resolves rules true w
      (⟨p.before, p.html.prepend p.head, p.after⟩ : Rooted).headContent
      { kept := p.addViewport.head.children, scriptSources := sources₁ }
      { w with compiled := w.compiled + n₁ } := by
    rw [Rooted.headContent, hheadOrNew]
    exact hruns₁
  have hpageRuns : Resolves rules false { w with compiled := w.compiled + n₁ + n₂ }
      [(p.html.prepend p.head).withoutHead] { kept := [p.html], scriptSources := sources₃ }
      { w with compiled := w.compiled + n₁ + n₂ + n₃ } := by
    rw [hwithoutHead]
    exact hruns₃
  have hmark' : (p.html.prepend p.head).isMarked = false := hmark
  refine ⟨⟨_, _⟩, _, returns_ofForest_iff.mpr ⟨_, _, _, _, _, _, _, _, hroot.symm, hheadRuns, hruns₂,
    hpageRuns, hruns₄, _, rfl, rfl, rfl⟩, ?_⟩
  simp [elements, addViewport, hheadOrNew, hmark']

end SettledPage

section again

variable {rules : Rules} {f : String → String} {els : List Element} {doc : Document}
  {w w' : Workshop}

/-- The root stays, and it holds a body. -/
theorem Resolves.exists_kept_root {html : Element} {r : Resolution}
    (h : Resolves rules false w [html.withoutHead] r w') (hhtml : html.tag = "html")
    (hmark : html.isMarked = false)
    (hbodies : ∀ el ∈ html.children, el.tag = "body" → el.isMarked = false) :
    ∃ root, r.kept = [root] ∧ root.tag = "html" ∧ ∃ body ∈ root.children, body.tag = "body" := by
  have hstays := isHeadOnly_withoutHead hhtml
  obtain ⟨body, hbody, hbodyTag, hbodyMark⟩ := Element.exists_body hbodies
  obtain ⟨el', sources, inner, others, w₁, w₂, hstyle, hinner, hothers, rfl⟩ :=
    h.of_not_marked ((isMarked_withoutHead html).trans hmark)
  obtain ⟨g, rfl⟩ := hstyle.exists_relabel
  cases hothers
  have hbodyStays : body.isHeadOnly = false := by simp [isHeadOnly, hbodyTag]
  obtain ⟨node, hnode, htag⟩ := hinner.exists_kept_of_mem hbody hbodyMark hbodyStays
  refine ⟨(html.withoutHead.relabel g rules.linkCompiledScripts).withChildren inner.kept, ?_, ?_,
    node, hnode, htag.trans hbodyTag⟩
  · rw [Resolution.ofElement_of_stays _ (by simp [hstays])]
    rfl
  · rw [tag_withChildren, tag_relabel _ _ hstays, tag_withoutHead, hhtml]

theorem exists_settledPage (hf : ∀ code, rules.compileScript code = .ok (f code))
    (hff : ∀ code, f (f code) = f code)
    (hmarks : ∀ el ∈ nodesOf els, el.tag = "html" ∨ el.tag = "body" → el.isMarked = false)
    (hw : w.registry.WellFormed) (h : Returns (Document.ofForest rules els) w doc w') :
    ∃ p : SettledPage f rules.linkCompiledScripts, doc.elements = p.elements := by
  obtain ⟨headPart, before, page, after, w₁, w₂, w₃, _, rfl, hhead, hbefore, hpage, hafter, head,
    hheadEq, helements, -⟩ := returns_ofForest_iff.mp h
  have hhtml := Rooted.tag_html els
  have hmark : (Rooted.ofForest els).html.isMarked = false :=
    Rooted.isMarked_root fun el hel htag => hmarks el hel (.inl htag)
  have hw₁ := hhead.wellFormed hw
  have hw₂ := hbefore.wellFormed hw₁
  have hw₃ := hpage.wellFormed hw₂
  obtain ⟨root, hroot, hrootTag, hbody⟩ := hpage.exists_kept_root hhtml hmark
    fun el hel htag => hmarks el (Rooted.mem_nodes_of_root hel) (.inr htag)
  obtain ⟨hheadKept, hheadHoisted⟩ := hhead.settled_kept hw hf hff
  obtain ⟨hbeforeKept, hbeforeHoisted⟩ := hbefore.settled_kept hw₁ hf hff
  obtain ⟨hpageKept, hpageHoisted⟩ := hpage.settled_kept hw₂ hf hff
  obtain ⟨hafterKept, hafterHoisted⟩ := hafter.settled_kept hw₃ hf hff
  rw [hroot] at hpageKept
  have htags : ∀ el ∈ before.kept ++ after.kept, el.tag = "div" ∨
      ∃ source ∈ (Rooted.ofForest els).before ++ (Rooted.ofForest els).after,
        el.tag = source.tag := by
    intro el hel
    simp only [List.mem_append, or_and_right, exists_or]
    rcases List.mem_append.mp hel with hel | hel
    · exact (hbefore.tag_of_mem_kept hw₁ el hel).imp_right .inl
    · exact (hafter.tag_of_mem_kept hw₃ el hel).imp_right .inr
  let p : SettledPage f rules.linkCompiledScripts :=
    { before := before.kept
      html := root
      head
      after := after.kept
      tag_head := by
        rw [hheadEq, tag_withChildren]
        exact tag_headOrNew _
      tag_html := hrootTag
      exists_body := hbody
      tag_ne := by
        intro el hel
        rcases hbefore.tag_of_mem_kept hw₁ el hel with htag | ⟨source, hsource, htag⟩
        · simp [htag]
        · rw [htag]
          exact Rooted.tag_ne_of_mem_before els source hsource
      undeclared := by
        intro el hel
        rcases htags el hel with htag | ⟨source, hsource, htag⟩
        · rw [htag]
          decide
        · rw [htag]
          exact Rooted.tag_ne_doctype (Rooted.mem_undeclared_of_around hsource)
      settled := by
        rw [settled_append, settled_append]
        exact ⟨⟨hbeforeKept, hpageKept⟩, hafterKept⟩
      settled_head := by
        rw [hheadEq, children_withChildren]
        simp only [settled_append]
        exact ⟨hheadKept, ⟨⟨hheadHoisted, hbeforeHoisted⟩, hpageHoisted⟩, hafterHoisted⟩ }
  refine ⟨p, ?_⟩
  rw [helements, hmark, hroot]
  simp [SettledPage.elements, p]

/-- A page that is made into a page again only gets one more viewport, at the end of its head. -/
theorem Document.ofForest_again (hf : ∀ code, rules.compileScript code = .ok (f code))
    (hff : ∀ code, f (f code) = f code)
    (hmarks : ∀ el ∈ nodesOf els, el.tag = "html" ∨ el.tag = "body" → el.isMarked = false)
    (h : Returns (Document.ofForest rules els) {} doc w') :
    ∃ head again w'', pageHead? doc.elements = some head ∧ head.tag = "head" ∧
      Returns (Document.ofForest rules doc.elements) {} again w'' ∧
      again.elements = onRoot (fun root => root.withChildren
        (head.withChildren (head.children ++ [viewport]) :: root.children.tail)) doc.elements := by
  obtain ⟨p, hp⟩ := exists_settledPage hf hff hmarks Registry.WellFormed.nil h
  obtain ⟨again, w'', hagain, helements⟩ := p.returns_elements hf {}
  rw [hp]
  refine ⟨p.head, again, w'', p.pageHead?_elements, p.tag_head, hagain, ?_⟩
  rw [helements, p.elements_addViewport]

/-- A page of a card, its second use, a style sheet and a script that is linked as compiled. -/
theorem Document.ofForest_again_card :
    let use : Element := { tag := "card", attributes := [("@", none)] }
    let sheet : Element := { tag := "css", attributes := [("src", some "a.css")] }
    let script : Element := { tag := "script", attributes := [("src", some "\"/a.ts\"")] }
    let els := [use.withChildren [{ tag := "title" }], use, sheet, script]
    let rules : Rules := { compileScript := .ok, linkCompiledScripts := true }
    let link : Element :=
      { tag := "link", attributes := [("rel", some "\"stylesheet\""), ("href", some "a.css")] }
    let compiled : Element := { tag := "script", attributes := [("src", some "\"/a.js\"")] }
    let head : Element := { tag := "head", children := [viewport, { tag := "title" }, link] }
    let body : Element := { tag := "body", children := [{ tag := "div" }, compiled] }
    let page (head : Element) := [doctype, { tag := "html", children := [head, body] }]
    ∃ doc again w w', Returns (Document.ofForest rules els) {} doc w ∧ doc.elements = page head ∧
      Returns (Document.ofForest rules doc.elements) {} again w' ∧
      again.elements = page (head.withChildren (head.children ++ [viewport])) := by
  intro use sheet script els rules link compiled head body page
  have hf : ∀ code, rules.compileScript code = .ok (id code) := fun _ => rfl
  have hmarks : ∀ el ∈ nodesOf els, el.tag = "html" ∨ el.tag = "body" → el.isMarked = false := by
    decide
  have hfirst : Returns (Document.ofForest rules els) {} ⟨page head, ["\"/a.ts\""]⟩
      { registry := [("card", use.template.withChildren [{ tag := "title" }])] } := by
    rw [Returns]
    rfl
  obtain ⟨head', again, w', hhead, -, hagain, helements⟩ :=
    Document.ofForest_again hf (fun _ => rfl) hmarks hfirst
  obtain rfl : head' = head := (Option.some.inj hhead).symm
  exact ⟨_, again, _, w', hfirst, rfl, hagain, helements⟩

end again

end Pagewright
