import Pagewright.Proofs.Page.Passes
import Pagewright.Proofs.Page.Rewrite

/-! The layout of a forest: its root, the head of that, and what it lacks to be a page. -/
namespace Pagewright

namespace Element

section spec

variable (els : List Element)

/-- The first html element at the top of a forest. -/
def root? : Option Element := els.find? (·.tag = "html")

/-- What the root holds; without a root, the forest itself. -/
def rootContent : List Element := ((root? els).map (·.children)).getD els

/-- The content of the first head in a root. -/
def sourceHeadContent : List Element :=
  (((rootContent els).find? (·.tag = "head")).map (·.children)).getD []

/-- An element with a tag that no element of a forest has. -/
def missing (tag : String) : List Element :=
  match els.find? (·.tag = tag) with
  | some _ => []
  | none => [{ tag }]

/-- What a page needs and a forest does not hold. -/
def lacking : List Element :=
  missing els "html" ++ missing (rootContent els) "head" ++ missing (rootContent els) "body"

def headless : List Element := els.eraseP (·.tag = "head")

/-- A forest with another root. -/
def onRoot (g : Element → Element) : List Element → List Element
  | [] => []
  | el :: rest => if el.tag = "html" then g el :: rest else el :: onRoot g rest

/-- A forest without the head of its root. -/
def outsideHead : List Element :=
  match root? els with
  | some _ => onRoot (fun html => html.withChildren (headless html.children)) els
  | none => headless els

/-- The first child of the root of a page. -/
def pageHead? : Option Element := (root? els).bind (·.children.head?)

def outsidePageHead : List Element := onRoot (fun root => root.withChildren root.children.tail) els

end spec

theorem onRoot_append (g : Element → Element) {front back : List Element} {html : Element}
    (hfront : ∀ el ∈ front, el.tag ≠ "html") (hhtml : html.tag = "html") :
    onRoot g (front ++ html :: back) = front ++ g html :: back := by
  induction front with
  | nil => simp [onRoot, hhtml]
  | cons el rest ih =>
    rw [List.forall_mem_cons] at hfront
    rw [List.cons_append, onRoot, if_neg hfront.1, ih hfront.2, List.cons_append]

theorem root?_append {front back : List Element} {html : Element}
    (hfront : ∀ el ∈ front, el.tag ≠ "html") (hhtml : html.tag = "html") :
    root? (front ++ html :: back) = some html := by
  have hnone : front.find? (·.tag = "html") = none := by simpa using hfront
  simp [root?, List.find?_append, hnone, hhtml]

/-- Either the first head of a root stands among its children, or there is none. -/
theorem headOrNew_cases (html : Element) :
    (∃ front head back, html.children = front ++ head :: back ∧ head.tag = "head" ∧
      headless html.children = front ++ back ∧ html.headOrNew = head) ∨
    (headless html.children = html.children ∧ html.headOrNew = { tag := "head" } ∧
      html.children.find? (·.tag = "head") = none) := by
  cases hhead : html.children.find? (·.tag = "head") with
  | none =>
    refine .inr ⟨List.eraseP_of_forall_not (by simpa using hhead), ?_, rfl⟩
    rw [headOrNew, child?, hhead]
    rfl
  | some head =>
    obtain ⟨htag, front, back, hchildren, hfront⟩ := List.find?_eq_some_iff_append.mp hhead
    refine .inl ⟨front, head, back, hchildren, by simpa using htag, ?_, ?_⟩
    · have hnot : ∀ el ∈ front, ¬ decide (el.tag = "head") = true := by simpa using hfront
      rw [headless, hchildren, List.eraseP_append_right _ hnot]
      simp [of_decide_eq_true htag]
    · rw [headOrNew, child?, hhead]
      rfl

theorem children_withoutHead (html : Element) : html.withoutHead.children =
    if (headless html.children).any (·.tag == "body") then headless html.children
    else [{ tag := "body", children := headless html.children }] := by
  have hheadless : html.children.eraseP (·.tag == "head") = headless html.children := by
    simp [headless, beq_eq_decide]
  rw [withoutHead, hheadless]
  split <;> simp_all

/-- The children go into a new body if there is none. -/
theorem labels_children_withoutHead (html : Element) :
    (labels html.withoutHead.children).Perm
      (labels (headless html.children) ++ missing (headless html.children) "body") := by
  have hnew : label { tag := "body", children := headless html.children } = { tag := "body" } := rfl
  rw [children_withoutHead, missing]
  cases hbody : (headless html.children).find? (·.tag = "body") with
  | some body =>
    have hany : (headless html.children).any (·.tag == "body") = true :=
      List.any_eq_true.mpr ⟨body, List.mem_of_find?_eq_some hbody,
        by simpa using List.find?_some hbody⟩
    simp [hany]
  | none =>
    have hany : (headless html.children).any (·.tag == "body") = false := by simpa using hbody
    rw [hany, if_neg Bool.false_ne_true, labels_cons, hnew, labels_nil, List.append_nil]
    exact (List.perm_append_singleton ..).symm

theorem missing_body_headless (html : Element) :
    missing (headless html.children) "body" = missing html.children "body" := by
  rcases html.headOrNew_cases with ⟨front, head, back, hchildren, htag, hheadless, _⟩ |
    ⟨hheadless, _, _⟩
  · rw [hheadless, hchildren]
    simp [missing, htag]
  · rw [hheadless]

/-- A head is taken out of the children, or made where they have none. -/
theorem labels_headless (html : Element) :
    (labels html.children ++ missing html.children "head").Perm
      (labels (headless html.children) ++ labels [html.headOrNew]) := by
  classical
  rcases html.headOrNew_cases with ⟨front, head, back, hchildren, htag, hheadless, hnew⟩ |
    ⟨hheadless, hnew, hnone⟩
  · rw [hheadless, hnew, hchildren, List.perm_iff_count]
    intro a
    simp [missing, htag, List.count_cons]
    omega
  · have hlabel : label { tag := "head" } = { tag := "head" } := rfl
    rw [hheadless, hnew, missing, hnone]
    simp [hlabel]

/-- The root without its head, and the head, hold what the root held and what it lacked. -/
theorem labels_withoutHead (html : Element) :
    (labels [html.withoutHead, html.headOrNew]).Perm
      (labels [html] ++ (missing html.children "head" ++ missing html.children "body")) := by
  classical
  have hlabel : html.withoutHead.label = html.label := by
    rw [withoutHead]
    split <;> rfl
  have hbody := html.labels_children_withoutHead
  have hhead := html.labels_headless
  rw [missing_body_headless] at hbody
  rw [List.perm_iff_count] at hbody hhead ⊢
  intro a
  have hbody := hbody a
  have hhead := hhead a
  simp only [labels_cons, labels_nil, hlabel, List.append_nil, List.count_append, List.count_cons]
    at hbody hhead ⊢
  omega

theorem mem_lacking {els : List Element} {el : Element} (h : el ∈ lacking els) :
    ∃ tag, (tag = "html" ∨ tag = "head" ∨ tag = "body") ∧ el = { tag } := by
  have hmissing : ∀ content tag, el ∈ missing content tag → el = { tag } := by
    intro content tag hel
    rw [missing] at hel
    split at hel
    · cases hel
    · exact List.mem_singleton.mp hel
  rw [lacking, List.mem_append, List.mem_append] at h
  rcases h with (h | h) | h
  · exact ⟨"html", by simp, hmissing _ _ h⟩
  · exact ⟨"head", by simp, hmissing _ _ h⟩
  · exact ⟨"body", by simp, hmissing _ _ h⟩

theorem hoistedFrom_withoutHead (f : String → String) (link : Bool) {html : Element}
    (hhtml : html.tag = "html") : hoistedFrom f link false [html.withoutHead] =
      hoistedFrom f link false (headless html.children) := by
  rw [hoistedFrom_cons, isHeadOnly_withoutHead hhtml, children_withoutHead]
  split
  · simp
  · have hbody : isHeadOnly { tag := "body", children := headless html.children } = false := rfl
    simp [hoistedFrom_cons, hbody]

end Element

namespace Rooted

open Element

theorem root?_cases (els : List Element) :
    (∃ before html after, ofForest els = ⟨before, html, after⟩ ∧
      undeclared els = before ++ html :: after ∧ html.tag = "html" ∧
      (∀ el ∈ before, el.tag ≠ "html") ∧ root? (undeclared els) = some html) ∨
    (ofForest els = ⟨[], { tag := "html", children := undeclared els }, []⟩ ∧
      root? (undeclared els) = none) := by
  rcases ofForest_cases els with ⟨before, html, after, heq, hels, hhtml, hbefore⟩ | ⟨heq, hnone⟩
  · exact .inl ⟨before, html, after, heq, hels, hhtml, hbefore,
      hels ▸ root?_append hbefore hhtml⟩
  · exact .inr ⟨heq, by simpa [root?] using hnone⟩

theorem labels_page (els : List Element) :
    (labels ((ofForest els).page ++ [(ofForest els).html.headOrNew])).Perm
      (labels (undeclared els) ++ lacking (undeclared els)) := by
  classical
  have hroot := labels_withoutHead (ofForest els).html
  rw [List.perm_iff_count] at hroot ⊢
  intro a
  have hroot := hroot a
  rcases root?_cases els with ⟨before, html, after, heq, hels, _, _, hroot?⟩ | ⟨heq, hroot?⟩
  · have hmissing : missing (undeclared els) "html" = [] := by rw [missing, ← root?, hroot?]
    rw [lacking, hmissing, rootContent, hroot?, hels]
    rw [heq] at hroot ⊢
    simp only [page, labels_append, labels_cons, labels_nil, List.count_append, List.count_cons,
      List.count_nil, Option.map_some, Option.getD_some] at hroot ⊢
    omega
  · have hmissing : missing (undeclared els) "html" = [{ tag := "html" }] := by
      rw [missing, ← root?, hroot?]
    have hlabel : label { tag := "html", children := undeclared els } = { tag := "html" } := rfl
    rw [lacking, hmissing, rootContent, hroot?]
    rw [heq] at hroot ⊢
    simp only [page, labels_append, labels_cons, labels_nil, hlabel, List.count_append,
      List.count_cons, List.count_nil, Option.map_none, Option.getD_none] at hroot ⊢
    omega

theorem hoistedFrom_page (f : String → String) (link : Bool) (els : List Element) :
    hoistedFrom f link false (ofForest els).page =
      hoistedFrom f link false (outsideHead (undeclared els)) := by
  rw [page, hoistedFrom_append, hoistedFrom_append, hoistedFrom_withoutHead f link (tag_html els)]
  rcases root?_cases els with ⟨before, html, after, heq, hels, hhtml, hbefore, hroot?⟩ |
    ⟨heq, hroot?⟩
  · have hkept : html.isHeadOnly = false := by simp [isHeadOnly, hhtml]
    rw [outsideHead, hroot?, hels, onRoot_append _ hbefore hhtml, heq]
    simp [hoistedFrom_cons, hkept]
  · rw [outsideHead, hroot?, heq]
    simp

theorem children_headOrNew (els : List Element) :
    (ofForest els).html.headOrNew.children = sourceHeadContent (undeclared els) := by
  have hcontent : (ofForest els).html.children = rootContent (undeclared els) := by
    rcases root?_cases els with ⟨_, _, _, heq, _, _, _, hroot?⟩ | ⟨heq, hroot?⟩
    all_goals
      rw [heq, rootContent, hroot?]
      rfl
  rw [sourceHeadContent, ← hcontent, headOrNew, child?]
  cases (ofForest els).html.children.find? (·.tag = "head") <;> rfl

theorem unmarked_undeclared {els : List Element} (h : Unmarked els) :
    Unmarked (undeclared els) := by
  induction els with
  | nil => exact h
  | cons el rest ih =>
    obtain ⟨hmark, hchildren, hrest⟩ := (unmarked_cons ..).mp h
    rw [undeclared, List.filter_cons]
    split
    · exact (unmarked_cons ..).mpr ⟨hmark, hchildren, ih hrest⟩
    · exact ih hrest

theorem unmarked_page {els : List Element} (h : Unmarked els) :
    Unmarked ((ofForest els).page ++ [(ofForest els).html.headOrNew]) := by
  apply unmarked_of_labels
  intro el hel
  rcases List.mem_append.mp ((labels_page els).subset hel) with hel | hel
  · obtain ⟨node, hnode, rfl⟩ := List.mem_map.mp hel
    exact unmarked_undeclared h node hnode
  · obtain ⟨tag, _, rfl⟩ := mem_lacking hel
    rfl

theorem map_relabel_lacking (f : String → String) (link : Bool) (els : List Element) :
    (lacking els).map (relabel f link) = lacking els := by
  have hself : ∀ el ∈ lacking els, el.relabel f link = el := by
    intro el hel
    obtain ⟨tag, htag, rfl⟩ := mem_lacking hel
    rcases htag with rfl | rfl | rfl
    all_goals exact relabel_eq_self f link rfl (by decide)
  rw [List.map_congr_left hself, List.map_id']

end Rooted

end Pagewright
