import Mathlib.Data.List.Perm.Basic
import Pagewright.Proofs.Page.Resolves

/-! A forest without components resolves to its nodes rewritten, each of them once. -/
namespace Pagewright

namespace Element

section nodesUp

mutual

def nodesUp : Element → List Element
  | el@(.mk _ _ _ _ _ children _) => nodesUpOf children ++ [el]

/-- Every node comes after the nodes below it. -/
def nodesUpOf : List Element → List Element
  | [] => []
  | el :: rest => el.nodesUp ++ nodesUpOf rest

end

@[simp] theorem nodesUpOf_nil : nodesUpOf [] = [] := by rw [nodesUpOf]

@[simp] theorem nodesUpOf_cons (el : Element) (rest : List Element) :
    nodesUpOf (el :: rest) = nodesUpOf el.children ++ el :: nodesUpOf rest := by
  have hel : el.nodesUp = nodesUpOf el.children ++ [el] := by
    cases el
    rw [nodesUp]
  rw [nodesUpOf, hel, List.append_assoc, List.singleton_append]

@[simp] theorem nodesUpOf_append (front back : List Element) :
    nodesUpOf (front ++ back) = nodesUpOf front ++ nodesUpOf back := by
  induction front with
  | nil => simp
  | cons el rest ih => simp [ih]

end nodesUp

section labels

/-- What is written on each node of a forest. -/
def labels (els : List Element) : List Element := (nodesOf els).map label

@[simp] theorem labels_nil : labels [] = [] := by simp [labels]

@[simp] theorem labels_cons (el : Element) (rest : List Element) :
    labels (el :: rest) = el.label :: (labels el.children ++ labels rest) := by
  simp [labels]

@[simp] theorem labels_append (front back : List Element) :
    labels (front ++ back) = labels front ++ labels back := by
  simp [labels]

theorem unmarked_of_labels {els : List Element} (h : ∀ el ∈ labels els, el.isMarked = false) :
    Unmarked els := by
  intro node hnode
  exact h node.label (List.mem_map_of_mem hnode)

end labels

section rewrite

variable (f : String → String) (link inHead : Bool)

mutual

/-- A node with all below it as it stands on the page. -/
def rewrite : Element → Element
  | el@(.mk _ _ _ _ _ children _) => (el.relabel f link).withChildren (rewriteIn children)

/-- Out of the head, head-only nodes leave their places. -/
def rewriteIn : List Element → List Element
  | [] => []
  | el :: rest => if !inHead && el.isHeadOnly then rewriteIn rest else el.rewrite :: rewriteIn rest

end

/-- The nodes that leave their places, a nested one before the one that holds it. -/
def hoistedFrom (els : List Element) : List Element :=
  ((nodesUpOf els).filter fun el => !inHead && el.isHeadOnly).map (rewrite f link inHead)

theorem rewrite_eq (el : Element) : el.rewrite f link inHead =
    (el.relabel f link).withChildren (rewriteIn f link inHead el.children) := by
  cases el
  rw [rewrite]

@[simp] theorem label_rewrite (el : Element) :
    (el.rewrite f link inHead).label = (el.relabel f link).label := by
  rw [rewrite_eq]
  rfl

@[simp] theorem children_rewrite (el : Element) :
    (el.rewrite f link inHead).children = rewriteIn f link inHead el.children := by
  rw [rewrite_eq]
  rfl

@[simp] theorem isHeadOnly_rewrite (el : Element) :
    (el.rewrite f link inHead).isHeadOnly = el.isHeadOnly := by
  rw [rewrite_eq, isHeadOnly_withChildren, isHeadOnly_relabel]

@[simp] theorem rewriteIn_nil : rewriteIn f link inHead [] = [] := by rw [rewriteIn]

theorem rewriteIn_cons (el : Element) (rest : List Element) :
    rewriteIn f link inHead (el :: rest) = if !inHead && el.isHeadOnly
      then rewriteIn f link inHead rest
      else el.rewrite f link inHead :: rewriteIn f link inHead rest := by
  rw [rewriteIn]

@[simp] theorem rewriteIn_append (front back : List Element) :
    rewriteIn f link inHead (front ++ back) =
      rewriteIn f link inHead front ++ rewriteIn f link inHead back := by
  induction front with
  | nil => simp
  | cons el rest ih =>
    rw [List.cons_append, rewriteIn_cons, rewriteIn_cons, ih]
    split <;> rfl

@[simp] theorem hoistedFrom_nil : hoistedFrom f link inHead [] = [] := by simp [hoistedFrom]

theorem hoistedFrom_cons (el : Element) (rest : List Element) :
    hoistedFrom f link inHead (el :: rest) = hoistedFrom f link inHead el.children ++
      ((if !inHead && el.isHeadOnly then [el.rewrite f link inHead] else []) ++
        hoistedFrom f link inHead rest) := by
  simp only [hoistedFrom, nodesUpOf_cons, List.filter_append, List.filter_cons, List.map_append]
  split <;> simp

@[simp] theorem hoistedFrom_append (front back : List Element) :
    hoistedFrom f link inHead (front ++ back) =
      hoistedFrom f link inHead front ++ hoistedFrom f link inHead back := by
  simp [hoistedFrom]

@[simp] theorem hoistedFrom_head (els : List Element) : hoistedFrom f link true els = [] := by
  simp [hoistedFrom]

theorem mem_rewriteIn {els : List Element} {node : Element}
    (h : node ∈ rewriteIn f link false els) :
    ∃ el ∈ els, el.isHeadOnly = false ∧ node = el.rewrite f link false := by
  induction els with
  | nil => simp at h
  | cons el rest ih =>
    rw [rewriteIn_cons] at h
    split at h
    next =>
      obtain ⟨found, hmem, hkept, hnode⟩ := ih h
      exact ⟨found, List.mem_cons_of_mem _ hmem, hkept, hnode⟩
    next hkept =>
      rcases List.mem_cons.mp h with rfl | h
      · exact ⟨el, List.mem_cons_self, by simpa using hkept, rfl⟩
      · obtain ⟨found, hmem, hkept, hnode⟩ := ih h
        exact ⟨found, List.mem_cons_of_mem _ hmem, hkept, hnode⟩

/-- What is left in the body may stand there. -/
theorem not_isHeadOnly_of_mem (els : List Element) :
    ∀ node ∈ nodesOf (rewriteIn f link false els), node.isHeadOnly = false := by
  induction els using forest_induction with
  | nil => simp
  | cons el rest hchildren hrest =>
    intro node hnode
    rw [rewriteIn_cons] at hnode
    split at hnode
    next => exact hrest node hnode
    next hkept =>
      rw [nodesOf_cons, List.mem_cons, List.mem_append, children_rewrite] at hnode
      rcases hnode with rfl | hnode | hnode
      · simpa using hkept
      · exact hchildren node hnode
      · exact hrest node hnode

/-- No label is lost or doubled, and each is rewritten once. -/
theorem labels_perm (els : List Element) :
    (labels (rewriteIn f link inHead els ++ hoistedFrom f link inHead els)).Perm
      ((labels els).map (relabel f link)) := by
  classical
  induction els using forest_induction with
  | nil => simp
  | cons el rest hchildren hrest =>
    rw [List.perm_iff_count] at hchildren hrest ⊢
    intro a
    have hchildren := hchildren a
    have hrest := hrest a
    rw [rewriteIn_cons, hoistedFrom_cons]
    split
    all_goals
      simp only [labels_append, labels_cons, labels_nil, List.map_append, List.map_cons,
        List.count_append, List.count_cons, List.count_nil, children_rewrite, label_rewrite,
        relabel_label] at hchildren hrest ⊢
      omega

end rewrite

end Element

/-- What a forest without components resolves to. -/
def Resolution.ofUnmarked (f : String → String) (link inHead : Bool) (els : List Element) :
    Resolution where
  kept := Element.rewriteIn f link inHead els
  hoisted := Element.hoistedFrom f link inHead els
  scriptSources := (Element.nodesOf els).flatMap Element.linkedScripts

theorem Resolution.ofUnmarked_cons (f : String → String) (link inHead : Bool) (el : Element)
    (rest : List Element) : ofUnmarked f link inHead (el :: rest) =
      ofElement inHead (el.relabel f link) el.linkedScripts
          (ofUnmarked f link inHead el.children) ++
        ofUnmarked f link inHead rest := by
  rw [ofUnmarked, Element.rewriteIn_cons, Element.hoistedFrom_cons, ofElement]
  simp only [Element.isHeadOnly_withChildren, Element.isHeadOnly_relabel]
  have hrewrite := Element.rewrite_eq f link inHead el
  split
  all_goals
    ext1
    all_goals simp [ofUnmarked, hrewrite]

/-- Without components, resolving only fails where the script compiler does. -/
theorem resolves_of_unmarked {rules : Rules} {f : String → String}
    (hf : ∀ code, rules.compileScript code = .ok (f code)) (inHead : Bool) {els : List Element}
    (hels : Element.Unmarked els) (w : Workshop) : ∃ n, Resolves rules inHead w els
      (.ofUnmarked f rules.linkCompiledScripts inHead els)
      { w with compiled := w.compiled + n } := by
  induction els using Element.forest_induction generalizing w with
  | nil =>
    refine ⟨0, ?_⟩
    have hnil : Resolution.ofUnmarked f rules.linkCompiledScripts inHead [] = {} := by
      simp [Resolution.ofUnmarked]
    rw [hnil]
    exact .nil w
  | cons el rest hchildren hrest =>
    obtain ⟨hmark, hunmarked, hunmarked'⟩ := (Element.unmarked_cons ..).mp hels
    obtain ⟨n₁, hstyle⟩ := Returns.restyle_of_total hf el w
    obtain ⟨n₂, hinner⟩ := hchildren hunmarked { w with compiled := w.compiled + n₁ }
    obtain ⟨n₃, hothers⟩ := hrest hunmarked' { w with compiled := w.compiled + n₁ + n₂ }
    refine ⟨n₁ + n₂ + n₃, ?_⟩
    rw [Resolution.ofUnmarked_cons, ← Nat.add_assoc, ← Nat.add_assoc]
    exact .plain hmark hstyle hinner hothers

end Pagewright
