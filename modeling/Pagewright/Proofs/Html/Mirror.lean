import Mathlib.Data.List.Forall2
import Pagewright.Proofs.Html.Tags
import Pagewright.Proofs.Outline.Nodes

/-! A page mirrors its forest. Its tags are a walk through the forest, each element opens on a line
of its own at its depth, and only its text stands between its opening tag and the next tag. -/
namespace Pagewright

namespace Element

/-- What is written of an element as it is holds no brackets and no line ends, and its opening tag
cannot be taken for a closing one. -/
structure Plain (el : Element) : Prop where
  tag : Inert el.tag.toList
  named : el.tag.toList ≠ []
  opens : el.tag.toList.head? ≠ some '/'
  attributes : ∀ pair ∈ el.attributes, Inert pair.1.toList ∧ ∀ v ∈ pair.2, Inert v.toList
  id : ∀ id ∈ el.id, Inert id.toList
  classes : ∀ name ∈ el.classes, Inert name.toList
  raw : el.isRaw = true → ∀ text ∈ el.text, Inert text.toList

mutual

def walk : Element → List (List Char)
  | el@(.mk _ _ _ _ _ children _) =>
    el.openTag :: walkOf children ++
      if el.void = true ∧ el.text? = none ∧ children = [] then [] else [el.closeTag]

/-- The tags of a forest: each element opens, then comes what it holds, and then it is closed, unless
it is void and holds nothing. -/
def walkOf : List Element → List (List Char)
  | [] => []
  | el :: rest => walk el ++ walkOf rest

end

/-- The texts of a forest that are rendered, in document order. -/
def renderedTexts (els : List Element) : List String :=
  (nodesOf els).filterMap fun el => if el.isRaw then none else el.text?

/-- What nodes show of their texts where these are the answers to the rendered ones. -/
inductive Shows : List Element → List String → List (List Char) → Prop where
  | nil : Shows [] [] []
  | bare {el els answers contents} (htext : el.text? = none) (rest : Shows els answers contents) :
      Shows (el :: els) answers ([] :: contents)
  | raw {el els answers contents text} (htext : el.text? = some text) (hraw : el.isRaw = true)
      (rest : Shows els answers contents) : Shows (el :: els) answers (text.toList :: contents)
  | rendered {el els answers contents text html} (htext : el.text? = some text)
      (hraw : el.isRaw = false) (rest : Shows els answers contents) :
      Shows (el :: els) (html :: answers) (html.toList :: contents)

end Element

open Element

/-- The tag does not close an element. -/
def Tag.Opens (tag : Tag) : Bool := !(['<', '/'].isPrefixOf tag.text)

/-- Apart from layout, only this stands between a tag and the next. -/
def Tag.Holds (tag : Tag) (content : List Char) : Prop :=
  ∃ above below, IsLayout above ∧ IsLayout below ∧ tag.gap = above ++ content ++ below

/-- Tags that mirror a forest whose roots have this depth. -/
structure Mirrors (depth : Nat) (els : List Element) (answers : List String) (tags : List Tag) :
    Prop where
  walk : tags.map Tag.text = walkOf els
  depths : List.Forall₂
    (fun tag node => tag.text = node.2.openTag ∧ tag.indent = List.replicate node.1 '\t')
    (tags.filter Tag.Opens) (nodesFrom depth els)
  contents : ∃ contents, Shows (nodesOf els) answers contents ∧
    List.Forall₂ Tag.Holds (tags.filter Tag.Opens) contents

section element

variable {el : Element}

theorem Element.walkOf_cons (el : Element) (rest : List Element) : walkOf (el :: rest) =
    el.openTag :: walkOf el.children ++
      (if el.void = true ∧ el.text? = none ∧ el.children = [] then [] else [el.closeTag]) ++
      walkOf rest := by
  cases el
  rw [walkOf, Element.walk]

theorem Element.renderedTexts_cons (el : Element) (rest : List Element) :
    renderedTexts (el :: rest) = (if el.isRaw then none else el.text?).toList ++
      renderedTexts el.children ++ renderedTexts rest := by
  unfold renderedTexts
  rw [nodesOf_cons, List.filterMap_cons, List.filterMap_append]
  cases if el.isRaw then none else el.text? <;> rfl

theorem Element.Shows.append {els els' : List Element} {answers answers' : List String}
    {contents contents' : List (List Char)} (h : Shows els answers contents)
    (h' : Shows els' answers' contents') :
    Shows (els ++ els') (answers ++ answers') (contents ++ contents') := by
  induction h with
  | nil => exact h'
  | bare htext _ ih => exact .bare htext ih
  | raw htext hraw _ ih => exact .raw htext hraw ih
  | rendered htext hraw _ ih => exact .rendered htext hraw ih

theorem Element.needsCloseTag_eq_false : el.needsCloseTag = false ↔
    el.void = true ∧ el.text? = none ∧ el.children = [] := by
  unfold needsCloseTag
  rw [Bool.or_eq_false_iff, Bool.or_eq_false_iff, Option.isSome_eq_false_iff,
    Option.isNone_iff_eq_none, Bool.not_eq_false', Bool.not_eq_false', List.isEmpty_iff]
  tauto

theorem Element.Plain.isTag_closeTag (h : el.Plain) : IsTag el.closeTag :=
  ⟨'/' :: el.tag.toList, inert_cons.mpr ⟨by decide, h.tag⟩, rfl⟩

theorem inert_print {attrs : Attributes}
    (h : ∀ pair ∈ attrs, Inert pair.1.toList ∧ ∀ v ∈ pair.2, Inert v.toList) :
    Inert attrs.print := by
  refine inert_joinWith (by decide) ?_
  rw [List.forall_mem_map]
  rintro ⟨key, value⟩ hpair
  obtain ⟨hkey, hvalue⟩ := h _ hpair
  cases value with
  | none => exact hkey
  | some v =>
    have hv := hvalue v rfl
    dsimp only
    split
    · exact hkey
    · exact inert_append.mpr ⟨hkey, inert_cons.mpr ⟨by decide, hv⟩⟩

theorem inert_ite {b : Bool} {cs : List Char} (h : Inert cs) : Inert (if b then [] else cs) := by
  split
  · exact inert_nil
  · exact h

theorem Element.Plain.isTag_openTag (h : el.Plain) : IsTag el.openTag := by
  have hid : Inert " id=\"".toList := by decide
  have hclass : Inert " class=\"".toList := by decide
  have hquote : Inert ['"'] := by decide
  have hnames : Inert (Text.joinWith ' ' (el.classes.map String.toList)) :=
    inert_joinWith (by decide) (List.forall_mem_map.mpr h.classes)
  unfold Element.openTag
  refine ⟨_, ?_, rfl⟩
  refine inert_append.mpr ⟨inert_append.mpr ⟨inert_append.mpr ⟨h.tag, ?_⟩, ?_⟩, ?_⟩
  · exact inert_ite (inert_cons.mpr ⟨by decide, inert_print h.attributes⟩)
  · split
    next => exact inert_nil
    next id hsome =>
      exact inert_ite (inert_append.mpr ⟨inert_append.mpr ⟨hid, h.id id hsome⟩, hquote⟩)
  · exact inert_ite (inert_append.mpr ⟨inert_append.mpr ⟨hclass, hnames⟩, hquote⟩)

theorem Tag.opens_of_openTag {tag : Tag} (h : el.Plain) (htag : tag.text = el.openTag) :
    tag.Opens = true := by
  obtain ⟨c, rest, hname⟩ := List.exists_cons_of_ne_nil h.named
  have hc : c ≠ '/' := by simpa [hname] using h.opens
  have hsecond : tag.Opens = !('/' == c) := by
    unfold Tag.Opens
    rw [htag, Element.openTag, hname]
    change (!('<' == '<' && ('/' == c && true))) = !('/' == c)
    rw [beq_self_eq_true, Bool.true_and, Bool.and_true]
  rw [hsecond, beq_false_of_ne (Ne.symm hc), Bool.not_false]

theorem Tag.opens_of_closeTag {tag : Tag} (htag : tag.text = el.closeTag) :
    tag.Opens = false := by
  unfold Tag.Opens
  rw [htag, Element.closeTag]
  simp

end element

section mirrors

variable {el : Element} {children rest : List Element} {own below others : List String}
  {content : List Char} {depth : Nat}

theorem mirrors_nil (depth : Nat) : Mirrors depth [] [] [] where
  walk := by rw [walkOf, List.map_nil]
  depths := by rw [nodesFrom_nil]; exact .nil
  contents := ⟨[], by rw [nodesOf_nil]; exact .nil, .nil⟩

/-- An opening tag at its depth, the tags of what the element holds, its closing tag, and the tags of
the elements after it. -/
theorem Mirrors.cons {tag : Tag} {tags closing tags' : List Tag} (h : el.Plain)
    (htext : tag.text = el.openTag) (hindent : tag.indent = List.replicate depth '\t')
    (hshows : Shows [el] own [content]) (hholds : tag.Holds content)
    (hclosing : closing.map Tag.text = if el.needsCloseTag then [el.closeTag] else [])
    (hbelow : Mirrors (depth + 1) el.children below tags)
    (hrest : Mirrors depth rest others tags') :
    Mirrors depth (el :: rest) (own ++ below ++ others) (tag :: tags ++ closing ++ tags') := by
  have hnone : closing.filter Tag.Opens = [] := by
    rw [List.filter_eq_nil_iff]
    intro tag htag
    have hmem : tag.text ∈ closing.map Tag.text := List.mem_map_of_mem htag
    rw [hclosing] at hmem
    have hclose : tag.text = el.closeTag := by
      split at hmem
      · exact List.mem_singleton.mp hmem
      · cases hmem
    rw [Tag.opens_of_closeTag hclose]
    exact Bool.false_ne_true
  have hopens : (tag :: tags ++ closing ++ tags').filter Tag.Opens =
      tag :: (tags.filter Tag.Opens ++ tags'.filter Tag.Opens) := by
    rw [List.filter_append, List.filter_append, hnone, List.append_nil,
      List.filter_cons_of_pos (Tag.opens_of_openTag h htext), List.cons_append]
  obtain ⟨contents, hcontents, hgaps⟩ := hbelow.contents
  obtain ⟨contents', hcontents', hgaps'⟩ := hrest.contents
  refine ⟨?_, ?_, content :: (contents ++ contents'), ?_, ?_⟩
  · have hcloses : closing.map Tag.text =
        if el.void = true ∧ el.text? = none ∧ el.children = [] then [] else [el.closeTag] := by
      rw [hclosing]
      cases hclose : el.needsCloseTag with
      | false => rw [if_neg Bool.false_ne_true, if_pos (needsCloseTag_eq_false.mp hclose)]
      | true =>
        rw [if_pos rfl, if_neg]
        intro hbare
        rw [needsCloseTag_eq_false.mpr hbare] at hclose
        cases hclose
    rw [walkOf_cons, List.map_append, List.map_append, List.map_cons, hcloses, htext, hbelow.walk,
      hrest.walk]
  · rw [hopens, nodesFrom_cons]
    exact .cons ⟨htext, hindent⟩ (List.rel_append hbelow.depths hrest.depths)
  · rw [nodesOf_cons, List.append_assoc]
    exact hshows.append (hcontents.append hcontents')
  · rw [hopens]
    exact .cons hholds (List.rel_append hgaps hgaps')

/-- Lines that mirror a forest, however far to the right and whatever is below them. -/
def LinesMirror (els : List Element) (answers : List String) (lines : List (List Char)) : Prop :=
  ∀ depth line rest, IsLayout (untilTag rest) →
    IsLayout (untilTag (hang depth (lines.flatMap ('\n' :: ·)) ++ rest)) ∧
    ∃ tags line', Mirrors depth els answers tags ∧
      tagsFrom line (hang depth (lines.flatMap ('\n' :: ·)) ++ rest) = tags ++ tagsFrom line' rest

theorem linesMirror_nil : LinesMirror [] [] [] := by
  intro depth line rest hrest
  exact ⟨hrest, [], line, mirrors_nil depth, rfl⟩

/-- Behind what an element holds its closing tag stands in a line of its own. -/
def Element.ending (el : Element) (depth : Nat) : List Char :=
  (if el.children.isEmpty then [] else '\n' :: List.replicate depth '\t') ++
    if el.needsCloseTag then el.closeTag else []

theorem newline_cons_unlines (first : List Char) (others : List (List Char)) :
    '\n' :: Text.unlines (first :: others) = (first :: others).flatMap ('\n' :: ·) := by
  have hjoin := Text.joinWith_middle '\n' [] others first
  rw [List.flatMap_nil, List.nil_append] at hjoin
  rw [Text.unlines, hjoin, List.flatMap_cons]
  rfl

theorem hang_printed (h : el.Plain) (text : List Char) {lines : List (List Char)}
    (hlines : lines = [] ↔ el.children = []) (depth : Nat) :
    hang depth ('\n' :: (el.openTag ++ text ++
      (if el.children.isEmpty then [] else '\n' :: indentLines (Text.unlines lines) ++ ['\n']) ++
      if el.needsCloseTag then el.closeTag else [])) =
    '\n' :: List.replicate depth '\t' ++ (el.openTag ++ (hang depth text ++
      (hang (depth + 1) (lines.flatMap ('\n' :: ·)) ++ el.ending depth))) := by
  have hopen : hang depth el.openTag = el.openTag := hang_eq_self depth h.isTag_openTag.newline_notMem
  have hclose : hang depth (if el.needsCloseTag then el.closeTag else []) =
      if el.needsCloseTag then el.closeTag else [] := by
    split
    · exact hang_eq_self depth h.isTag_closeTag.newline_notMem
    · rfl
  have hbody : hang depth (if el.children.isEmpty then []
      else '\n' :: indentLines (Text.unlines lines) ++ ['\n']) =
      hang (depth + 1) (lines.flatMap ('\n' :: ·)) ++
        if el.children.isEmpty then [] else '\n' :: List.replicate depth '\t' := by
    cases lines with
    | nil => rw [hlines.mp rfl]; rfl
    | cons first others =>
      have hne : el.children ≠ [] := fun hnil => List.cons_ne_nil _ _ (hlines.mpr hnil)
      have hmoved : '\n' :: indentLines (Text.unlines (first :: others)) =
          hang 1 ((first :: others).flatMap ('\n' :: ·)) := by
        rw [← newline_cons_unlines, hang_cons]
        rfl
      have hend : hang depth ['\n'] = '\n' :: List.replicate depth '\t' := by
        simp [hang_cons]
      rw [List.isEmpty_eq_false_iff.mpr hne, if_neg Bool.false_ne_true, if_neg Bool.false_ne_true,
        hmoved, hang_append, hang_hang, hend, Nat.add_comm]
  rw [hang_cons, if_pos rfl, hang_append, hang_append, hang_append, hopen, hclose, hbody, ending]
  simp only [List.append_assoc]

/-- Behind what an element holds, only its closing tag comes before what follows. -/
theorem exists_closing (h : el.Plain) (depth : Nat) (line rest : List Char)
    (hrest : IsLayout (untilTag rest)) :
    IsLayout (untilTag (el.ending depth ++ rest)) ∧ ∃ closing line',
      closing.map Tag.text = (if el.needsCloseTag then [el.closeTag] else []) ∧
      tagsFrom line (el.ending depth ++ rest) = closing ++ tagsFrom line' rest := by
  have hlayout : IsLayout
      (if el.children.isEmpty then [] else '\n' :: List.replicate depth '\t') := by
    split
    · exact isLayout_nil
    · exact isLayout_newline depth
  rw [ending, List.append_assoc, untilTag_append hlayout.open_notMem,
    tagsFrom_append hlayout.open_notMem]
  cases el.needsCloseTag with
  | true =>
    rw [if_pos rfl, untilTag_tag h.isTag_closeTag, tagsFrom_tag h.isTag_closeTag, List.append_nil]
    exact ⟨hlayout, [_], _, rfl, rfl⟩
  | false => exact ⟨isLayout_append.mpr ⟨hlayout, hrest⟩, [], _, rfl, rfl⟩

/-- The print of an element, above that of the elements after it. -/
theorem LinesMirror.cons {above under : List Char} {lines lines' : List (List Char)}
    (h : el.Plain) (habove : IsLayout above) (hunder : IsLayout under) (hcontent : Inert content)
    (hshows : Shows [el] own [content]) (hlines : lines = [] ↔ el.children = [])
    (hbelow : LinesMirror el.children below lines) (hothers : LinesMirror rest others lines') :
    LinesMirror (el :: rest) (own ++ below ++ others)
      ((el.openTag ++ (above ++ content ++ under) ++
        (if el.children.isEmpty then []
          else '\n' :: indentLines (Text.unlines lines) ++ ['\n']) ++
        if el.needsCloseTag then el.closeTag else []) :: lines') := by
  intro depth line following hfollowing
  have hgap : hang depth (above ++ content ++ under) =
      hang depth above ++ content ++ hang depth under := by
    rw [hang_append, hang_append, hang_eq_self depth hcontent.newline_notMem]
  have hplain : '<' ∉ hang depth (above ++ content ++ under) := by
    rw [hgap]
    simp [(habove.hang depth).open_notMem, hcontent.open_notMem, (hunder.hang depth).open_notMem]
  -- Each gap depends on what comes after it, so these are read from the end.
  obtain ⟨hlast, -⟩ := hothers depth [] following hfollowing
  obtain ⟨hending, -⟩ := exists_closing h depth [] _ hlast
  obtain ⟨hinner, -⟩ := hbelow (depth + 1) [] _ hending
  -- Each line depends on what comes before it.
  obtain ⟨-, tags, line₁, hmirrors, htags⟩ := hbelow (depth + 1) (lineBehind (lineBehind
    (List.replicate depth '\t') el.openTag) (hang depth (above ++ content ++ under))) _ hending
  obtain ⟨-, closing, line₂, hclosing, hclosed⟩ := exists_closing h depth line₁ _ hlast
  obtain ⟨-, tags', line₃, hmirrors', htags'⟩ := hothers depth line₂ following hfollowing
  have hpage (line : List Char) : hang depth (('\n' :: line) ++ lines'.flatMap ('\n' :: ·)) ++
      following = hang depth ('\n' :: line) ++
        (hang depth (lines'.flatMap ('\n' :: ·)) ++ following) := by
    rw [hang_append, List.append_assoc]
  rw [List.flatMap_cons, hpage, hang_printed h _ hlines, List.append_assoc,
    List.append_assoc el.openTag, List.append_assoc (hang depth _),
    List.append_assoc (hang (depth + 1) _)]
  rw [untilTag_append (isLayout_newline depth).open_notMem, untilTag_tag h.isTag_openTag,
    tagsFrom_newline, tagsFrom_tag h.isTag_openTag, untilTag_append hplain, tagsFrom_append hplain,
    htags, hclosed, htags']
  have hjoined (tag : Tag) : tag :: (tags ++ (closing ++ (tags' ++ tagsFrom line₃ following))) =
      (tag :: tags ++ closing ++ tags') ++ tagsFrom line₃ following := by
    simp only [List.append_assoc, List.cons_append]
  refine ⟨?_, _, line₃, ?_, hjoined _⟩
  · rw [List.append_nil]
    exact isLayout_newline depth
  · refine .cons h rfl rfl hshows ?_ hclosing hmirrors hmirrors'
    refine ⟨hang depth above, hang depth under ++ _, habove.hang depth,
      isLayout_append.mpr ⟨hunder.hang depth, hinner⟩, ?_⟩
    dsimp only
    rw [hgap, List.append_assoc]

end mirrors

section run

variable {σ : Type} (render : String → StateM σ String) {el : Element}

theorem run_mapM_append (front back : List String) (st : σ) :
    ((front ++ back).mapM render).run st =
      let first := (front.mapM render).run st
      let second := (back.mapM render).run first.2
      (first.1 ++ second.1, second.2) := by
  rw [List.mapM_append]
  rfl

/-- The renderer is asked for the text of an element unless it is raw, and its answer stands between
the tags, on a line of its own if the text is long. -/
theorem exists_run_printText (h : el.Plain) (st : σ)
    (hanswers : ∀ html ∈ (((if el.isRaw then none else el.text?).toList.mapM render).run st).1,
      Inert html.toList) :
    ∃ above content under, IsLayout above ∧ IsLayout under ∧ Inert content ∧
      Shows [el] (((if el.isRaw then none else el.text?).toList.mapM render).run st).1 [content] ∧
      (el.printText render).run st = (above ++ content ++ under,
        (((if el.isRaw then none else el.text?).toList.mapM render).run st).2) := by
  cases htext : el.text? with
  | none =>
    rw [printText_of_none render htext, ite_self]
    exact ⟨[], [], [], isLayout_nil, isLayout_nil, inert_nil, .bare htext .nil, rfl⟩
  | some text =>
    cases hraw : el.isRaw with
    | true =>
      have hplain : Inert text.toList := h.raw hraw text (Option.filter_eq_some_iff.mp htext).1
      rw [printText_of_raw render hraw htext]
      exact ⟨[], text.toList, [], isLayout_nil, isLayout_nil, hplain, .raw htext hraw .nil,
        congrArg (·, st) (List.append_nil _).symm⟩
    | false =>
      have hasked : ([text].mapM render).run st =
          ([((render text).run st).1], ((render text).run st).2) := rfl
      rw [htext, hraw, if_neg Bool.false_ne_true, Option.toList_some, hasked] at hanswers
      have hplain := hanswers _ (List.mem_singleton_self _)
      have hshows : Shows [el] [((render text).run st).1] [((render text).run st).1.toList] :=
        .rendered htext hraw .nil
      rw [if_neg Bool.false_ne_true, Option.toList_some, hasked]
      unfold printText
      rw [htext]
      dsimp only
      rw [hraw, if_neg Bool.false_ne_true, StateT.run_bind]
      by_cases hlong : inlineLimit < text.length
      · refine ⟨['\n', '\t'], _, ['\n'], isLayout_newline 1, isLayout_newline 0, hplain, hshows, ?_⟩
        simp only [if_pos hlong]
        rfl
      · refine ⟨[], _, [], isLayout_nil, isLayout_nil, hplain, hshows, ?_⟩
        simp only [if_neg hlong, List.append_nil]
        rfl

theorem run_printLines_cons (el : Element) (rest : List Element) (st : σ) :
    (printLines render (el :: rest)).run st =
      let text := (el.printText render).run st
      let lines := (printLines render el.children).run text.2
      let others := (printLines render rest).run lines.2
      ((el.openTag ++ text.1 ++
        (if el.children.isEmpty then []
          else '\n' :: indentLines (Text.unlines lines.1) ++ ['\n']) ++
        if el.needsCloseTag then el.closeTag else []) :: others.1, others.2) := by
  rw [printLines, Element.print_eq]
  rfl

theorem length_run_printLines (els : List Element) (st : σ) :
    ((printLines render els).run st).1.length = els.length := by
  induction els generalizing st with
  | nil => rw [printLines]; rfl
  | cons el rest ih =>
    rw [run_printLines_cons]
    exact congrArg (· + 1) (ih _)

/-- The texts of a forest are rendered one after another, and its lines mirror it. -/
theorem run_printLines {els : List Element} (hels : ∀ el ∈ nodesOf els, el.Plain) (st : σ)
    (hanswers : ∀ html ∈ (((renderedTexts els).mapM render).run st).1, Inert html.toList) :
    ((printLines render els).run st).2 = (((renderedTexts els).mapM render).run st).2 ∧
    LinesMirror els (((renderedTexts els).mapM render).run st).1
      ((printLines render els).run st).1 := by
  induction els using forest_induction generalizing st with
  | nil =>
    rw [printLines]
    exact ⟨rfl, linesMirror_nil⟩
  | cons el rest hchildren hrest =>
    rw [nodesOf_cons, List.forall_mem_cons, List.forall_mem_append] at hels
    obtain ⟨hel, hbelow, hothers⟩ := hels
    rw [renderedTexts_cons, run_mapM_append, run_mapM_append] at hanswers ⊢
    dsimp only at hanswers ⊢
    rw [List.forall_mem_append, List.forall_mem_append] at hanswers
    obtain ⟨above, content, under, habove, hunder, hcontent, hshows, htext⟩ :=
      exists_run_printText render hel st hanswers.1.1
    obtain ⟨hstate, hlines⟩ := hchildren hbelow _ hanswers.1.2
    obtain ⟨hstate', hlines'⟩ := hrest hothers _ hanswers.2
    have hempty := length_run_printLines render el.children
    rw [run_printLines_cons, htext]
    dsimp only
    rw [hstate]
    refine ⟨hstate', .cons hel habove hunder hcontent hshows ?_ hlines hlines'⟩
    rw [← List.length_eq_zero_iff, hempty, List.length_eq_zero_iff]

/-- The line end in front of the first line does not count. -/
theorem tagsFrom_unlines (lines : List (List Char)) :
    tagsFrom [] (Text.unlines lines) = tagsFrom [] (lines.flatMap ('\n' :: ·)) := by
  cases lines with
  | nil => rfl
  | cons first others =>
    rw [← newline_cons_unlines]
    exact (tagsFrom_newline [] _ 0).symm

/-- The print of a forest mirrors it, whatever state the renderer keeps. This state is what it is
after the renderer has been asked for each of its texts once, in document order. -/
theorem mirrors_printForest {els : List Element} (hels : ∀ el ∈ nodesOf els, el.Plain) (st : σ)
    (hanswers : ∀ html ∈ (((renderedTexts els).mapM render).run st).1, Inert html.toList) :
    let answers := ((renderedTexts els).mapM render).run st
    let page := (printForest render els).run st
    page.2 = answers.2 ∧ Mirrors 0 els answers.1 (tagsFrom [] page.1.toList) := by
  obtain ⟨hstate, hlines⟩ := run_printLines render hels st hanswers
  obtain ⟨-, tags, line, hmirrors, htags⟩ := hlines 0 [] [] isLayout_nil
  rw [hang_zero, List.append_nil, tagsFrom, List.append_nil, ← tagsFrom_unlines] at htags
  have hpage : ((printForest render els).run st).1.toList =
      Text.unlines ((printLines render els).run st).1 := String.toList_ofList
  refine ⟨hstate, ?_⟩
  rw [hpage, htags]
  exact hmirrors

end run

/-- A list with a text and a void element in it, and a script below it, for a renderer that counts
what it is asked for. -/
theorem mirrors_printForest_list :
    let els : List Element :=
      [{ tag := "ul", children := [{ tag := "li", text := some "x" }, { tag := "br", void := true }] },
        { tag := "script", text := some "y" }]
    let render : String → StateM Nat String := fun _ => do
      modify (· + 1)
      pure "R"
    (∀ el ∈ nodesOf els, el.Plain) ∧
    (∀ html ∈ (((renderedTexts els).mapM render).run 0).1, Inert html.toList) ∧
    let answers := ((renderedTexts els).mapM render).run 0
    let page := (printForest render els).run 0
    page.2 = answers.2 ∧ Mirrors 0 els answers.1 (tagsFrom [] page.1.toList) := by
  intro els render
  have hels : ∀ el ∈ nodesOf els, el.Plain := by
    intro el hel
    have hcases : el = els[0] ∨ el = els[0].children[0] ∨ el = els[0].children[1] ∨ el = els[1] := by
      simpa [els] using hel
    rcases hcases with rfl | rfl | rfl | rfl <;>
      exact ⟨by decide, by decide, by decide, by simp [els], by simp [els], by simp [els],
        by simp [els, isRaw]⟩
  have hanswers : ∀ html ∈ (((renderedTexts els).mapM render).run 0).1, Inert html.toList := by
    have htexts : renderedTexts els = ["x"] := by rfl
    rw [htexts]
    exact List.forall_mem_singleton.mpr (by decide)
  exact ⟨hels, hanswers, mirrors_printForest render hels 0 hanswers⟩

end Pagewright
