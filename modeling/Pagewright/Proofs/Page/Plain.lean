import Pagewright.Page.Compiler
import Pagewright.Proofs.Html.Lines
import Pagewright.Proofs.Outline.Nodes
import Pagewright.Proofs.Page.Passes

/-! Plain pages: no component, style sheet, script or element for the head, at any depth. Resolving
leaves such a forest as it is, and its print stands in the body of a fixed page. -/
namespace Pagewright

namespace Element

/-- Nothing is to be resolved on the node itself, and it may stay where it is. -/
structure IsPlain (inHead : Bool) (node : Element) : Prop where
  not_marked : node.isMarked = false
  not_sheet : node.isStyleSheet = false
  not_script : node.tag ≠ "script"
  stays : inHead = false → node.isHeadOnly = false

theorem isPlain_viewport : viewport.IsPlain true := ⟨rfl, rfl, by decide, nofun⟩

variable {node : Element}

theorem isPlain_of_tag {inHead : Bool} (hmark : node.isMarked = false)
    (htag : node.tag ∉ ["css", "style", "title", "meta", "link", "script"]) :
    node.IsPlain inHead := by
  simp only [List.mem_cons, List.not_mem_nil, or_false, not_or] at htag
  obtain ⟨hcss, hstyle, htitle, hmeta, hlink, hscript⟩ := htag
  refine ⟨hmark, ?_, hscript, fun _ => ?_⟩
  · simp [isStyleSheet, hcss, hstyle]
  · simp [isHeadOnly, hcss, hstyle, htitle, hmeta, hlink]

end Element

theorem returns_restyle_of_plain {inHead : Bool} {node : Element} (h : node.IsPlain inHead)
    (rules : Rules) (w : Workshop) : Returns (rules.restyle node) w (node, []) w := by
  obtain ⟨-, hcode, hsources⟩ :=
    restyle_of_not_script id rules.linkCompiledScripts h.not_script
  have hself := Element.relabel_eq_self id rules.linkCompiledScripts h.not_sheet h.not_script
  unfold Returns
  rw [outcome_restyle rules id, hcode, hself, hsources]

open Element

section resolve

variable {rules : Rules} {els : List Element}

/-- A plain forest resolves to itself, whatever the script compiler does. -/
theorem resolves_of_plain {inHead : Bool} (hels : ∀ node ∈ nodesOf els, node.IsPlain inHead)
    (w : Workshop) : Resolves rules inHead w els { kept := els } w := by
  induction els using forest_induction with
  | nil => exact .nil w
  | cons el rest hchildren hrest =>
    rw [nodesOf_cons, List.forall_mem_cons, List.forall_mem_append] at hels
    obtain ⟨hel, hbelow, hlater⟩ := hels
    have hruns := Resolves.plain hel.not_marked (returns_restyle_of_plain hel rules w)
      (hchildren hbelow) (hrest hlater)
    rw [Resolution.ofElement_self hel.stays] at hruns
    exact hruns

/-- Without a root, a head or a body of its own, a forest is the content of a new body. -/
theorem rooted_of_bare (hels : ∀ el ∈ els, el.tag ∉ [doctypeTag, "html", "head", "body"]) :
    Rooted.ofForest els = ⟨[], { tag := "html", children := els }, []⟩ ∧
      headOrNew { tag := "html", children := els } = { tag := "head" } ∧
      withoutHead { tag := "html", children := els } =
        { tag := "html", children := [{ tag := "body", children := els }] } := by
  simp only [List.mem_cons, List.not_mem_nil, or_false, not_or] at hels
  have hdoctype : Rooted.undeclared els = els :=
    List.filter_eq_self.mpr fun el hel => bne_iff_ne.mpr (hels el hel).1
  have hhead : els.find? (fun el => el.tag = "head") = none :=
    List.find?_eq_none.mpr fun el hel => by simpa using (hels el hel).2.2.1
  have hheadless : els.eraseP (·.tag == "head") = els :=
    List.eraseP_of_forall_not fun el hel => by simpa using (hels el hel).2.2.1
  have hbody : els.any (·.tag == "body") = false :=
    List.any_eq_false.mpr fun el hel => by simpa using (hels el hel).2.2.2
  refine ⟨?_, ?_, ?_⟩
  · rcases Rooted.ofForest_cases els with ⟨before, html, after, -, hsplit, hhtml, -⟩ | ⟨heq, -⟩
    · rw [hdoctype] at hsplit
      have hmem : html ∈ els := by simp [hsplit]
      exact absurd hhtml (hels html hmem).2.1
    · rw [heq, hdoctype]
  · unfold headOrNew child?
    rw [hhead]
    rfl
  · unfold withoutHead
    simp only [hheadless, hbody, Bool.false_eq_true, if_false]

/-- The page that a plain forest is wrapped into. -/
def plainPage (els : List Element) : List Element :=
  [doctype,
    { tag := "html"
      children := [{ tag := "head", children := [viewport] }, { tag := "body", children := els }] }]

theorem returns_ofForest_plain (hplain : ∀ node ∈ nodesOf els, node.IsPlain false)
    (htop : ∀ el ∈ els, el.tag ∉ [doctypeTag, "html", "head", "body"]) (w : Workshop) :
    Returns (Document.ofForest rules els) w
      { elements := plainPage els, scriptSources := [] } w := by
  obtain ⟨hroot, hhead, hhtml⟩ := rooted_of_bare htop
  have hwraps : ∀ tag children, (tag = "html" ∨ tag = "body") →
      IsPlain false { tag, children } := by
    rintro tag children (rfl | rfl)
    · exact ⟨rfl, rfl, by simp, fun _ => rfl⟩
    · exact ⟨rfl, rfl, by simp, fun _ => rfl⟩
  have hheadRuns : Resolves rules true w (Rooted.ofForest els).headContent
      { kept := [viewport] } w := by
    rw [hroot, Rooted.headContent, hhead]
    have hviewport : nodesOf [viewport] = [viewport] := rfl
    exact resolves_of_plain (by simpa [hviewport] using isPlain_viewport) w
  have hpageRuns : Resolves rules false w [(Rooted.ofForest els).html.withoutHead]
      { kept := [{ tag := "html", children := [{ tag := "body", children := els }] }] } w := by
    rw [hroot, hhtml]
    exact resolves_of_plain (by simpa [hwraps] using hplain) w
  have haround : Resolves rules false w (Rooted.ofForest els).before {} w ∧
      Resolves rules false w (Rooted.ofForest els).after {} w := by
    rw [hroot]
    exact ⟨.nil w, .nil w⟩
  have hnewHead : (Rooted.ofForest els).html.headOrNew = { tag := "head" } := by
    rw [hroot]
    exact hhead
  have hmark : (Rooted.ofForest els).html.isMarked = false := by
    rw [hroot]
    rfl
  refine returns_ofForest_iff.mpr ⟨_, _, _, _, w, w, w, _, rfl, hheadRuns, haround.1, hpageRuns,
    haround.2, _, rfl, ?_, rfl⟩
  rw [hmark, hnewHead]
  rfl

end resolve

/-- The lines of a page around those of its body. -/
def pageLines (body : List (List Char)) : List (List Char) :=
  ["<!DOCTYPE html>".toList,
    "<html>".toList,
    "\t<head>".toList,
    "\t\t<meta name=\"viewport\" content=\"width=device-width,initial-scale=1.0\"></meta>".toList,
    "\t</head>".toList,
    "\t<body>".toList] ++
  body.map (fun line => '\t' :: '\t' :: line) ++
  ["\t</body>".toList,
    "</html>".toList]

section print

variable {m : Type → Type} [Monad m] [LawfulMonad m] (render : String → m String)

theorem pageLines_eq (body : List (List Char)) : pageLines body =
    "<!DOCTYPE html>".toList :: enclosed "<html>".toList "</html>".toList
      (enclosed "<head>".toList "</head>".toList [viewport.openTag ++ viewport.closeTag] ++
        enclosed "<body>".toList "</body>".toList body) := by
  have hviewport : '\t' :: '\t' :: (viewport.openTag ++ viewport.closeTag) =
      "\t\t<meta name=\"viewport\" content=\"width=device-width,initial-scale=1.0\"></meta>".toList :=
    by decide +kernel
  unfold pageLines enclosed
  simp [hviewport, Function.comp_def]

/-- The page is enclosed level by level. -/
theorem unlines_pageLines (body : List Char) :
    Text.unlines (pageLines (Text.lines body)) =
      Text.unlines ["<!DOCTYPE html>".toList,
        Text.unlines (enclosed "<html>".toList "</html>".toList (Text.lines (Text.unlines
          [Text.unlines (enclosed "<head>".toList "</head>".toList
              (Text.lines (viewport.openTag ++ viewport.closeTag))),
            Text.unlines (enclosed "<body>".toList "</body>".toList (Text.lines body))])))] := by
  have hbody : ∀ line ∈ enclosed "<body>".toList "</body>".toList (Text.lines body),
      '\n' ∉ line :=
    newline_notMem_enclosed (by decide) (by decide) fun _ => Text.not_mem_of_mem_fields
  have hviewport : Text.lines (viewport.openTag ++ viewport.closeTag) =
      [viewport.openTag ++ viewport.closeTag] := Text.fields_of_not_mem (by decide)
  have hhead : ∀ line ∈ enclosed "<head>".toList "</head>".toList
      [viewport.openTag ++ viewport.closeTag], '\n' ∉ line :=
    newline_notMem_enclosed (by decide) (by decide) (by decide)
  have hinner := Text.lines_unlines_pair (enclosed_ne_nil _ _ _) (enclosed_ne_nil _ _ _)
    (List.forall_mem_append.mpr ⟨hhead, hbody⟩)
  rw [hviewport, hinner, pageLines_eq]
  exact Text.joinWith_cons '\n' _ (enclosed_ne_nil _ _ _)

theorem printForest_plainPage {els : List Element} (hne : els ≠ []) :
    printForest render (plainPage els) = (do
      let content ← printForest render els
      pure (String.ofList (Text.unlines (pageLines (Text.lines content.toList))))) := by
  have hviewport : viewport.print render = pure (viewport.openTag ++ viewport.closeTag) :=
    print_of_empty render rfl rfl
  have hdoctype : doctype.print render = pure "<!DOCTYPE html>".toList :=
    print_of_empty render rfl rfl
  have hhead := print_of_tag render "head" (List.cons_ne_nil viewport [])
  have hbody := print_of_tag render "body" hne
  have hhtml := print_of_tag render "html" (List.cons_ne_nil
    { tag := "head", children := [viewport] } [{ tag := "body", children := els }])
  unfold plainPage
  simp only [printForest_singleton, printForest_pair, hdoctype, hviewport, hhtml, hhead, hbody,
    bind_assoc, pure_bind, String.toList_ofList]
  refine congrArg _ (funext fun content => ?_)
  rw [unlines_pageLines]
  rfl

end print

section compile

variable {source : String} {els : List Element} {stop : Nat}

/-- A plain page is the print of its forest, two levels deeper, in the body of a fixed page. -/
theorem compilePage_of_plain (hread : Outline.read source.toList 0 0 = .ok (els, stop))
    (hne : els ≠ [])
    (hplain : ∀ node ∈ nodesOf els, node.isMarked = false ∧
      node.tag ∉ ["css", "style", "title", "meta", "link", "script"])
    (htop : ∀ el ∈ els, el.tag ∉ ["html", "head", "body"])
    (env : Script.Environment) (options : Options) (render : String → String)
    (tool : Script.Shared) :
    compilePage env options render tool source =
      { html := String.ofList (Text.unlines (pageLines (Text.lines
          (Id.run (printForest (fun text => pure (render text)) els)).toList)))
        scriptSources := []
        notices := []
        toolchain := tool } := by
  have htop' : ∀ el ∈ els, el.tag ∉ [doctypeTag, "html", "head", "body"] := by
    intro el hel
    have hname := Outline.tag_of_read hread (mem_nodesOf hel)
    have hdoctype : el.tag ≠ doctypeTag := by
      intro htag
      rw [htag] at hname
      exact absurd (hname '!' (by decide)) (by decide)
    rw [List.mem_cons, not_or]
    exact ⟨hdoctype, htop el hel⟩
  have hnodes : ∀ node ∈ nodesOf els, node.IsPlain false := fun node hnode =>
    isPlain_of_tag (hplain node hnode).1 (hplain node hnode).2
  have hdocument : (readDocument (options.rules env tool) source).run.run {} =
      (.ok { elements := plainPage els, scriptSources := [] }, {}) := by
    unfold readDocument
    rw [hread]
    exact returns_ofForest_plain hnodes htop' {}
  have htold : options.usesToolchain {} = false := by simp [Options.usesToolchain]
  unfold compilePage
  simp only [hdocument, htold, Bool.false_eq_true, if_false, printForest_plainPage _ hne]
  rfl

/-- A text of two lines is printed like any other. -/
theorem compilePage_of_plain_card :
    Outline.read "div.card\n\tp.\n\t\tone\n\t\ttwo\nhr".toList 0 0 =
        .ok ([{ tag := "div"
                classes := ["card"]
                children := [{ tag := "p", text := some "one\ntwo" }] },
          { tag := "hr" }], 28) ∧
      ∀ env options tool,
        compilePage env options id tool "div.card\n\tp.\n\t\tone\n\t\ttwo\nhr" =
          { html := String.ofList (Text.unlines (pageLines
              ["<div class=\"card\">".toList,
                "\t<p>one".toList,
                "\ttwo</p>".toList,
                "</div>".toList,
                "<hr></hr>".toList]))
            scriptSources := []
            notices := []
            toolchain := tool } := by
  have hread : Outline.read "div.card\n\tp.\n\t\tone\n\t\ttwo\nhr".toList 0 0 =
      .ok ([{ tag := "div"
              classes := ["card"]
              children := [{ tag := "p", text := some "one\ntwo" }] },
        { tag := "hr" }], 28) := rfl
  refine ⟨hread, fun env options tool => ?_⟩
  rw [compilePage_of_plain hread (List.cons_ne_nil _ _) (by decide) (by decide)]
  rfl

end compile

end Pagewright
