import Mathlib.Data.List.TakeWhile
import Pagewright.Outline.Reader
import Pagewright.Proofs.Html.Attributes
import Pagewright.Proofs.Page.LevelBound
import Pagewright.Site.ScriptTarget

/-! A page links to the scripts that are built for it, unless a link leads to another host or ends
in more than one quote. -/
namespace Pagewright.ScriptTarget

/-- Double quotes at the end of a name. -/
def closingQuotes (cs : List Char) : Nat := (cs.reverse.takeWhile (· == '"')).length

/-- Whether a name, without its quotes, is that of a TypeScript file. -/
def isTypeScript (cs : List Char) : Bool := Text.endsWith ".ts".toList (trimQuotes cs)

def isRemote (cs : List Char) : Bool := Text.contains "://".toList (trimQuotes cs)

/-- Where a page finds what it links to: next to itself, by the link without its quotes and
leading slashes. -/
def linkedPath (page : Path) (link : String) : Path :=
  page.parent.join (.ofString (String.ofList ((trimQuotes link.toList).dropWhile (· == '/'))))

/-- A link is changed exactly if a script is built for it, and then it leads to what is built. -/
structure Coherent (outline page : Path) (src link : String) : Prop where
  changed_iff : link ≠ src ↔ ∃ target, ofSource? outline page src = some target
  compiled_eq : ∀ target, ofSource? outline page src = some target →
    target.compiled = linkedPath page link

/-- A TypeScript name is local and has at most one closing quote, or neither. -/
def LinkedAsBuilt (src : String) : Prop :=
  isTypeScript src.toList = true →
    (closingQuotes src.toList ≤ 1 ↔ isRemote src.toList = false)

instance : DecidablePred LinkedAsBuilt := fun src =>
  inferInstanceAs (Decidable (isTypeScript src.toList = true → _))

section quotes

variable (stem : List Char) (n : Nat)

theorem closingQuotes_append :
    closingQuotes (stem ++ ['.', 't', 's'] ++ List.replicate n '"') = n := by
  rw [closingQuotes, List.reverse_append, List.reverse_replicate,
    List.takeWhile_append_of_pos (by simp)]
  simp

theorem dropWhile_append_ending {p : Char → Bool} (hp : p '.' = false) (more : List Char) :
    (stem ++ '.' :: more).dropWhile p = stem.dropWhile p ++ '.' :: more := by
  rw [List.dropWhile_append, List.dropWhile_cons_of_neg (by simp [hp])]
  split
  next hnil => rw [List.isEmpty_iff.mp hnil, List.nil_append]
  next => rfl

/-- Trimming leaves an ending of two letters as it is. -/
theorem trimQuotes_append (a : Char) {b : Char} (hb : b ≠ '"') :
    trimQuotes (stem ++ ['.', a, b] ++ List.replicate n '"') =
      stem.dropWhile (· == '"') ++ ['.', a, b] := by
  have hfront := dropWhile_append_ending (p := (· == '"')) stem rfl
    (a :: b :: List.replicate n '"')
  rw [trimQuotes, List.append_assoc]
  simp only [List.cons_append, List.nil_append, hfront, List.reverse_append, List.reverse_cons,
    List.reverse_replicate, List.append_assoc]
  rw [List.dropWhile_append_of_pos (by simp)]
  simp [hb]

theorem quotes_of_takeWhile (cs : List Char) :
    ∃ n, cs = List.replicate n '"' ++ cs.dropWhile (· == '"') := by
  have hquotes : cs.takeWhile (· == '"') =
      List.replicate (cs.takeWhile (· == '"')).length '"' :=
    List.eq_replicate_iff.mpr ⟨rfl, fun c hc => by simpa using List.mem_takeWhile_imp hc⟩
  refine ⟨(cs.takeWhile (· == '"')).length, ?_⟩
  rw [← hquotes, List.takeWhile_append_dropWhile]

/-- Trimming takes nothing but quotes from both ends. -/
theorem exists_trimQuotes (cs : List Char) :
    ∃ m n, cs = List.replicate m '"' ++ trimQuotes cs ++ List.replicate n '"' := by
  obtain ⟨m, hfront⟩ := quotes_of_takeWhile cs
  obtain ⟨n, hback⟩ := quotes_of_takeWhile (cs.dropWhile (· == '"')).reverse
  have hmid := congrArg List.reverse hback
  rw [List.reverse_reverse, List.reverse_append, List.reverse_replicate] at hmid
  refine ⟨m, n, hfront.trans ?_⟩
  rw [List.append_assoc, trimQuotes, ← hmid]

theorem isTypeScript_iff (cs : List Char) : isTypeScript cs = true ↔
    ∃ stem, cs = stem ++ ['.', 't', 's'] ++ List.replicate (closingQuotes cs) '"' := by
  constructor
  · intro h
    obtain ⟨stem, hstem⟩ := List.isSuffixOf_iff_suffix.mp h
    obtain ⟨m, n, hcs⟩ := exists_trimQuotes cs
    rw [← hstem, ← List.append_assoc] at hcs
    have hn : closingQuotes cs = n := by
      rw [hcs]
      exact closingQuotes_append _ n
    exact ⟨_, hn ▸ hcs⟩
  · rintro ⟨stem, hcs⟩
    rw [isTypeScript, hcs, trimQuotes_append _ _ _ (by decide)]
    exact List.isSuffixOf_iff_suffix.mpr ⟨_, rfl⟩

theorem endsWith_typeScript_iff (cs : List Char) :
    Text.endsWith (['.', 't', 's'] ++ List.replicate n '"') cs = true ↔
      isTypeScript cs = true ∧ closingQuotes cs = n := by
  rw [Text.endsWith, List.isSuffixOf_iff_suffix, isTypeScript_iff]
  constructor
  · rintro ⟨stem, rfl⟩
    rw [← List.append_assoc, closingQuotes_append]
    exact ⟨⟨stem, rfl⟩, rfl⟩
  · rintro ⟨⟨stem, hcs⟩, rfl⟩
    exact ⟨stem, by rw [← List.append_assoc, ← hcs]⟩

end quotes

section compiledLink

variable (src : String)

/-- A link is changed in front of its closing quotes, of which there may be one. -/
theorem toList_compiledLink : (compiledLink src).toList =
    if isTypeScript src.toList = true ∧ closingQuotes src.toList ≤ 1 then
      src.toList.take (src.toList.length - 2 - closingQuotes src.toList) ++ ['j', 's'] ++
        List.replicate (closingQuotes src.toList) '"'
    else src.toList := by
  have hbare : Text.endsWith ".ts".toList src.toList = true ↔ _ :=
    endsWith_typeScript_iff 0 src.toList
  have hquoted : Text.endsWith ".ts\"".toList src.toList = true ↔ _ :=
    endsWith_typeScript_iff 1 src.toList
  rw [compiledLink]
  by_cases hname : isTypeScript src.toList = true
  · match hn : closingQuotes src.toList with
    | 0 =>
      rw [if_pos (hbare.mpr ⟨hname, hn⟩), if_pos ⟨hname, by omega⟩]
      simp
    | 1 =>
      have hnot := mt hbare.mp (by omega)
      rw [if_neg hnot, if_pos (hquoted.mpr ⟨hname, hn⟩), if_pos ⟨hname, by omega⟩]
      simp [Nat.sub_sub]
    | n + 2 =>
      have hnot := mt hbare.mp (by omega)
      rw [if_neg hnot, if_neg (mt hquoted.mp (by omega)), if_neg (by omega)]
  · have hnot := mt hbare.mp (by tauto)
    rw [if_neg hnot, if_neg (mt hquoted.mp (by tauto)), if_neg (by tauto)]

theorem compiledLink_of_stem {stem : List Char} (hn : closingQuotes src.toList ≤ 1)
    (h : src.toList = stem ++ ['.', 't', 's'] ++ List.replicate (closingQuotes src.toList) '"') :
    (compiledLink src).toList =
      stem ++ ['.', 'j', 's'] ++ List.replicate (closingQuotes src.toList) '"' := by
  rw [toList_compiledLink, if_pos ⟨(isTypeScript_iff _).mpr ⟨stem, h⟩, hn⟩]
  have hcut : src.toList.length - 2 - closingQuotes src.toList = stem.length + 1 := by
    have hlength := congrArg List.length h
    simp only [List.length_append, List.length_replicate, List.length_cons,
      List.length_nil] at hlength
    omega
  rw [hcut]
  generalize closingQuotes src.toList = n at h
  rw [h]
  simp [List.take_append]

theorem compiledLink_ne_iff : compiledLink src ≠ src ↔
    isTypeScript src.toList = true ∧ closingQuotes src.toList ≤ 1 := by
  by_cases h : isTypeScript src.toList = true ∧ closingQuotes src.toList ≤ 1
  · refine iff_of_true ?_ h
    obtain ⟨stem, hcs⟩ := (isTypeScript_iff _).mp h.1
    rw [Ne, String.ext_iff, compiledLink_of_stem src h.2 hcs, hcs]
    simp
  · refine iff_of_false ?_ h
    rw [not_not, String.ext_iff, toList_compiledLink, if_neg h]

/-- A changed link is that of no TypeScript file any more. -/
theorem compiledLink_compiledLink : compiledLink (compiledLink src) = compiledLink src := by
  by_cases h : compiledLink src = src
  · rw [h, h]
  · obtain ⟨hname, hquotes⟩ := (compiledLink_ne_iff src).mp h
    obtain ⟨stem, hcs⟩ := (isTypeScript_iff _).mp hname
    have hlink := compiledLink_of_stem src hquotes hcs
    by_contra hagain
    have hname' := ((compiledLink_ne_iff (compiledLink src)).mp hagain).1
    rw [hlink, isTypeScript, trimQuotes_append _ _ _ (by decide), Text.endsWith,
      List.isSuffixOf_iff_suffix] at hname'
    obtain ⟨front, hfront⟩ := hname'
    have hending := List.append_inj_right' hfront rfl
    simp at hending

end compiledLink

theorem take_append_typeScript (stem : List Char) :
    (stem ++ ['.', 't', 's']).take ((stem ++ ['.', 't', 's']).length - 2) ++ ['j', 's'] =
      stem ++ ['.', 'j', 's'] := by
  have hlength : (stem ++ ['.', 't', 's']).length - 2 = stem.length + 1 := by simp
  rw [hlength, List.take_length_add_append, List.append_assoc]
  rfl

/-- The name of a local TypeScript source, and of what is compiled from it. -/
theorem ofSource?_eq (outline page : Path) (src : String) : ofSource? outline page src =
    if isTypeScript src.toList = true ∧ isRemote src.toList = false then
      let name := (trimQuotes src.toList).dropWhile (· == '/')
      some
        { source := outline.parent.join (.ofString (String.ofList name))
          compiled := page.parent.join
            (.ofString (String.ofList (name.take (name.length - 2) ++ ['j', 's']))) }
    else none := by
  rw [ofSource?, localName?, ← isTypeScript, ← isRemote]
  split_ifs with h h' h'
  · rfl
  · simp_all
  · simp_all
  · rfl

/-- What is compiled for a changed link is what the link leads to. -/
theorem coherent_iff (outline page : Path) (src : String) :
    Coherent outline page src (compiledLink src) ↔ LinkedAsBuilt src := by
  have hbuilt : (∃ target, ofSource? outline page src = some target) ↔
      isTypeScript src.toList = true ∧ isRemote src.toList = false := by
    rw [ofSource?_eq]
    split <;> simp_all
  have hchanged := compiledLink_ne_iff src
  have hiff : (compiledLink src ≠ src ↔ ∃ target, ofSource? outline page src = some target) ↔
      LinkedAsBuilt src := by
    rw [hchanged, hbuilt, and_congr_right_iff, LinkedAsBuilt]
  constructor
  · intro h
    exact hiff.mp h.changed_iff
  · intro h
    refine ⟨hiff.mpr h, fun target htarget => ?_⟩
    have hlocal := hbuilt.mp ⟨target, htarget⟩
    obtain ⟨hname, hquotes⟩ := hchanged.mp ((hiff.mpr h).mpr ⟨target, htarget⟩)
    obtain ⟨stem, hcs⟩ := (isTypeScript_iff _).mp hname
    have hlink := compiledLink_of_stem src hquotes hcs
    have hsource := trimQuotes_append stem (closingQuotes src.toList) 't' (b := 's') (by decide)
    have hcompiled := trimQuotes_append stem (closingQuotes src.toList) 'j' (b := 's') (by decide)
    rw [← hcs] at hsource
    rw [ofSource?_eq, if_pos hlocal, Option.some.injEq] at htarget
    rw [← htarget, linkedPath, hlink, hcompiled, hsource]
    simp only [dropWhile_append_ending _ (p := (· == '/')) rfl]
    rw [take_append_typeScript]

end Pagewright.ScriptTarget

namespace Pagewright

namespace Element

variable {el : Element} {src : String}

/-- A script that names its source changes nothing but the link. -/
theorem relabel_script (f : String → String) (htag : el.tag = "script")
    (hsrc : el.attributes.get? "src" = some (some src)) : el.relabel f true =
      { el with attributes := el.attributes.insert "src" (some (compiledLink src)) } := by
  have hattributes : el.finalAttributes true =
      el.attributes.insert "src" (some (compiledLink src)) := by
    by_cases hempty : src = ""
    · have hsame : compiledLink "" = "" := by decide
      rw [hempty] at hsrc ⊢
      rw [hsame, Attributes.insert_of_get? hsrc]
      simp [finalAttributes, isStyleSheet, htag, hsrc]
    · simp [finalAttributes, isStyleSheet, htag, hsrc, hempty]
  have htext : el.finalText f = el.text := by
    simp [finalText, Attributes.has_eq, hsrc]
  have hfinal : el.finalTag = el.tag := by simp [finalTag, isStyleSheet, htag]
  rw [relabel, hattributes, htext, hfinal]

theorem linkedScripts_script (htag : el.tag = "script")
    (hsrc : el.attributes.get? "src" = some (some src)) :
    el.linkedScripts = if src = "" then [] else [src] := by
  by_cases hempty : src = "" <;> simp [linkedScripts, htag, hsrc, hempty, Option.filter]

end Element

/-- A script that names its source is kept with its link changed. -/
theorem returns_script {rules : Rules} {inHead : Bool} {el : Element} {src : String}
    {w w' : Workshop} {r : Resolution} (hlink : rules.linkCompiledScripts = true)
    (htag : el.tag = "script") (hsrc : el.attributes.get? "src" = some (some src))
    (hmark : el.isMarked = false) (hrun : Returns (resolve rules inHead [el]) w r w') :
    ∃ inner, Returns (resolve rules inHead el.children) w inner w' ∧
      r.kept = [{ el with
        attributes := el.attributes.insert "src" (some (compiledLink src))
        children := inner.kept }] ∧
      r.scriptSources = (if src = "" then [] else [src]) ++ inner.scriptSources := by
  obtain ⟨el', sources, inner, others, w₁, w₂, hstyle, hinner, hothers, rfl⟩ :=
    (returns_resolve_iff.mp hrun).of_not_marked hmark
  cases hothers
  have hcode : el.inlineCode? = none := by simp [Element.inlineCode?, Attributes.has_eq, hsrc]
  rw [Returns, outcome_restyle rules id, hcode, hlink] at hstyle
  obtain ⟨hstyled, rfl⟩ := Prod.mk.inj hstyle
  obtain ⟨rfl, rfl⟩ := Prod.mk.inj (Except.ok.inj hstyled)
  have hstays : (el.relabel id true).isHeadOnly = false := by
    rw [Element.isHeadOnly_relabel]
    simp [Element.isHeadOnly, htag]
  rw [Resolution.ofElement_of_stays inHead hstays, Element.linkedScripts_script htag hsrc,
    Element.relabel_script id htag hsrc]
  exact ⟨inner, returns_resolve_iff.mpr hinner, rfl, List.append_nil _⟩

theorem ScriptTarget.ofSources_append (outline page : Path) (front back : List String) :
    ofSources outline page (front ++ back) =
      ofSources outline page front ++ ofSources outline page back := List.filterMap_append

/-- The link of a script and what is built for it agree exactly if the name is no TypeScript name,
or a local one with at most one closing quote, or a remote one with more. -/
theorem returns_script_coherent_iff {rules : Rules} {inHead : Bool} {el : Element} {src : String}
    {w w' : Workshop} {r : Resolution} (hlink : rules.linkCompiledScripts = true)
    (htag : el.tag = "script") (hsrc : el.attributes.get? "src" = some (some src))
    (hmark : el.isMarked = false) (hrun : Returns (resolve rules inHead [el]) w r w')
    (outline page : Path) :
    ∃ el' link inner, r.kept = [el'] ∧ el'.attributes.get? "src" = some (some link) ∧
      Returns (resolve rules inHead el.children) w inner w' ∧
      ScriptTarget.ofSources outline page r.scriptSources =
        (ScriptTarget.ofSource? outline page src).toList ++
          ScriptTarget.ofSources outline page inner.scriptSources ∧
      (ScriptTarget.Coherent outline page src link ↔ ScriptTarget.LinkedAsBuilt src) := by
  obtain ⟨inner, hinner, hkept, hsources⟩ := returns_script hlink htag hsrc hmark hrun
  refine ⟨_, compiledLink src, inner, hkept, Attributes.get?_insert_self, hinner, ?_,
    ScriptTarget.coherent_iff outline page src⟩
  rw [hsources, ScriptTarget.ofSources_append]
  congr 1
  by_cases hempty : src = ""
  · rw [if_pos hempty, hempty]
    rfl
  · rw [if_neg hempty]
    simp only [ScriptTarget.ofSources, List.filterMap_cons, List.filterMap_nil]
    cases ScriptTarget.ofSource? outline page src <;> rfl

/-- A quoted name beside the page is built, and the link leads to what is built. -/
theorem returns_script_coherent_app :
    let el : Element := { tag := "script", attributes := [("src", some "\"app.ts\"")] }
    ScriptTarget.LinkedAsBuilt "\"app.ts\"" ∧
      ∃ el' link, el'.attributes.get? "src" = some (some link) ∧
        Returns (resolve { compileScript := .ok, linkCompiledScripts := true } false [el]) {}
          { kept := [el'], scriptSources := ["\"app.ts\""] } {} ∧
        ScriptTarget.Coherent { parts := ["src", "index.spl"] } { parts := ["out", "index.html"] }
          "\"app.ts\"" link := by
  intro el
  have hbuilt : ScriptTarget.LinkedAsBuilt "\"app.ts\"" := by decide
  have hrun : Returns (resolve { compileScript := .ok, linkCompiledScripts := true } false [el]) {}
      { kept := [{ el with attributes := [("src", some "\"app.js\"")] }]
        scriptSources := ["\"app.ts\""] } {} := rfl
  obtain ⟨el', link, inner, hkept, hlink, -, -, hcoherent⟩ :=
    returns_script_coherent_iff rfl rfl rfl rfl hrun { parts := ["src", "index.spl"] }
      { parts := ["out", "index.html"] }
  refine ⟨hbuilt, el', link, hlink, ?_, hcoherent.mpr hbuilt⟩
  rw [← hkept]
  exact hrun

set_option maxRecDepth 4000 in
/-- A link to another host is changed, and nothing is built for it. -/
theorem not_coherent_remote : ¬ ∀ source els n el src,
    Outline.read source 0 0 = .ok (els, n) → el ∈ els → el.tag = "script" →
      el.attributes.get? "src" = some (some src) →
      ∀ rules inHead w r w', rules.linkCompiledScripts = true →
        Returns (resolve rules inHead [el]) w r w' →
        ∀ outline page, ∃ el' link, r.kept = [el'] ∧ el'.attributes.get? "src" = some (some link) ∧
          ScriptTarget.Coherent outline page src link := by
  intro h
  let el : Element :=
    { tag := "script", attributes := [("src", some "\"https://cdn.example/x.ts\"")] }
  have hread : Outline.read "script(src=\"https://cdn.example/x.ts\")".toList 0 0 =
      .ok ([el], 39) := by
    rfl
  have hrun : Returns (resolve { compileScript := .ok, linkCompiledScripts := true } false [el]) {}
      { kept := [{ el with attributes := [("src", some "\"https://cdn.example/x.js\"")] }]
        scriptSources := ["\"https://cdn.example/x.ts\""] } {} := rfl
  obtain ⟨el', link, hkept, hlink, hcoherent⟩ :=
    h _ _ _ el _ hread (by simp) rfl rfl _ _ _ _ _ rfl hrun {} {}
  obtain rfl := (List.cons.inj hkept).1
  obtain rfl : "\"https://cdn.example/x.js\"" = link := Option.some.inj (Option.some.inj hlink)
  obtain ⟨target, htarget⟩ := hcoherent.changed_iff.mp (by decide)
  have hnone : ScriptTarget.ofSource? {} {} "\"https://cdn.example/x.ts\"" = none := rfl
  simp [hnone] at htarget

end Pagewright
