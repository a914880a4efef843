import Mathlib.Data.List.DropRight
import Pagewright.Outline.Modifier
import Pagewright.Outline.Scanner
import Pagewright.Proofs.Html.Attributes
import Pagewright.Proofs.Outline.Nesting

/-! Modifiers as they are written, and their reading. -/
namespace Pagewright.Outline

section trim

open Text

theorem trim_eq_self {cs : List Char} (hhead : ∀ c ∈ cs.head?, isBlank c = false)
    (hlast : ∀ c ∈ cs.getLast?, isBlank c = false) : trim cs = cs := by
  have hstart : trimStart cs = cs := by
    cases cs with
    | nil => rfl
    | cons c cs => exact List.dropWhile_cons_of_neg (by simp [hhead c rfl])
  have hend : cs.rdropWhile isBlank = cs := List.rdropWhile_eq_self_iff.mpr fun hne => by
    simp [hlast _ (List.getLast?_eq_some_getLast hne)]
  rw [trim, hstart]
  exact hend

theorem trim_of_free {cs : List Char} (h : ∀ c ∈ cs, isFree c) : trim cs = cs :=
  trim_eq_self (fun c hc => (isFree_iff.mp (h c (List.mem_of_mem_head? hc))).1)
    fun c hc => (isFree_iff.mp (h c (List.mem_of_getLast? hc))).1

theorem trim_blank_append {lead : List Char} (h : ∀ c ∈ lead, isBlank c) (cs : List Char) :
    trim (lead ++ cs) = trim cs := by
  rw [trim, trimStart, List.dropWhile_append_of_pos h, trim, trimStart]

end trim

/-- A part of an attribute list as it is written. -/
def attributeText : String × Option String → List Char
  | (key, none) => key.toList
  | (key, some value) => key.toList ++ '=' :: value.toList

def attributeTokens : Attributes → List (List Char)
  | [] => []
  | attrs => ['(' :: ([',', ' '].intercalate (attrs.map attributeText) ++ [')'])]

/-- The modifiers of an element, in the order in which they are written. -/
def tokens (el : Element) : List (List Char) :=
  el.classes.map (fun word => '.' :: word.toList) ++
    el.id.toList.map (fun word => '#' :: word.toList) ++ attributeTokens el.attributes

/-- Free characters that are none of those they must be told apart from. -/
def Plain (apart cs : List Char) : Prop := ∀ c ∈ cs, isFree c ∧ c ∉ apart

instance (apart cs : List Char) : Decidable (Plain apart cs) := List.decidableBAll _ _

def IsWord (apart : List Char) (word : String) : Prop := word ≠ "" ∧ Plain apart word.toList

instance (apart : List Char) (word : String) : Decidable (IsWord apart word) :=
  inferInstanceAs (Decidable (_ ∧ _))

/-- A value may hold blanks and brackets inside its quotes. -/
def IsValue (value : String) : Prop := Plain [','] value.toList ∨
  ∃ inner, value.toList = '"' :: (inner ++ ['"']) ∧ '"' ∉ inner ∧ '\n' ∉ inner

instance (value : String) : Decidable (IsValue value) :=
  let inner := value.toList.tail.dropLast
  decidable_of_iff (Plain [','] value.toList ∨
      value.toList = '"' :: (inner ++ ['"']) ∧ '"' ∉ inner ∧ '\n' ∉ inner)
    (or_congr_right ⟨fun h => ⟨inner, h⟩, fun ⟨own, h⟩ => by
      have hown : inner = own := by simp [inner, h.1]
      exact hown ▸ h⟩)

def IsAttribute (attr : String × Option String) : Prop :=
  IsWord [',', '='] attr.1 ∧ ∀ value ∈ attr.2, IsValue value

instance (attr : String × Option String) : Decidable (IsAttribute attr) :=
  inferInstanceAs (Decidable (_ ∧ _))

/-- Nothing that is written for an element can be taken for something else. -/
structure Writable (el : Element) : Prop where
  tag_ne : el.tag ≠ ""
  tag : el.tag.toList.all isNameChar
  classes : ∀ word ∈ el.classes, IsWord ['.', '#'] word
  id : ∀ word ∈ el.id, IsWord ['.', '#'] word
  keys_nodup : (el.attributes.map (·.1)).Nodup
  attributes : ∀ attr ∈ el.attributes, IsAttribute attr
  void : el.void = false

section attributes

variable {attr : String × Option String} {attrs : Attributes} {p : Char → Bool} {n : Nesting}

/-- At the level of the list an attribute hides its commas, and deeper than that everything. -/
theorem passes_attributeText (hn : n.quoted = false) (hp : ∀ c, p c → c = ',' ∨ 0 < n.depth)
    (hattr : IsAttribute attr) : n.Passes p (attributeText attr) := by
  have hrun (cs : List Char) (h : Plain [','] cs) : n.Passes p cs :=
    Nesting.passes_of_free (fun c hc => (h c hc).1) fun c hc hpc =>
      .inr ((hp c hpc).resolve_left (by simpa using (h c hc).2))
  have hkey : n.Passes p attr.1.toList :=
    hrun _ fun c hc => ⟨(hattr.1.2 c hc).1, fun hcomma =>
      (hattr.1.2 c hc).2 (List.mem_append_left ['='] hcomma)⟩
  obtain ⟨key, _ | value⟩ := attr
  · exact hkey
  have hequals : n.Passes p ['='] := hrun _ (by decide)
  have hvalue : n.Passes p value.toList := by
    rcases hattr.2 value rfl with hfree | ⟨inner, hinner, hquote, -⟩
    · exact hrun _ hfree
    · rw [hinner]
      exact Nesting.passes_quoted hn (fun hc => (hp _ hc).resolve_left (by decide)) hquote
  exact hkey.append (hequals.append hvalue)

theorem attributeText_ne_nil (h : IsAttribute attr) : attributeText attr ≠ [] := by
  obtain ⟨key, value⟩ := attr
  have hkey : key ≠ "" := h.1.1
  cases value <;> simp [attributeText, hkey]

theorem attribute?_attributeText (lead : List Char) (hlead : ∀ c ∈ lead, Text.isBlank c)
    (hattr : IsAttribute attr) : attribute? (lead ++ attributeText attr) = some attr := by
  obtain ⟨key, value⟩ := attr
  have hbefore : ∀ c ∈ lead ++ key.toList, (c != '=') = true := by
    intro c hc
    rcases List.mem_append.mp hc with hc | hc
    · have hblank := hlead c hc
      simp only [bne_iff_ne]
      rintro rfl
      simp [Text.isBlank] at hblank
    · have := (hattr.1.2 c hc).2
      simp_all
  have htrim : Text.trim (lead ++ key.toList) = key.toList := by
    rw [trim_blank_append hlead, trim_of_free fun c hc => (hattr.1.2 c hc).1]
  have hne : key.toList.isEmpty = false := by simpa using hattr.1.1
  cases value with
  | none =>
    have htake := List.takeWhile_eq_self_iff.mpr hbefore
    have hdrop := List.dropWhile_eq_nil_iff.mpr hbefore
    simp [attribute?, attributeText, htake, hdrop, htrim, hne]
  | some value =>
    have htake : (lead ++ (key.toList ++ '=' :: value.toList)).takeWhile (· != '=') =
        lead ++ key.toList := by
      rw [← List.append_assoc, List.takeWhile_append_of_pos hbefore]; simp
    have hdrop : (lead ++ (key.toList ++ '=' :: value.toList)).dropWhile (· != '=') =
        '=' :: value.toList := by
      rw [← List.append_assoc, List.dropWhile_append_of_pos hbefore]; simp
    simp [attribute?, attributeText, htake, hdrop, htrim, hne]

/-- The first part of a list, and the parts behind the commas with the blanks before them. -/
def pieces : Attributes → List (List Char)
  | [] => []
  | attr :: attrs => attributeText attr :: attrs.map (' ' :: attributeText ·)

theorem intercalate_attributeText (attr : String × Option String) (attrs : Attributes) :
    [',', ' '].intercalate ((attr :: attrs).map attributeText) =
      attributeText attr ++ (attrs.map (' ' :: attributeText ·)).flatMap (',' :: ·) := by
  induction attrs generalizing attr with
  | nil => simp [List.intercalate]
  | cons next attrs ih =>
    rw [List.map_cons, List.map_cons, List.intercalate_cons_cons, ← List.map_cons, ih]
    simp

theorem passes_of_mem_pieces (hn : n.quoted = false) (hp : ∀ c, p c → c = ',' ∨ 0 < n.depth)
    (h : ∀ attr ∈ attrs, IsAttribute attr) : ∀ piece ∈ pieces attrs, n.Passes p piece := by
  have hblank : n.step ' ' = n := by simp [Nesting.step, isOpener, isCloser]
  cases attrs with
  | nil => simp [pieces]
  | cons attr attrs =>
    obtain ⟨hattr, hattrs⟩ := List.forall_mem_cons.mp h
    refine List.forall_mem_cons.mpr ⟨passes_attributeText hn hp hattr, ?_⟩
    rintro _ hpiece
    obtain ⟨next, hnext, rfl⟩ := List.mem_map.mp hpiece
    have htext := passes_attributeText hn hp (hattrs next hnext)
    exact ⟨⟨fun hc => .inr ((hp _ hc).resolve_left (by decide)), hblank.symm ▸ htext.hides⟩,
      by rw [Nesting.after_cons, hblank, htext.after]⟩

theorem isToken_list (h : ∀ attr ∈ attrs, IsAttribute attr) :
    ∀ token ∈ attributeTokens attrs, Nesting.IsToken token := by
  cases attrs with
  | nil => simp [attributeTokens]
  | cons attr attrs =>
    have hpasses := passes_of_mem_pieces (n := ⟨1, false⟩) (p := isStop) rfl
      (fun c _ => .inr (by decide)) h
    obtain ⟨hfirst, hrest⟩ := List.forall_mem_cons.mp hpasses
    have hinner : Nesting.Passes isStop ⟨1, false⟩
        ([',', ' '].intercalate ((attr :: attrs).map attributeText)) := by
      rw [intercalate_attributeText, List.flatMap]
      refine hfirst.append (.flatten fun run hrun => ?_)
      obtain ⟨piece, hpiece, rfl⟩ := List.mem_map.mp hrun
      have hcomma : Nesting.Passes isStop ⟨1, false⟩ [','] :=
        Nesting.passes_of_free (List.forall_mem_singleton.mpr (by decide))
          fun _ _ _ => .inr (by decide)
      exact hcomma.append (hrest piece hpiece)
    rintro _ htoken
    obtain rfl := List.mem_singleton.mp htoken
    have hstep : Nesting.step {} '(' = ⟨1, false⟩ := by decide
    refine ⟨?_, ⟨_, _, rfl, rfl, ?_⟩, ?_⟩
    · rw [← List.cons_append, List.getLast?_concat]
      simp [Text.isBlank]
    · rw [hstep]
      exact hinner.hides.append (hinner.after.symm ▸ ⟨fun _ => .inr (by decide), trivial⟩)
    · rw [Nesting.after_cons, hstep, Nesting.after_append, hinner.after]
      rfl

theorem splitAttributes_list (h : ∀ a ∈ attr :: attrs, IsAttribute a) :
    splitAttributes ('(' :: ([',', ' '].intercalate ((attr :: attrs).map attributeText) ++ [')'])) =
      pieces (attr :: attrs) := by
  have hpasses := passes_of_mem_pieces (n := {}) (p := (· == ',')) rfl
    (fun c hc => .inl (by simpa using hc)) h
  obtain ⟨hfirst, hrest⟩ := List.forall_mem_cons.mp hpasses
  have hcuts := Nesting.cuts_dropped ',' (by decide) (by decide) hfirst hrest
  rw [← intercalate_attributeText] at hcuts
  have hne : ∀ piece ∈ pieces (attr :: attrs), (!piece.isEmpty) = true := by
    have hne := attributeText_ne_nil (h attr (by simp))
    rintro piece hpiece
    rcases List.mem_cons.mp hpiece with rfl | hpiece
    · simp [hne]
    · obtain ⟨next, -, rfl⟩ := List.mem_map.mp hpiece
      rfl
  simp only [splitAttributes, List.drop_one, List.tail_cons, List.getLast?_concat, if_true,
    List.dropLast_concat, split, hcuts]
  exact List.filter_eq_self.mpr hne

theorem filterMap_pieces (h : ∀ attr ∈ attrs, IsAttribute attr) :
    (pieces attrs).filterMap attribute? = attrs := by
  cases attrs with
  | nil => rfl
  | cons attr attrs =>
    obtain ⟨hattr, hattrs⟩ := List.forall_mem_cons.mp h
    have hfirst : attribute? (attributeText attr) = some attr :=
      attribute?_attributeText [] (by simp) hattr
    have hrest : ∀ next ∈ attrs, attribute? (' ' :: attributeText next) = some next :=
      fun next hnext => attribute?_attributeText [' '] (List.forall_mem_singleton.mpr (by decide))
        (hattrs next hnext)
    rw [pieces, List.filterMap_cons_some hfirst, List.filterMap_map]
    exact congrArg _ ((List.filterMap_congr hrest).trans List.filterMap_some)

theorem readAttributes_tokens (h : ∀ attr ∈ attrs, IsAttribute attr)
    (hkeys : (attrs.map (·.1)).Nodup) : readAttributes (attributeTokens attrs) = attrs := by
  cases attrs with
  | nil => rfl
  | cons attr attrs =>
    rw [readAttributes, attributeTokens, List.flatMap_singleton, splitAttributes_list h,
      filterMap_pieces h]
    · exact Attributes.ofPairs_of_nodup hkeys
    · simp

end attributes

section modifiers

variable {el : Element}

theorem isToken_word {mark : Char} (hmark : mark = '.' ∨ mark = '#') {word : String}
    (h : IsWord ['.', '#'] word) : Nesting.IsToken (mark :: word.toList) := by
  have hstep : Nesting.step {} mark = {} := by rcases hmark with rfl | rfl <;> decide
  have hword : Nesting.Passes isStop {} word.toList := by
    refine Nesting.passes_of_free (fun c hc => (h.2 c hc).1) fun c hc hstop => ?_
    obtain ⟨hfree, hapart⟩ := h.2 c hc
    simp only [isStop, isMark, isSpanEnd, Bool.or_eq_true, beq_iff_eq] at hstop
    rcases hstop with ((rfl | rfl) | rfl) | rfl | rfl
    · exact absurd hapart (by decide)
    · exact absurd hapart (by decide)
    all_goals exact absurd hfree (by decide)
  refine ⟨fun c hc => ?_, ⟨mark, _, rfl, ?_, hstep.symm ▸ hword.hides⟩, ?_⟩
  · have hne : word.toList ≠ [] := by simpa using h.1
    rw [List.getLast?_cons_of_ne_nil hne] at hc
    exact (isFree_iff.mp (h.2 c (List.mem_of_getLast? hc)).1).1
  · rcases hmark with rfl | rfl <;> rfl
  · rw [Nesting.after_cons, hstep, hword.after]

/-- What is written between the tag of an element and its text; a lone full stop opens a block. -/
def spanTokens (el : Element) (block : Bool) : List (List Char) :=
  tokens el ++ if block then [['.']] else []

theorem isToken_of_mem_spanTokens (h : Writable el) (block : Bool) :
    ∀ token ∈ spanTokens el block, Nesting.IsToken token := by
  have hstop : Nesting.IsToken ['.'] :=
    ⟨by simp [Text.isBlank], ⟨'.', [], rfl, rfl, trivial⟩, by decide⟩
  simp only [spanTokens, tokens, List.mem_append, List.mem_map, Option.mem_toList]
  rintro token (((⟨word, hword, rfl⟩ | ⟨word, hword, rfl⟩) | hlist) | htoken)
  · exact isToken_word (.inl rfl) (h.classes word hword)
  · exact isToken_word (.inr rfl) (h.id word hword)
  · exact isToken_list h.attributes token hlist
  · cases block <;> simp_all

theorem splitModifiers_flatten {tokens : List (List Char)}
    (h : ∀ token ∈ tokens, Nesting.IsToken token) : splitModifiers tokens.flatten = tokens := by
  have htrim : Text.trim tokens.flatten = tokens.flatten := by
    refine trim_eq_self (fun c hc => ?_) fun c hc => ?_
    · rw [List.head?_flatten] at hc
      obtain ⟨token, htoken, hc⟩ := List.exists_of_findSome?_eq_some hc
      obtain ⟨-, ⟨mark, tail, rfl, hmark, -⟩, -⟩ := h token htoken
      obtain rfl : mark = c := Option.some.inj hc
      simp only [isMark, Bool.or_eq_true, beq_iff_eq] at hmark
      rcases hmark with (rfl | rfl) | rfl <;> decide
    · rw [List.getLast?_flatten] at hc
      obtain ⟨token, htoken, hc⟩ := List.exists_of_findSome?_eq_some hc
      exact (h token (List.mem_reverse.mp htoken)).last c hc
  have hne : ∀ token ∈ tokens, (!token.isEmpty) = true := fun token htoken => by
    obtain ⟨-, ⟨mark, tail, rfl, -⟩, -⟩ := h token htoken
    rfl
  rw [splitModifiers, htrim]
  change (Nesting.cuts isMark .kept {} tokens.flatten).filter _ = tokens
  rw [Nesting.cuts_kept h]
  exact List.filter_eq_self.mpr hne

theorem head?_attributeTokens {attrs : Attributes} :
    ∀ token ∈ attributeTokens attrs, token.head? = some '(' := by
  cases attrs <;> simp [attributeTokens]

theorem getLast?_spanTokens (h : Writable el) (block : Bool) :
    (spanTokens el block).getLast? = some ['.'] ↔ block := by
  cases block with
  | true => simp [spanTokens]
  | false =>
    simp only [spanTokens, Bool.false_eq_true, if_false, List.append_nil, iff_false]
    intro hlast
    have hmem := List.mem_of_getLast? hlast
    simp only [tokens, List.mem_append, List.mem_map, List.cons.injEq] at hmem
    rcases hmem with (⟨word, hword, -, hempty⟩ | ⟨word, -, hmark, -⟩) | hlist
    · exact (h.classes word hword).1 (String.toList_eq_nil_iff.mp hempty)
    · exact absurd hmark (by decide)
    · exact absurd (head?_attributeTokens _ hlist) (by decide)

theorem lists_spanTokens (el : Element) (block : Bool) :
    (spanTokens el block).filter (·.head? = some '(') = attributeTokens el.attributes := by
  have hself : ∀ token ∈ attributeTokens el.attributes,
      decide (token.head? = some '(') = true := fun token htoken => by
    simpa using head?_attributeTokens token htoken
  rw [spanTokens, tokens, List.filter_append, List.filter_append, List.filter_append,
    List.filter_eq_self.mpr hself]
  cases block <;> simp [List.filter_map, Function.comp_def]

theorem classes_spanTokens (h : Writable el) (block : Bool) :
    (spanTokens el block).filter (fun token => token.head? = some '.' ∧ 1 < token.length) =
      el.classes.map fun word => '.' :: word.toList := by
  have hself : ∀ token ∈ el.classes.map (fun word => '.' :: word.toList),
      decide (token.head? = some '.' ∧ 1 < token.length) = true := by
    intro token htoken
    obtain ⟨word, hword, rfl⟩ := List.mem_map.mp htoken
    simpa [List.length_pos_iff] using (h.classes word hword).1
  have hlist : ∀ token ∈ attributeTokens el.attributes,
      ¬ decide (token.head? = some '.' ∧ 1 < token.length) = true := fun token htoken => by
    simp [head?_attributeTokens token htoken]
  rw [spanTokens, tokens, List.filter_append, List.filter_append, List.filter_append,
    List.filter_eq_self.mpr hself, List.filter_eq_nil_iff.mpr hlist]
  cases block <;> simp [List.filter_map, Function.comp_def]

theorem id_spanTokens (el : Element) (block : Bool) :
    (spanTokens el block).find? (·.head? = some '#') =
      el.id.map fun word => '#' :: word.toList := by
  have hlist : ∀ token ∈ attributeTokens el.attributes,
      ¬ decide (token.head? = some '#') = true := fun token htoken => by
    simp [head?_attributeTokens token htoken]
  have hclass : ∀ token ∈ el.classes.map (fun word => '.' :: word.toList),
      ¬ decide (token.head? = some '#') = true := by
    simp
  rw [spanTokens, tokens, List.find?_append, List.find?_append, List.find?_append,
    List.find?_eq_none.mpr hlist, List.find?_eq_none.mpr hclass]
  cases block <;> cases el.id <;> simp

/-- The modifiers written for an element are the modifiers read. -/
theorem ofSpan_flatten (h : Writable el) (block : Bool) :
    Modifiers.ofSpan (spanTokens el block).flatten = ⟨el.attributes, el.classes, el.id, block⟩ := by
  rw [Modifiers.ofSpan, splitModifiers_flatten (isToken_of_mem_spanTokens h block)]
  simp only [lists_spanTokens, classes_spanTokens h, id_spanTokens, getLast?_spanTokens h,
    readAttributes_tokens h.attributes h.keys_nodup]
  simp [Function.comp_def]

/-- The tag of an element and its modifiers. -/
def heading (el : Element) (block : Bool) : List Char :=
  el.tag.toList ++ (spanTokens el block).flatten

theorem newline_notMem_word {apart : List Char} {word : String} (h : IsWord apart word) :
    '\n' ∉ word.toList := fun hmem => absurd (h.2 _ hmem).1 (by decide)

theorem newline_notMem_attributeText {attr : String × Option String} (h : IsAttribute attr) :
    '\n' ∉ attributeText attr := by
  have hkey := newline_notMem_word h.1
  obtain ⟨key, _ | value⟩ := attr
  · exact hkey
  have hvalue : '\n' ∉ value.toList := by
    rcases h.2 value rfl with hfree | ⟨inner, hinner, -, hline⟩
    · exact fun hmem => absurd (hfree _ hmem).1 (by decide)
    · simp [hinner, hline]
  simpa [attributeText] using ⟨hkey, hvalue⟩

theorem newline_notMem_list {attrs : Attributes} (h : ∀ attr ∈ attrs, IsAttribute attr) :
    ∀ token ∈ attributeTokens attrs, '\n' ∉ token := by
  cases attrs with
  | nil => simp [attributeTokens]
  | cons attr attrs =>
    obtain ⟨hattr, hattrs⟩ := List.forall_mem_cons.mp h
    rintro _ htoken
    obtain rfl := List.mem_singleton.mp htoken
    have hrest : ∀ next ∈ attrs, '\n' ∉ attributeText next := fun next hnext =>
      newline_notMem_attributeText (hattrs next hnext)
    rw [intercalate_attributeText]
    simpa [newline_notMem_attributeText hattr] using fun key value hmem => hrest (key, value) hmem

theorem newline_notMem_heading (h : Writable el) (block : Bool) : '\n' ∉ heading el block := by
  have htag : '\n' ∉ el.tag.toList := fun hmem =>
    absurd (List.all_eq_true.mp h.tag _ hmem) (by decide)
  have htokens : ∀ token ∈ spanTokens el block, '\n' ∉ token := by
    simp only [spanTokens, tokens, List.mem_append, List.mem_map, Option.mem_toList]
    rintro token (((⟨word, hword, rfl⟩ | ⟨word, hword, rfl⟩) | hlist) | htoken)
    · simpa using newline_notMem_word (h.classes word hword)
    · simpa using newline_notMem_word (h.id word hword)
    · exact newline_notMem_list h.attributes token hlist
    · cases block <;> simp_all
  rw [heading, List.mem_append, not_or]
  refine ⟨htag, fun hmem => ?_⟩
  obtain ⟨token, htoken, hmem⟩ := List.mem_flatten.mp hmem
  exact htokens token htoken hmem

end modifiers

end Pagewright.Outline
