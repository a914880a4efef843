import Mathlib.Data.List.Induction
import Mathlib.Data.List.Nodup
import Pagewright.Site.Config

/-! What a configuration has to list: it is accepted exactly if each entry of a list that is not
empty names an outline and a page. This is settled before what is watched is looked at. -/
namespace Pagewright

namespace Value

/-- An entry that names an outline and a page. -/
def NamesPage (entry : Value) : Prop :=
  ∃ fields source page, entry = .object fields ∧ entry.get? "src" = some (.text source) ∧
    entry.get? "dst" = some (.text page)

/-- Some pages are listed, and each entry names its outline and its page. -/
def ListsPages (v : Value) : Prop :=
  ∃ fields write entries, v = .object fields ∧ v.get? "write" = some write ∧
    write.items? = some entries ∧ entries ≠ [] ∧ ∀ entry ∈ entries, entry.NamesPage

/-- Nothing else is watched, or what the patterns of a list lead to. -/
def WatchesPatterns (v : Value) : Prop :=
  ∀ watch, v.get? "watch" = some watch → ∃ patterns : List String,
    watch = .list (patterns.map .text) ∧
      ∀ pattern ∈ patterns, ∃ parts, Glob.ofString pattern = .ok parts

theorem exists_fields_of_get? {v w : Value} {key : String} (h : v.get? key = some w) :
    ∃ fields, v = .object fields := by
  cases v with
  | object fields => exact ⟨fields, rfl⟩
  | _ => cases h

theorem text?_eq_some {v : Value} {s : String} : v.text? = some s ↔ v = .text s := by
  cases v <;> simp [text?]

theorem isSet_of_items? {v : Value} {items : List Value} (h : v.items? = some items) :
    v.isSet = true ↔ items ≠ [] := by
  cases v <;> simp_all [items?, isSet]

end Value

namespace Pages

variable {pages : Pages} {source page : Path} {pair : Path × Path} {entries : List (Path × Path)}

theorem map_fst_insert (page : Path) (h : source ∈ pages.map (·.1)) :
    (pages.insert source page).map (·.1) = pages.map (·.1) := by
  induction pages with
  | nil => cases h
  | cons pair rest ih =>
    rw [insert]
    split
    next => rfl
    next hne =>
      have hmore : source ∈ rest.map (·.1) :=
        (List.mem_cons.mp h).resolve_left (Ne.symm hne)
      rw [List.map_cons, List.map_cons, ih hmore]

theorem insert_of_notMem (page : Path) (h : source ∉ pages.map (·.1)) :
    pages.insert source page = pages ++ [(source, page)] := by
  induction pages with
  | nil => rfl
  | cons pair rest ih =>
    obtain ⟨hne, hmore⟩ : source ≠ pair.1 ∧ source ∉ rest.map (·.1) := by simpa using h
    rw [insert, if_neg hne.symm, ih hmore]
    rfl

theorem mem_insert (hpages : (pages.map (·.1)).Nodup) :
    pair ∈ pages.insert source page ↔ pair = (source, page) ∨ pair ∈ pages ∧ pair.1 ≠ source := by
  induction pages with
  | nil => simp [insert]
  | cons first rest ih =>
    obtain ⟨hfirst, hrest⟩ := List.nodup_cons.mp hpages
    rw [insert]
    split
    next hsame =>
      -- The first page is the only one of the source.
      have hother : ∀ other ∈ rest, other.1 ≠ source := fun other hmem heq =>
        hfirst (List.mem_map.mpr ⟨other, hmem, heq.trans hsame.symm⟩)
      rw [List.mem_cons, List.mem_cons, hsame]
      constructor
      · rintro (rfl | hmem)
        · exact .inl rfl
        · exact .inr ⟨.inr hmem, hother pair hmem⟩
      · rintro (rfl | ⟨rfl | hmem, hne⟩)
        · exact .inl rfl
        · exact absurd hsame hne
        · exact .inr hmem
    next hne =>
      rw [List.mem_cons, List.mem_cons, ih hrest]
      constructor
      · rintro (rfl | rfl | hmem)
        · exact .inr ⟨.inl rfl, hne⟩
        · exact .inl rfl
        · exact .inr ⟨.inr hmem.1, hmem.2⟩
      · rintro (rfl | ⟨rfl | hmem, hother⟩)
        · exact .inr (.inl rfl)
        · exact .inl rfl
        · exact .inr (.inr ⟨hmem, hother⟩)

theorem ofList_concat (entries : List (Path × Path)) (pair : Path × Path) :
    ofList (entries ++ [pair]) = (ofList entries).insert pair.1 pair.2 := by
  unfold ofList
  rw [List.foldl_append]
  rfl

/-- Each source stands once, in the place where it was listed first. -/
theorem map_fst_ofList (entries : List (Path × Path)) :
    (ofList entries).map (·.1) = (entries.map (·.1)).eraseDups ∧
      ((ofList entries).map (·.1)).Nodup := by
  induction entries using List.reverseRecOn with
  | nil => exact ⟨rfl, List.nodup_nil⟩
  | append_singleton entries pair ih =>
    obtain ⟨hsources, hnodup⟩ := ih
    rw [ofList_concat, List.map_append, List.eraseDups_append, ← hsources]
    by_cases hmem : pair.1 ∈ (ofList entries).map (·.1)
    · have hlisted : pair.1 ∈ entries.map (·.1) := List.mem_eraseDups.mp (hsources ▸ hmem)
      rw [map_fst_insert pair.2 hmem]
      refine ⟨?_, hnodup⟩
      simp [List.removeAll, hlisted]
    · have hlisted : pair.1 ∉ entries.map (·.1) := fun h =>
        hmem (hsources ▸ List.mem_eraseDups.mpr h)
      rw [insert_of_notMem pair.2 hmem, List.map_append]
      refine ⟨?_, ?_⟩
      · simp [List.removeAll, hlisted, List.eraseDups_cons]
      · refine List.nodup_append.mpr ⟨hnodup, List.nodup_singleton _, ?_⟩
        intro source hsource other hother heq
        obtain rfl : other = pair.1 := List.mem_singleton.mp hother
        exact hmem (heq ▸ hsource)

theorem ofList_ne_nil (h : entries ≠ []) : ofList entries ≠ [] := by
  obtain ⟨pair, hpair⟩ := List.exists_mem_of_ne_nil entries h
  intro hnil
  have hmem : pair.1 ∈ (ofList entries).map (·.1) := by
    rw [(map_fst_ofList entries).1, List.mem_eraseDups]
    exact List.mem_map_of_mem hpair
  rw [hnil] at hmem
  cases hmem

/-- The last entry of a source is the one that counts. -/
theorem mem_ofList : pair ∈ ofList entries ↔
    ∃ front back, entries = front ++ pair :: back ∧ ∀ later ∈ back, later.1 ≠ pair.1 := by
  induction entries using List.reverseRecOn with
  | nil => simp [ofList]
  | append_singleton entries last ih =>
    rw [ofList_concat, mem_insert (map_fst_ofList entries).2, ih]
    constructor
    · rintro (rfl | ⟨⟨front, back, rfl, hback⟩, hne⟩)
      · exact ⟨entries, [], rfl, nofun⟩
      · refine ⟨front, back ++ [last], by simp, ?_⟩
        simpa [or_imp, forall_and, hne.symm] using hback
    · rintro ⟨front, back, hentries, hback⟩
      obtain rfl | ⟨back, later, rfl⟩ := List.eq_nil_or_concat' back
      · obtain ⟨rfl, hlast⟩ := List.append_inj' hentries rfl
        exact .inl (List.cons.inj hlast).1.symm
      · rw [← List.cons_append, ← List.append_assoc] at hentries
        obtain ⟨rfl, hlast⟩ := List.append_inj' hentries rfl
        obtain rfl := (List.cons.inj hlast).1
        refine .inr ⟨⟨front, back, rfl, fun other hmem => hback other (by simp [hmem])⟩, ?_⟩
        exact (hback last (by simp)).symm

/-- Sources that are listed once lead to their pages as they are listed. -/
theorem ofList_of_nodup (h : (entries.map (·.1)).Nodup) : ofList entries = entries := by
  induction entries using List.reverseRecOn with
  | nil => rfl
  | append_singleton entries pair ih =>
    rw [List.map_append, List.nodup_append] at h
    have hsource : pair.1 ∉ entries.map (·.1) := fun hmem => h.2.2 _ hmem _ (by simp) rfl
    rw [ofList_concat, ih h.1, insert_of_notMem pair.2 hsource]

end Pages

namespace Config

section entries

variable {v : Value} {items : List Value} {pair : Path × Path} {pairs : List (Path × Path)}

theorem entry?_eq_some : entry? v = some pair ↔ ∃ source page,
    v.get? "src" = some (.text source) ∧ v.get? "dst" = some (.text page) ∧
      (Path.ofString source, Path.ofString page) = pair := by
  unfold entry?
  simp only [bind, Option.bind_eq_some_iff, Value.text?_eq_some, Option.some.injEq]
  constructor
  · rintro ⟨source, ⟨-, hsource, rfl⟩, page, ⟨-, hpage, rfl⟩, hpair⟩
    exact ⟨source, page, hsource, hpage, hpair⟩
  · rintro ⟨source, page, hsource, hpage, hpair⟩
    exact ⟨source, ⟨_, hsource, rfl⟩, page, ⟨_, hpage, rfl⟩, hpair⟩

theorem exists_entry?_iff : (∃ pair, entry? v = some pair) ↔ v.NamesPage := by
  constructor
  · rintro ⟨pair, h⟩
    obtain ⟨source, page, hsource, hpage, -⟩ := entry?_eq_some.mp h
    obtain ⟨fields, hfields⟩ := Value.exists_fields_of_get? hsource
    exact ⟨fields, source, page, hfields, hsource, hpage⟩
  · rintro ⟨-, source, page, -, hsource, hpage⟩
    exact ⟨_, entry?_eq_some.mpr ⟨source, page, hsource, hpage, rfl⟩⟩

theorem mapM_entry?_eq_some :
    items.mapM entry? = some pairs ↔ items.map entry? = pairs.map some := by
  induction items generalizing pairs with
  | nil => cases pairs <;> simp
  | cons item items ih =>
    rw [List.mapM_cons, List.map_cons]
    simp only [bind, Option.bind_eq_some_iff, pure, Option.some.injEq, ih]
    constructor
    · rintro ⟨pair, hpair, more, hmore, rfl⟩
      rw [List.map_cons, hpair, hmore]
    · intro h
      cases pairs with
      | nil => cases h
      | cons pair more =>
        obtain ⟨hpair, hmore⟩ := List.cons.inj h
        exact ⟨pair, hpair, more, hmore, rfl⟩

theorem exists_map_entry?_iff :
    (∃ pairs : List (Path × Path), items.map entry? = pairs.map some) ↔
      ∀ item ∈ items, item.NamesPage := by
  induction items with
  | nil => simp
  | cons item items ih =>
    rw [List.forall_mem_cons, ← exists_entry?_iff, ← ih]
    constructor
    · rintro ⟨_ | ⟨pair, more⟩, h⟩
      · cases h
      · obtain ⟨hpair, hmore⟩ := List.cons.inj h
        exact ⟨⟨pair, hpair⟩, more, hmore⟩
    · rintro ⟨⟨pair, hpair⟩, more, hmore⟩
      exact ⟨pair :: more, by rw [List.map_cons, List.map_cons, hpair, hmore]⟩

/-- The outlines and pages that a value lists, in this order. -/
def Lists (v : Value) (pairs : List (Path × Path)) : Prop :=
  ∃ write items, v.get? "write" = some write ∧ write.items? = some items ∧ items ≠ [] ∧
    items.map entry? = pairs.map some

theorem exists_lists_iff : (∃ pairs, Lists v pairs) ↔ v.ListsPages := by
  constructor
  · rintro ⟨pairs, write, items, hwrite, hitems, hne, hpairs⟩
    obtain ⟨fields, hfields⟩ := Value.exists_fields_of_get? hwrite
    have hnames := exists_map_entry?_iff.mp ⟨pairs, hpairs⟩
    exact ⟨fields, write, items, hfields, hwrite, hitems, hne, hnames⟩
  · rintro ⟨-, write, items, -, hwrite, hitems, hne, hnames⟩
    obtain ⟨pairs, hpairs⟩ := exists_map_entry?_iff.mpr hnames
    exact ⟨pairs, write, items, hwrite, hitems, hne, hpairs⟩

theorem Lists.ne_nil (h : Lists v pairs) : pairs ≠ [] := by
  rintro rfl
  obtain ⟨-, items, -, -, hne, hpairs⟩ := h
  exact hne (List.map_eq_nil_iff.mp hpairs)

/-- Whatever is no list of such entries is rejected in one way. -/
theorem entries_cases (v : Value) :
    (∃ items pairs, v.items? = some items ∧ items.map entry? = pairs.map some ∧
      entries v = .ok pairs) ∨
    entries v = .error .badEntry ∧ ∀ items (pairs : List (Path × Path)),
      v.items? = some items → items.map entry? ≠ pairs.map some := by
  unfold entries
  cases hitems : v.items? with
  | none => exact .inr ⟨rfl, nofun⟩
  | some items =>
    dsimp only [bind, Option.bind]
    cases hpairs : items.mapM entry? with
    | some pairs => exact .inl ⟨items, pairs, rfl, mapM_entry?_eq_some.mp hpairs, rfl⟩
    | none =>
      refine .inr ⟨rfl, fun items' pairs hlist h => ?_⟩
      rw [Option.some.inj hlist, mapM_entry?_eq_some.mpr h] at hpairs
      cases hpairs

end entries

section ofValue

variable {t : FileTree} {home : Location} {base : Path} {v : Value}

theorem exists_mapM_pattern {patterns : List String}
    (h : ∀ pattern ∈ patterns, ∃ parts, Glob.ofString pattern = .ok parts) :
    ∃ parts, (patterns.map Value.text).mapM pattern = .ok parts := by
  induction patterns with
  | nil => exact ⟨[], rfl⟩
  | cons name patterns ih =>
    obtain ⟨⟨parts, hparts⟩, hmore⟩ := List.forall_mem_cons.mp h
    obtain ⟨more, hmore⟩ := ih hmore
    have hname : pattern (.text name) = (Glob.ofString name).mapError .pattern := rfl
    rw [List.map_cons, List.mapM_cons, hname, hparts, hmore]
    exact ⟨parts :: more, rfl⟩

theorem exists_watchedPaths (t : FileTree) (home : Location) (base : Path)
    (h : v.WatchesPatterns) :
    ∃ paths, watchedPaths t home base ((v.get? "watch").getD (.list [])) = .ok paths := by
  cases hwatch : v.get? "watch" with
  | none => exact ⟨_, rfl⟩
  | some watch =>
    obtain ⟨patterns, rfl, hpatterns⟩ := h watch hwatch
    obtain ⟨parts, hparts⟩ := exists_mapM_pattern hpatterns
    simp only [Option.getD_some, watchedPaths, Value.members?, hparts, bind, Except.bind]
    exact ⟨_, rfl⟩

/-- Either no pages are listed, whatever is watched, or only what is watched can still be wrong. -/
theorem ofValue_cases (t : FileTree) (home : Location) (base : Path) (v : Value) :
    (¬ v.ListsPages ∧ ofValue t home base v =
      .error (if ((v.get? "write").getD .null).isSet then .badEntry else .noEntry)) ∨
    ∃ pairs, Lists v pairs ∧
      match watchedPaths t home base ((v.get? "watch").getD (.list [])) with
      | .error e => ofValue t home base v = .error e
      | .ok _ => ∃ config, ofValue t home base v = .ok config ∧
          config.pages = Pages.ofList pairs := by
  unfold ofValue
  dsimp only
  cases hwrite : v.get? "write" with
  | none =>
    refine .inl ⟨?_, rfl⟩
    rintro ⟨-, write, -, -, hlist, -⟩
    cases hwrite.symm.trans hlist
  | some write =>
    rw [Option.getD_some]
    by_cases hset : write.isSet
    · rw [if_pos hset, if_pos hset]
      rcases entries_cases write with ⟨items, pairs, hitems, hpairs, hok⟩ | ⟨hbad, hnone⟩
      · have hne := (Value.isSet_of_items? hitems).mp hset
        rw [hok]
        refine .inr ⟨pairs, ⟨write, items, hwrite, hitems, hne, hpairs⟩, ?_⟩
        cases watchedPaths t home base ((v.get? "watch").getD (.list [])) with
        | error e => rfl
        | ok watched => exact ⟨_, rfl, rfl⟩
      · rw [hbad]
        refine .inl ⟨?_, rfl⟩
        intro hlists
        obtain ⟨pairs, _, items, hlist, hitems, -, hpairs⟩ := exists_lists_iff.mpr hlists
        obtain rfl := Option.some.inj (hwrite.symm.trans hlist)
        exact hnone items pairs hitems hpairs
    · rw [if_neg hset, if_neg hset]
      refine .inl ⟨?_, rfl⟩
      rintro ⟨-, _, items, -, hlist, hitems, hne, -⟩
      obtain rfl := Option.some.inj (hwrite.symm.trans hlist)
      exact hset ((Value.isSet_of_items? hitems).mpr hne)

theorem exists_lists_of_ok {config : Config} (h : ofValue t home base v = .ok config) :
    ∃ pairs, Lists v pairs ∧ config.pages = Pages.ofList pairs := by
  rcases ofValue_cases t home base v with ⟨-, herror⟩ | ⟨pairs, hlists, hwatched⟩
  · rw [herror] at h
    cases h
  · cases hpaths : watchedPaths t home base ((v.get? "watch").getD (.list [])) with
    | error e =>
      rw [hpaths] at hwatched
      cases hwatched.symm.trans h
    | ok paths =>
      rw [hpaths] at hwatched
      obtain ⟨config', hconfig, hpages⟩ := hwatched
      obtain rfl := Except.ok.inj (h.symm.trans hconfig)
      exact ⟨pairs, hlists, hpages⟩

theorem exists_ofValue_of_listsPages (t : FileTree) (home : Location) (base : Path)
    (hlists : v.ListsPages) (hwatch : v.WatchesPatterns) :
    ∃ config, ofValue t home base v = .ok config := by
  rcases ofValue_cases t home base v with ⟨hnone, -⟩ | ⟨pairs, -, hwatched⟩
  · exact absurd hlists hnone
  · obtain ⟨paths, hpaths⟩ := exists_watchedPaths t home base hwatch
    rw [hpaths] at hwatched
    obtain ⟨config, hconfig, -⟩ := hwatched
    exact ⟨config, hconfig⟩

/-- A configuration is accepted exactly if it lists pages, as long as patterns are watched. Without
pages it is rejected for that in one of two ways, whatever is watched, and with them there is a page
to write. -/
theorem ofValue_accepts (t : FileTree) (home : Location) (base : Path) (v : Value) :
    (v.WatchesPatterns → ((∃ config, ofValue t home base v = .ok config) ↔ v.ListsPages)) ∧
    (¬ v.ListsPages → ofValue t home base v =
      .error (if ((v.get? "write").getD .null).isSet then .badEntry else .noEntry)) ∧
    ∀ config, ofValue t home base v = .ok config → config.pages ≠ [] := by
  refine ⟨fun hwatch => ⟨?_, ?_⟩, fun hnone => ?_, fun config hok => ?_⟩
  · rintro ⟨config, hok⟩
    obtain ⟨pairs, hlists, -⟩ := exists_lists_of_ok hok
    exact exists_lists_iff.mp ⟨pairs, hlists⟩
  · exact fun hlists => exists_ofValue_of_listsPages t home base hlists hwatch
  · rcases ofValue_cases t home base v with ⟨-, herror⟩ | ⟨pairs, hlists, -⟩
    · exact herror
    · exact absurd (exists_lists_iff.mp ⟨pairs, hlists⟩) hnone
  · obtain ⟨pairs, hlists, hpages⟩ := exists_lists_of_ok hok
    rw [hpages]
    exact Pages.ofList_ne_nil hlists.ne_nil

/-- A page with patterns to watch is accepted, and a list of names is rejected even where nothing
could be watched. -/
theorem ofValue_accepts_patterns :
    let page : Value := .object [(.text "dst", .text "a.html"), (.text "src", .text "a.spl")]
    let v : Value :=
      .object [(.text "watch", .list [.text "*.spl"]), (.text "write", .list [page])]
    let names : Value := .object [(.text "write", .list [.text "a.spl"]), (.text "watch", .null)]
    v.WatchesPatterns ∧ v.ListsPages ∧ (∃ config, ofValue {} [] {} v = .ok config) ∧
      ¬ names.ListsPages ∧ ofValue {} [] {} names = .error .badEntry := by
  intro page v names
  have hwatch : v.WatchesPatterns := by
    rintro watch hget
    obtain rfl : .list [.text "*.spl"] = watch := Option.some.inj hget
    exact ⟨["*.spl"], rfl, by simpa using ⟨_, rfl⟩⟩
  have hlists : v.ListsPages :=
    ⟨_, .list [page], [page], rfl, rfl, rfl, by simp,
      by simpa using ⟨_, "a.spl", "a.html", rfl, rfl, rfl⟩⟩
  have hnone : ¬ names.ListsPages := by
    rintro ⟨-, _, entries, -, hwrite, hitems, -, hnames⟩
    obtain rfl := Option.some.inj hwrite
    obtain rfl : [.text "a.spl"] = entries := Option.some.inj hitems
    obtain ⟨fields, -, -, hfields, -⟩ := hnames _ List.mem_cons_self
    cases hfields
  exact ⟨hwatch, hlists, ((ofValue_accepts {} [] {} v).1 hwatch).mpr hlists, hnone,
    (ofValue_accepts {} [] {} names).2.1 hnone⟩

end ofValue

end Config

end Pagewright
