import Pagewright.Proofs.Site.FileTree
import Pagewright.Proofs.Site.History

/-! The pages of a build do not look at each other: each comes to what it comes to alone, up to the
first whose outline cannot be read or which has no room. -/
namespace Pagewright

/-- What ends a build at a page. -/
inductive Stop where
  /-- This path cannot be read or written, and the error names it. -/
  | path (path : Path)
  /-- The outline is no text, and the error does not say which one it is. -/
  | notText (cause : Text.Utf8Error)
  deriving DecidableEq, Repr

/-- What a page comes to. -/
inductive Fate where
  /-- The build ends. -/
  | stops (stop : Stop)
  /-- The outline cannot be compiled. -/
  | skips
  | writes (loc : Location) (html : String)
  deriving DecidableEq, Repr

def Fate.stop? : Fate → Option Stop
  | .stops stop => some stop
  | _ => none

/-- What a page comes to whose outline has this text. -/
def Builder.fateOfSource (b : Builder) (s : Site) (page : Path) (source : String) : Fate :=
  let html := (compilePage b.env b.options b.render s.toolchain source).html
  if html.isEmpty then .skips
  else
    match s.files.room? s.home page with
    | some loc => .writes loc html
    | none => .stops (.path page)

/-- What a page comes to on a site, seen alone. -/
def Builder.fate (b : Builder) (s : Site) (pair : Path × Path) : Fate :=
  match s.files.bytes? s.home pair.1 with
  | none => .stops (.path pair.1)
  | some content =>
    match Text.decode content with
    | .error cause => .stops (.notText cause)
    | .ok source => b.fateOfSource s pair.2 source

/-- No two pages lie in one place, and none in the place of an outline. -/
structure Pages.Apart (pages : Pages) (s : Site) : Prop where
  distinct : (pages.filterMap fun pair => s.files.place? s.home pair.2).Nodup
  outlines : ∀ loc ∈ pages.filterMap fun pair => s.files.place? s.home pair.2,
    loc ∉ pages.filterMap fun pair => s.files.place? s.home pair.1

/-- A site after another on which pages came to this. -/
structure Onward (b : Builder) (fates : List Fate) (s s' : Site) : Prop where
  home : s.home = s'.home
  resolve : s.toolchain.resolve b.env = s'.toolchain.resolve b.env
  folders : s.files.SameFolders s'.files
  written : ∀ loc html, .writes loc html ∈ fates → s'.files.node? loc = some (.file html.toUTF8)
  others : ∀ loc, (∀ html, .writes loc html ∉ fates) → s.files.node? loc = s'.files.node? loc

section fate

variable {b : Builder} {s s' s'' : Site} {pair : Path × Path} {fates fates' : List Fate}
  {loc : Location} {html source : String}

theorem room?_of_writes (h : b.fate s pair = .writes loc html) :
    s.files.room? s.home pair.2 = some loc := by
  rw [Builder.fate] at h
  split at h
  next => cases h
  next =>
    split at h
    next => cases h
    next source _ =>
      rw [Builder.fateOfSource] at h
      split at h
      next => cases h
      next =>
        split at h
        next loc' hroom =>
          obtain ⟨rfl, -⟩ := Fate.writes.inj h
          exact hroom
        next => cases h

theorem Onward.refl (b : Builder) (s : Site) : Onward b [] s s where
  home := rfl
  resolve := rfl
  folders _ := Iff.rfl
  written _ _ hmem := absurd hmem List.not_mem_nil
  others _ _ := rfl

theorem Onward.trans (h : Onward b fates s s') (h' : Onward b fates' s' s'')
    (hapart : ∀ loc html html', .writes loc html ∈ fates → .writes loc html' ∉ fates') :
    Onward b (fates ++ fates') s s'' where
  home := h.home.trans h'.home
  resolve := h.resolve.trans h'.resolve
  folders loc := (h.folders loc).trans (h'.folders loc)
  written loc html hmem := by
    rcases List.mem_append.mp hmem with hmem | hmem
    · rw [← h'.others loc fun html' => hapart loc html html' hmem]
      exact h.written loc html hmem
    · exact h'.written loc html hmem
  others loc hnone := by
    simp only [List.mem_append, not_or] at hnone
    exact (h.others loc fun html => (hnone html).1).trans (h'.others loc fun html => (hnone html).2)

theorem Onward.imp (h : Onward b fates s s')
    (hmem : ∀ loc html, .writes loc html ∈ fates ↔ .writes loc html ∈ fates') :
    Onward b fates' s s' where
  home := h.home
  resolve := h.resolve
  folders := h.folders
  written loc html hmem' := h.written loc html ((hmem loc html).mpr hmem')
  others loc hnone := h.others loc fun html hmem' => hnone html ((hmem loc html).mp hmem')

theorem Onward.place?_eq (h : Onward b fates s s') (p : Path) :
    s.files.place? s.home p = s'.files.place? s'.home p := by
  rw [← h.home]
  exact h.folders.place? s.home p

theorem Onward.fateOfSource_eq (h : Onward b fates s s') (page : Path) (source : String) :
    b.fateOfSource s page source = b.fateOfSource s' page source := by
  have hanswer := answer_of_resolve b.env b.options b.render h.resolve source
  obtain ⟨hhtml, -⟩ := Prod.mk.inj hanswer
  unfold Builder.fateOfSource
  rw [hhtml, h.folders.room? s.home page, h.home]

/-- A page fares alike after others if none of them was written over its outline. -/
theorem Onward.fate_eq (h : Onward b fates s s')
    (hapart : ∀ loc html, .writes loc html ∈ fates → s.files.place? s.home pair.1 ≠ some loc) :
    b.fate s pair = b.fate s' pair := by
  have hbytes : s.files.bytes? s.home pair.1 = s'.files.bytes? s'.home pair.1 := by
    rw [← h.home]
    exact h.folders.bytes? fun loc hplace => h.others loc fun html hmem =>
      hapart loc html hmem hplace
  unfold Builder.fate
  simp only [hbytes, h.fateOfSource_eq]

theorem Onward.of_same (hhome : s.home = s'.home)
    (hresolve : s.toolchain.resolve b.env = s'.toolchain.resolve b.env)
    (hfiles : s'.files = s.files) (hnone : ∀ loc html, .writes loc html ∉ fates) :
    Onward b fates s s' where
  home := hhome
  resolve := hresolve
  folders _ := by rw [hfiles]
  written loc html hmem := absurd hmem (hnone loc html)
  others _ _ := by rw [hfiles]

theorem Onward.of_written (hhome : s.home = s'.home)
    (hresolve : s.toolchain.resolve b.env = s'.toolchain.resolve b.env)
    (hroom : s.files.room? s.home pair.2 = some loc)
    (hfiles : s'.files = s.files.insert loc (.file html.toUTF8)) :
    Onward b [.writes loc html] s s' where
  home := hhome
  resolve := hresolve
  folders := by
    rw [hfiles]
    exact FileTree.sameFolders_insert_file hroom _
  written loc' html' hmem := by
    obtain ⟨rfl, rfl⟩ := Fate.writes.inj (List.mem_singleton.mp hmem)
    rw [hfiles, FileTree.node?_insert (FileTree.ne_nil_of_room? hroom), if_pos rfl]
  others loc' hnone := by
    have hne : loc' ≠ loc := fun h => hnone html (by simp [h])
    rw [hfiles, FileTree.node?_insert (FileTree.ne_nil_of_room? hroom), if_neg hne]

/-- How a build ends that this stops, if anything does. -/
def Ends (stop? : Option Stop) (outcome : Except BuildError Unit) : Prop :=
  match stop? with
  | none => outcome = .ok ()
  | some (.path path) => ∃ cause, outcome = .error (.file (.refused cause path.text))
  | some (.notText cause) => outcome = .error (.file (.notText cause))

/-- An end that something stopped is an error. -/
theorem Ends.exists_error {stop : Stop} {outcome : Except BuildError Unit}
    (h : Ends (some stop) outcome) : ∃ e, outcome = .error e := by
  cases stop with
  | path path =>
    obtain ⟨cause, rfl⟩ := h
    exact ⟨_, rfl⟩
  | notText cause => exact ⟨_, h⟩

theorem buildPage_ends_of_source (hplain : b.options.linkCompiledScripts = false)
    (hread : s.files.readText s.home pair.1 = .ok source) :
    Ends (b.fateOfSource s pair.2 source).stop? (course (b.buildPage pair.1 pair.2) s).1 ∧
      Onward b [b.fateOfSource s pair.2 source] s (course (b.buildPage pair.1 pair.2) s).2 := by
  have hresolve := resolve_compilePage b.env b.options b.render s.toolchain source
  rw [Builder.buildPage, course_bind, course_compileOutline, hread, Builder.fateOfSource]
  dsimp only
  by_cases hempty : (compilePage b.env b.options b.render s.toolchain source).html.isEmpty
  · rw [if_pos hempty, if_pos hempty]
    exact ⟨rfl, .of_same rfl hresolve.symm rfl (by simp)⟩
  · rw [if_neg hempty, if_neg hempty]
    cases hroom : s.files.room? s.home pair.2 with
    | none =>
      obtain ⟨cause, hwrite⟩ := FileTree.exists_writeText_of_room? hroom
        (compilePage b.env b.options b.render s.toolchain source).html
      rw [Site.writeText, course_bind, course_change, hwrite]
      exact ⟨⟨cause, rfl⟩, .of_same rfl hresolve.symm rfl (by simp)⟩
    | some loc =>
      have hwrite := FileTree.writeText_of_room? hroom
        (compilePage b.env b.options b.render s.toolchain source).html
      rw [Site.writeText, course_bind, course_change, hwrite, hplain]
      exact ⟨rfl, .of_written rfl hresolve.symm hroom rfl⟩

theorem course_buildPage_of_error {e : FileError}
    (hread : s.files.readText s.home pair.1 = .error e) :
    course (b.buildPage pair.1 pair.2) s = (.error (.file e), s) := by
  rw [Builder.buildPage, course_bind, course_compileOutline, hread]

theorem buildPage_ends (hplain : b.options.linkCompiledScripts = false) (s : Site)
    (pair : Path × Path) :
    Ends (b.fate s pair).stop? (course (b.buildPage pair.1 pair.2) s).1 ∧
      Onward b [b.fate s pair] s (course (b.buildPage pair.1 pair.2) s).2 := by
  unfold Builder.fate
  cases hbytes : s.files.bytes? s.home pair.1 with
  | none =>
    obtain ⟨cause, hread⟩ := FileTree.exists_readText_of_bytes? hbytes
    rw [course_buildPage_of_error hread]
    exact ⟨⟨cause, rfl⟩, .of_same rfl rfl rfl (by simp)⟩
  | some content =>
    have hread := FileTree.readText_of_bytes? hbytes
    dsimp only
    cases hdecode : Text.decode content with
    | error cause =>
      rw [hdecode] at hread
      rw [course_buildPage_of_error hread]
      exact ⟨rfl, .of_same rfl rfl rfl (by simp)⟩
    | ok source =>
      rw [hdecode] at hread
      exact buildPage_ends_of_source hplain hread

/-- The fates up to the first that ends the build. -/
def untilStop (fates : List Fate) : List Fate := fates.takeWhile fun fate => fate.stop?.isNone

theorem Pages.Apart.tail {pages : Pages} (h : Pages.Apart (pair :: pages) s) : pages.Apart s where
  distinct := h.distinct.sublist ((List.sublist_cons_self pair pages).filterMap _)
  outlines loc hpage houtline := h.outlines loc
    (((List.sublist_cons_self pair pages).filterMap _).subset hpage)
    (((List.sublist_cons_self pair pages).filterMap _).subset houtline)

theorem Onward.apart {pages : Pages} (h : Onward b fates s s') (hpages : pages.Apart s) :
    pages.Apart s' := by
  constructor
  · simpa only [h.place?_eq] using hpages.distinct
  · simpa only [h.place?_eq] using hpages.outlines

/-- A page that is written does not lie in the place of a later page or outline. -/
theorem Pages.Apart.head {pages : Pages} (h : Pages.Apart (pair :: pages) s)
    (hwrites : b.fate s pair = .writes loc html) {pair' : Path × Path} (hmem : pair' ∈ pages) :
    s.files.place? s.home pair'.1 ≠ some loc ∧ s.files.place? s.home pair'.2 ≠ some loc := by
  have hplace : s.files.place? s.home pair.2 = some loc :=
    (FileTree.room?_eq_some.mp (room?_of_writes hwrites)).1
  have hdistinct := h.distinct
  simp only [List.filterMap_cons, hplace, List.nodup_cons] at hdistinct
  refine ⟨fun houtline => ?_, fun hpage => ?_⟩
  · refine h.outlines loc ?_ ?_
    · exact List.mem_filterMap.mpr ⟨pair, List.mem_cons_self, hplace⟩
    · exact List.mem_filterMap.mpr ⟨pair', List.mem_cons_of_mem pair hmem, houtline⟩
  · exact hdistinct.1 (List.mem_filterMap.mpr ⟨pair', hmem, hpage⟩)

/-- The other pages fare on the site that a page leaves as they do before it. -/
theorem Pages.Apart.map_fate_eq {pages : Pages} (h : Pages.Apart (pair :: pages) s)
    (honward : Onward b [b.fate s pair] s s') : pages.map (b.fate s) = pages.map (b.fate s') := by
  refine List.map_congr_left fun pair' hmem => honward.fate_eq fun loc html hwrites => ?_
  exact (h.head (List.mem_singleton.mp hwrites).symm hmem).1

theorem build_ends (hplain : b.options.linkCompiledScripts = false) {pages : Pages}
    (happart : pages.Apart s) :
    Ends ((pages.map (b.fate s)).findSome? Fate.stop?) (course (b.build pages) s).1 ∧
      Onward b (untilStop (pages.map (b.fate s))) s (course (b.build pages) s).2 := by
  induction pages generalizing s with
  | nil => exact ⟨rfl, .refl b s⟩
  | cons pair rest ih =>
    obtain ⟨hends, honward⟩ := buildPage_ends hplain s pair
    have hcourse : course (b.build (pair :: rest)) s =
        course (b.buildPage pair.1 pair.2 >>= fun _ => b.build rest) s := rfl
    rw [hcourse, course_bind, List.map_cons, List.findSome?_cons, untilStop, List.takeWhile_cons]
    generalize course (b.buildPage pair.1 pair.2) s = run at hends honward
    obtain ⟨outcome, s'⟩ := run
    cases hstop : (b.fate s pair).stop? with
    | some stop =>
      rw [hstop] at hends
      obtain ⟨e, rfl⟩ := hends.exists_error
      refine ⟨hends, honward.imp fun loc html => ?_⟩
      have hne : Fate.writes loc html ≠ b.fate s pair := by
        intro h
        rw [← h] at hstop
        cases hstop
      simp [hne]
    | none =>
      rw [hstop] at hends
      obtain rfl : outcome = .ok () := hends
      have hfates := happart.map_fate_eq honward
      obtain ⟨hends', honward'⟩ := ih (honward.apart happart.tail)
      rw [hfates]
      refine ⟨hends', honward.trans honward' ?_⟩
      rintro loc html html' hwrites hwrites'
      rw [← hfates] at hwrites'
      obtain ⟨pair', hmem, hfate⟩ :=
        List.mem_map.mp ((List.takeWhile_sublist _).subset hwrites')
      have hplace := (FileTree.room?_eq_some.mp (room?_of_writes hfate)).1
      exact (happart.head (List.mem_singleton.mp hwrites).symm hmem).2 hplace

theorem Pages.Apart.perm {pages pages' : Pages} (h : pages.Apart s) (hperm : pages.Perm pages') :
    pages'.Apart s where
  distinct := (hperm.filterMap _).nodup_iff.mp h.distinct
  outlines loc hpage houtline := h.outlines loc
    ((hperm.filterMap _).mem_iff.mpr hpage) ((hperm.filterMap _).mem_iff.mpr houtline)

theorem untilStop_eq_self (h : fates.findSome? Fate.stop? = none) : untilStop fates = fates := by
  rw [List.findSome?_eq_none_iff] at h
  exact List.takeWhile_eq_self_iff.mpr fun fate hmem => by rw [h fate hmem]; rfl

/-- What the same pages come to decides what a place holds, in whatever order they come. -/
theorem Onward.node?_eq {t : Site} (h : Onward b fates s s') (h' : Onward b fates' s t)
    (hmem : ∀ loc html, .writes loc html ∈ fates ↔ .writes loc html ∈ fates') (loc : Location) :
    t.files.node? loc = s'.files.node? loc := by
  by_cases hwritten : ∃ html, .writes loc html ∈ fates
  · obtain ⟨html, hwrites⟩ := hwritten
    rw [h.written loc html hwrites, h'.written loc html ((hmem loc html).mp hwrites)]
  · have hnone : ∀ html, .writes loc html ∉ fates := fun html hwrites => hwritten ⟨html, hwrites⟩
    rw [← h.others loc hnone, ← h'.others loc fun html hwrites =>
      hnone html ((hmem loc html).mpr hwrites)]

end fate

/-- Pages come to what they come to alone, up to the first that ends the build; if there is none,
their order does not matter. -/
theorem pages_independent (b : Builder) (s : Site) (pages : Pages)
    (hplain : b.options.linkCompiledScripts = false) (happart : pages.Apart s) :
    let fates := pages.map (b.fate s)
    let run := course (b.build pages) s
    Ends (fates.findSome? Fate.stop?) run.1 ∧
    (∀ loc html, .writes loc html ∈ untilStop fates →
      run.2.files.node? loc = some (.file html.toUTF8)) ∧
    (∀ loc, (∀ html, .writes loc html ∉ untilStop fates) →
      run.2.files.node? loc = s.files.node? loc) ∧
    (fates.findSome? Fate.stop? = none → ∀ pages', pages.Perm pages' →
      let run' := course (b.build pages') s
      run'.1 = .ok () ∧ ∀ loc, run'.2.files.node? loc = run.2.files.node? loc) := by
  intro fates run
  obtain ⟨hends, honward⟩ := build_ends hplain happart
  refine ⟨hends, honward.written, fun loc hnone => (honward.others loc hnone).symm, ?_⟩
  intro hgoes pages' hperm run'
  have hfates : fates.Perm (pages'.map (b.fate s)) := hperm.map _
  have hgoes' : (pages'.map (b.fate s)).findSome? Fate.stop? = none := by
    rw [List.findSome?_eq_none_iff] at hgoes ⊢
    exact fun fate hmem => hgoes fate (hfates.mem_iff.mpr hmem)
  obtain ⟨hends', honward'⟩ := build_ends hplain (happart.perm hperm)
  rw [hgoes'] at hends'
  refine ⟨hends', honward.node?_eq honward' fun loc html => ?_⟩
  rw [untilStop_eq_self hgoes, untilStop_eq_self hgoes']
  exact hfates.mem_iff

/-- A page before a missing outline is written, and the error names that outline. -/
theorem pages_independent_missing :
    let env : Script.Environment := { locate := fun _ => none, execute := fun _ _ => ⟨0, "", ""⟩ }
    let b : Builder := { env, render := id }
    let s : Site := { files := ⟨[(["b.spl"], .file "p x".toUTF8)]⟩, home := [] }
    let pages : Pages := [(⟨.relative, ["b.spl"]⟩, ⟨.relative, ["b.html"]⟩),
      (⟨.relative, ["a.spl"]⟩, ⟨.relative, ["a.html"]⟩)]
    b.options.linkCompiledScripts = false ∧ pages.Apart s ∧
      (∃ cause, (course (b.build pages) s).1 = .error (.file (.refused cause "a.spl"))) ∧
      (course (b.build pages) s).2.files.node? ["b.html"] =
        some (.file (compilePage env {} id (.named {}) "p x").html.toUTF8) := by
  intro env b s pages
  have hfates : pages.map (b.fate s) =
      [.writes ["b.html"] (compilePage env {} id (.named {}) "p x").html,
        .stops (.path ⟨.relative, ["a.spl"]⟩)] := by decide +kernel +revert
  have happart : pages.Apart s := ⟨by decide, by decide⟩
  have h := pages_independent b s pages rfl happart
  rw [hfates] at h
  exact ⟨rfl, happart, h.1, h.2.1 ["b.html"] _ List.mem_cons_self⟩

/-- A page behind a missing outline is not written. -/
theorem not_written_behind_missing :
    ¬ ∀ (b : Builder) (s : Site) (pages : Pages), b.options.linkCompiledScripts = false →
      pages.Apart s → ∀ loc html, .writes loc html ∈ pages.map (b.fate s) →
        (course (b.build pages) s).2.files.node? loc = some (.file html.toUTF8) := by
  intro h
  let env : Script.Environment := { locate := fun _ => none, execute := fun _ _ => ⟨0, "", ""⟩ }
  let b : Builder := { env, render := id }
  let s : Site := { files := ⟨[(["b.spl"], .file "p x".toUTF8)]⟩, home := [] }
  let pages : Pages := [(⟨.relative, ["a.spl"]⟩, ⟨.relative, ["a.html"]⟩),
    (⟨.relative, ["b.spl"]⟩, ⟨.relative, ["b.html"]⟩)]
  have hfates : pages.map (b.fate s) =
      [.stops (.path ⟨.relative, ["a.spl"]⟩),
        .writes ["b.html"] (compilePage env {} id (.named {}) "p x").html] := by
    decide +kernel +revert
  have hnode : (course (b.build pages) s).2.files.node? ["b.html"] = none := rfl
  have hwritten := h b s pages rfl ⟨by decide, by decide⟩ ["b.html"]
    (compilePage env {} id (.named {}) "p x").html (by simp [hfates])
  rw [hnode] at hwritten
  cases hwritten

end Pagewright
