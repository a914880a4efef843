import Pagewright.Proofs.Site.Later
import Pagewright.Proofs.Site.Observation
import Pagewright.Proofs.Site.Place

/-! What is watched: the folders that are observed are those of the watched paths, and the changes
that are built for are those at the place of a watched path, in whatever spelling. -/
namespace Pagewright

theorem home_applyEdits (edits : List Edit) (s : Site) :
    ((applyEdits edits).run s).2.home = s.home := by
  change (edits.foldl (fun s e => e.apply s) s).home = s.home
  induction edits generalizing s with
  | nil => rfl
  | cons e rest ih => exact ih (e.apply s)

namespace Watch

/-- Sources are watched, and so are the paths listed besides. -/
def Watches (w : Watch) (p : Path) : Prop := (∃ page, (p, page) ∈ w.pages) ∨ p ∈ w.more

/-- A change that pages are built for: that of a file at the place of a watched path. -/
def Concerns (w : Watch) (home : Location) (p : Path) (isFolder : Bool) : Prop :=
  isFolder = false ∧ ∃ q, w.Watches q ∧ q.resolve home = p.resolve home

/-- The change of a place is reported, and every page is built anew. -/
def rebuild (b : Builder) (w : Watch) (loc : Location) : Building Unit := do
  Site.say s!"\nDetected modification in: {loc.text}"
  b.build w.pages

/-- The site that is left when these happenings have been observed. -/
def after (b : Builder) (w : Watch) (happenings : List Happening) (s : Site) : Site :=
  ((w.observe b happenings).run s).2

section watch

variable {b : Builder} {w : Watch} {home : Location} {p : Path} {isFolder : Bool} {s : Site}

theorem mem_paths : p ∈ w.paths ↔ w.Watches p := by
  simp [paths, Watches]

theorem isWatched_iff : w.isWatched home p ↔ ∃ q, w.Watches q ∧ q.resolve home = p.resolve home := by
  simp [isWatched, mem_paths]

theorem mem_folders {folder : Path} :
    folder ∈ w.folders s ↔ s.files.isFolder s.home folder ∧ ∃ p, w.Watches p ∧ p.parent = folder := by
  simp [folders, mem_paths, and_comm]

/-- The changes that pages are built for are those of a watched path in any spelling. -/
theorem concerns_iff_exists_respelled (hhome : ".." ∉ home) : w.Concerns home p isFolder ↔
    isFolder = false ∧ ∃ q, w.Watches q ∧ Relation.EqvGen (Path.Respelled home) q p := by
  simp only [Concerns, Path.resolve_eq_iff_eqvGen_respelled hhome]

theorem handle_of_concerns (h : w.Concerns s.home p isFolder) :
    course (w.handle b p isFolder) s = course (w.rebuild b (p.resolve s.home)) s := by
  obtain ⟨rfl, hwatched⟩ := h
  rw [handle, course_get_bind]
  dsimp only
  rw [isWatched_iff.mpr hwatched]
  rfl

theorem handle_of_not_concerns (h : ¬ w.Concerns s.home p isFolder) :
    course (w.handle b p isFolder) s = (.ok (), s) := by
  have hquiet : (!isFolder && w.isWatched s.home p) = false := by
    cases isFolder with
    | true => rfl
    | false => simpa [Concerns, ← isWatched_iff] using h
  rw [handle, course_get_bind]
  dsimp only
  rw [hquiet]
  rfl

theorem goesOn_handle (b : Builder) (w : Watch) (p : Path) (isFolder : Bool) :
    GoesOn (w.handle b p isFolder) := by
  refine .get_bind fun s => ?_
  dsimp only
  split
  · exact (GoesOn.say _).bind fun _ => .build b w.pages
  · exact .pure ()

/-- A rebuild is never silent. -/
theorem output_rebuild_ne (b : Builder) (w : Watch) (loc : Location) (s : Site) :
    (course (w.rebuild b loc) s).2.output ≠ s.output := by
  obtain ⟨said, hsaid⟩ := (GoesOn.build b w.pages
    { s with output := s.output ++ s!"\nDetected modification in: {loc.text}" ++ "\n" }).output
  have hcourse : (course (w.rebuild b loc) s).2.output =
      s.output ++ (s!"\nDetected modification in: {loc.text}" ++ "\n" ++ said) := by
    rw [rebuild, course_bind, course_say]
    dsimp only
    rw [hsaid]
    simp only [String.append_assoc]
  intro h
  have hlength := congrArg String.length (hcourse.symm.trans h)
  simp [String.length_append] at hlength

theorem after_change (rest : List Happening) :
    w.after b (.change p isFolder :: rest) s =
      w.after b rest (course (w.handle b p isFolder) s).2 := rfl

/-- Until an interrupt comes, happenings are observed one after another. -/
theorem after_append {front : List Happening} (h : Happening.interrupt ∉ front)
    (back : List Happening) (s : Site) :
    w.after b (front ++ back) s = w.after b back (w.after b front s) := by
  induction front generalizing s with
  | nil => rfl
  | cons happening rest ih =>
    obtain ⟨hfirst, hrest⟩ := not_or.mp (mt List.mem_cons.mpr h)
    cases happening with
    | interrupt => exact absurd rfl hfirst
    | edits edits => exact ih hrest _
    | change p isFolder => exact ih hrest _

theorem home_after (b : Builder) (w : Watch) (happenings : List Happening) (s : Site) :
    (w.after b happenings s).home = s.home := by
  induction happenings generalizing s with
  | nil => rfl
  | cons happening rest ih =>
    cases happening with
    | interrupt => rfl
    | edits edits => exact (ih _).trans (home_applyEdits edits s)
    | change p isFolder => exact (ih _).trans (goesOn_handle b w p isFolder s).home

/-- A watch starts with the build of all pages, and says one line more. -/
theorem exists_course_start {built : Site} (h : course (b.build w.pages) s = (.ok (), built)) :
    ∃ line, course (w.start b) s =
      (.ok (w.folders built), { built with output := built.output ++ line ++ "\n" }) := by
  rw [start, course_bind, h]
  dsimp only
  rw [course_get_bind]
  split
  · exact ⟨_, rfl⟩
  · exact ⟨_, rfl⟩

/-- A watched path lies directly in a folder that is observed, if that is there. Those that end in no
name are folders themselves. -/
theorem liesIn_of_watches {t : FileTree} (hparent : t.isFolder home p.parent) :
    t.LiesIn home p p.parent ∨ p.name? = none ∧ (t.Reaches home → t.isFolder home p) := by
  cases hname : p.name? with
  | none =>
    exact .inr ⟨rfl, fun hhome => FileTree.isFolder_of_name?_eq_none hhome hname hparent⟩
  | some name =>
    exact .inl ⟨_, name, (FileTree.isFolder_iff.mp hparent).1, Path.resolve_of_name? hname home⟩

/-- All pages are built anew for the changes that concern what is watched, and only for those. -/
theorem handle_eq_rebuild_iff : course (w.handle b p isFolder) s =
    course (w.rebuild b (p.resolve s.home)) s ↔ w.Concerns s.home p isFolder := by
  constructor
  · intro h
    -- A change that is passed over says nothing, and a rebuild does.
    by_contra hnot
    rw [handle_of_not_concerns hnot] at h
    exact output_rebuild_ne b w (p.resolve s.home) s (congrArg (·.2.output) h).symm
  · exact handle_of_concerns

end watch

/-- If the first build ends without an error, every watched path lies directly in a folder that is
observed, as far as its parent is there, and no other folders are observed. Of the changes that come
until an interrupt, those at the place of a watched path build all pages anew, in whatever spelling,
and the others leave everything as it is. -/
theorem covers_watched (b : Builder) (w : Watch) {s : Site}
    (h : (course (b.build w.pages) s).1 = .ok ()) :
    ∃ folders started, course (w.start b) s = (.ok folders, started) ∧
      (∀ happenings, course (w.run b happenings) s =
        if folders.isEmpty then (.ok ([], happenings), started)
        else
          let observed := (w.observe b happenings).run started
          (.ok (.start folders :: observed.1.1, observed.1.2), observed.2)) ∧
      (∀ p, w.Watches p → started.files.isFolder s.home p.parent → p.parent ∈ folders ∧
        (started.files.LiesIn s.home p p.parent ∨
          p.name? = none ∧ (started.files.Reaches s.home → started.files.isFolder s.home p))) ∧
      (∀ folder ∈ folders, started.files.isFolder s.home folder ∧
        ∃ p, w.Watches p ∧ p.parent = folder) ∧
      ∀ front p isFolder back, Happening.interrupt ∉ front →
        let t := w.after b front started
        let next := course (w.handle b p isFolder) t
        w.after b (front ++ .change p isFolder :: back) started = w.after b back next.2 ∧
        (next = course (w.rebuild b (p.resolve s.home)) t ↔ w.Concerns s.home p isFolder) ∧
        (¬ w.Concerns s.home p isFolder → next = (.ok (), t)) := by
  cases hbuild : course (b.build w.pages) s with
  | mk outcome built =>
    rw [hbuild] at h
    obtain rfl : outcome = .ok () := h
    obtain ⟨line, hstart⟩ := exists_course_start hbuild
    have hhome : built.home = s.home := by
      have hlater := GoesOn.build b w.pages s
      rw [hbuild] at hlater
      exact hlater.home
    refine ⟨_, _, hstart, fun happenings => ?_, ?_, ?_, ?_⟩
    · rw [Session.course_run, hstart]
    · intro p hp hparent
      refine ⟨mem_folders.mpr ⟨?_, p, hp, rfl⟩, liesIn_of_watches hparent⟩
      rwa [hhome]
    · intro folder hmem
      rw [mem_folders, hhome] at hmem
      exact hmem
    · intro front p isFolder back hfront t next
      -- Relative paths begin where they did when the folders were chosen.
      have ht : t.home = s.home := (home_after b w front _).trans hhome
      refine ⟨?_, ?_, fun hnot => ?_⟩
      · rw [after_append hfront, after_change]
      · rw [← ht]
        exact handle_eq_rebuild_iff
      · rw [← ht] at hnot
        exact handle_of_not_concerns hnot

/-- A watched path that goes round by the top is known under its short name, and another file that
changes beside it is not. -/
theorem covers_watched_detour :
    let env : Script.Environment := { locate := fun _ => none, execute := fun _ _ => ⟨0, "", ""⟩ }
    let b : Builder := { env, render := id }
    let w : Watch := {
      pages := [(⟨.relative, ["b.spl"]⟩, ⟨.relative, ["b.html"]⟩)]
      more := [⟨.slash, ["site", "..", "site", "notes"]⟩] }
    let s : Site := {
      files := ⟨[(["site"], .folder), (["site", "b.spl"], .file "p x".toUTF8)]⟩
      home := ["site"] }
    (course (b.build w.pages) s).1 = .ok () ∧
      ∃ folders started, course (w.start b) s = (.ok folders, started) ∧
        ⟨.slash, ["site", "..", "site"]⟩ ∈ folders ∧
        ∀ front, Happening.interrupt ∉ front →
          let t := w.after b front started
          course (w.handle b ⟨.relative, ["notes"]⟩ false) t =
              course (w.rebuild b ["site", "notes"]) t ∧
            course (w.handle b ⟨.relative, ["b.html"]⟩ false) t = (.ok (), t) := by
  intro env b w s
  have hbuilt : (course (b.build w.pages) s).1 = .ok () := by decide +kernel +revert
  have hfolders : (course (w.start b) s).1 =
      .ok [⟨.relative, []⟩, ⟨.slash, ["site", "..", "site"]⟩] := by decide +kernel +revert
  obtain ⟨folders, started, hstart, -, -, -, hchanges⟩ := covers_watched b w hbuilt
  rw [hstart] at hfolders
  obtain rfl := Except.ok.inj hfolders
  refine ⟨hbuilt, _, started, hstart, by simp, fun front hfront => ⟨?_, ?_⟩⟩
  · refine (hchanges front _ false [] hfront).2.1.mpr ⟨rfl, isWatched_iff.mp ?_⟩
    decide
  · refine (hchanges front _ false [] hfront).2.2 fun hconcerns => ?_
    exact absurd (isWatched_iff.mpr hconcerns.2) (by decide)

end Watch

end Pagewright
