import Pagewright.Proofs.Site.Config
import Pagewright.Proofs.Site.Later

/-! A build attempts its pages in order, and those are the last pages that its configuration lists
for each outline: of two entries with one outline, the page of the first is never written. -/
namespace Pagewright

/-- What a build says of a page: its outline cannot be compiled, or the page is written and
something is said of its scripts. -/
inductive Reported (pair : Path × Path) : String → Prop where
  | failed : Reported pair (s!"Failed to compile {pair.1}, see the log for details." ++ "\n")
  | compiled (scripts : String) :
      Reported pair (s!"Compiled {pair.1} -> {pair.2}" ++ "\n" ++ scripts)

/-- A build reports on one page after another, up to one that ends it with an error. -/
def Attempts (b : Builder) (pages : Pages) (s : Site) : Prop :=
  ∃ done left said s', pages = done ++ left ∧ List.Forall₂ Reported done said ∧
    s'.output = s.output ++ String.join said ∧
    match left with
    | [] => course (b.build pages) s = (.ok (), s')
    | pair :: _ => ∃ e, (course (b.build pages) s).1 = .error e ∧
        course (b.buildPage pair.1 pair.2) s' = (.error e, (course (b.build pages) s).2)

section reports

variable (b : Builder) {s : Site}

/-- What is said of scripts comes after what was said before. -/
theorem exists_output_buildScripts (outline page : Path) (sources : List String) (s : Site) :
    ∃ said, (course (b.buildScripts outline page sources) s).2.output = s.output ++ said :=
  (GoesOn.forM GoesOn.buildScript (ScriptTarget.ofSources outline page sources) s).output

/-- Behind the report on a page that is written only its scripts are reported. -/
theorem exists_reported_compiled (pair : Path × Path) {s' : Site} {u : Unit}
    (h : course (do
      Site.say s!"Compiled {pair.1} -> {pair.2}"
      if b.options.linkCompiledScripts then
        b.buildScripts pair.1 pair.2 (← get).scriptSources) s = (.ok u, s')) :
    ∃ said, Reported pair said ∧ s'.output = s.output ++ said := by
  rw [course_bind, course_say] at h
  dsimp only at h
  split at h
  next =>
    rw [course_get_bind] at h
    obtain ⟨said, hsaid⟩ := exists_output_buildScripts b pair.1 pair.2 s.scriptSources
      { s with output := s.output ++ s!"Compiled {pair.1} -> {pair.2}" ++ "\n" }
    rw [h] at hsaid
    refine ⟨_, .compiled said, ?_⟩
    rw [hsaid]
    simp only [String.append_assoc]
  next =>
    cases h
    refine ⟨_, .compiled "", ?_⟩
    simp only [String.append_assoc, String.append_empty]

theorem exists_reported (pair : Path × Path) {s' : Site} {u : Unit}
    (h : course (b.buildPage pair.1 pair.2) s = (.ok u, s')) :
    ∃ said, Reported pair said ∧ s'.output = s.output ++ said := by
  rw [Builder.buildPage, course_bind, course_compileOutline] at h
  cases hread : s.files.readText s.home pair.1 with
  | error e =>
    rw [hread] at h
    cases h
  | ok source =>
    rw [hread] at h
    dsimp only at h
    split at h
    next =>
      rw [course_say] at h
      cases h
      exact ⟨_, .failed, String.append_assoc ..⟩
    next =>
      rw [Site.writeText, course_bind, course_change] at h
      dsimp only at h
      split at h
      next s'' hwrite =>
        split at hwrite
        next => cases hwrite
        next files =>
          obtain ⟨said, hsaid, houtput⟩ := exists_reported_compiled b pair h
          cases hwrite
          exact ⟨said, hsaid, houtput⟩
      next => cases h

theorem attempts_build (pages : Pages) (s : Site) : Attempts b pages s := by
  induction pages generalizing s with
  | nil => exact ⟨[], [], [], s, rfl, .nil, String.append_empty.symm, rfl⟩
  | cons pair rest ih =>
    have hcourse : course (b.build (pair :: rest)) s =
        course (b.buildPage pair.1 pair.2 >>= fun _ => b.build rest) s := rfl
    rw [course_bind] at hcourse
    cases hpage : course (b.buildPage pair.1 pair.2) s with
    | mk outcome s' =>
      rw [hpage] at hcourse
      cases outcome with
      | error e =>
        refine ⟨[], pair :: rest, [], s, rfl, .nil, String.append_empty.symm, e, ?_, ?_⟩
        · rw [hcourse]
        · rw [hcourse, hpage]
      | ok u =>
        obtain ⟨first, hfirst, houtput⟩ := exists_reported b pair hpage
        obtain ⟨done, left, said, s'', rfl, hsaid, houtput', hleft⟩ := ih s'
        refine ⟨pair :: done, left, first :: said, s'', rfl, .cons hfirst hsaid, ?_, ?_⟩
        · rw [houtput', houtput, String.join_cons, String.append_assoc]
        · rw [hcourse]
          exact hleft

end reports

/-- The pages of a configuration are those that its entries list last for each outline, each outline
in the place where it is listed first, and a build attempts them in this order. -/
theorem pages_of_ofValue {t : FileTree} {home : Location} {base : Path} {v : Value}
    {config : Config} (h : Config.ofValue t home base v = .ok config) :
    ∃ entries, Config.Lists v entries ∧
      config.pages.map (·.1) = (entries.map (·.1)).eraseDups ∧
      (∀ pair, pair ∈ config.pages ↔
        ∃ front back, entries = front ++ pair :: back ∧ ∀ later ∈ back, later.1 ≠ pair.1) ∧
      ((entries.map (·.1)).Nodup → config.pages = entries) ∧
      ∀ b s, Attempts b config.pages s := by
  obtain ⟨entries, hlists, hpages⟩ := Config.exists_lists_of_ok h
  rw [hpages]
  refine ⟨entries, hlists, (Pages.map_fst_ofList entries).1, fun pair => Pages.mem_ofList, ?_, ?_⟩
  · exact Pages.ofList_of_nodup
  · exact fun b s => attempts_build b _ s

/-- An outline that is listed twice, with another between, keeps its first place and its last page. -/
theorem pages_of_ofValue_twice :
    let entry (source page : String) : Value :=
      .object [(.text "src", .text source), (.text "dst", .text page)]
    let v : Value := .object
      [(.text "write", .list [entry "a" "x", entry "b" "y", entry "./a" "z"])]
    let config : Config := { pages :=
      [(⟨.relative, ["a"]⟩, ⟨.relative, ["z"]⟩), (⟨.relative, ["b"]⟩, ⟨.relative, ["y"]⟩)] }
    Config.ofValue {} [] {} v = .ok config ∧ ∃ entries, Config.Lists v entries ∧
      config.pages.map (·.1) = (entries.map (·.1)).eraseDups ∧
      (∀ pair, pair ∈ config.pages ↔
        ∃ front back, entries = front ++ pair :: back ∧ ∀ later ∈ back, later.1 ≠ pair.1) ∧
      ((entries.map (·.1)).Nodup → config.pages = entries) ∧
      ∀ b s, Attempts b config.pages s := by
  intro entry v config
  have hconfig : Config.ofValue {} [] {} v = .ok config := by rfl
  exact ⟨hconfig, pages_of_ofValue hconfig⟩

/-- The first page of an outline that is listed twice is not written. -/
theorem not_all_listed : ¬ ∀ (t : FileTree) (home : Location) (base : Path) (v : Value)
    (config : Config), Config.ofValue t home base v = .ok config →
      ∀ entries, Config.Lists v entries → ∀ pair ∈ entries, pair ∈ config.pages := by
  intro h
  let entry (source page : String) : Value :=
    .object [(.text "src", .text source), (.text "dst", .text page)]
  let v : Value := .object
    [(.text "write", .list [entry "a.spl" "a.html", entry "./a.spl" "b.html"])]
  let source : Path := ⟨.relative, ["a.spl"]⟩
  have hconfig : Config.ofValue {} [] {} v =
      .ok { pages := [(source, ⟨.relative, ["b.html"]⟩)] } := by rfl
  have hlists : Config.Lists v
      [(source, ⟨.relative, ["a.html"]⟩), (source, ⟨.relative, ["b.html"]⟩)] :=
    ⟨_, _, rfl, rfl, by simp, rfl⟩
  have hmem := h {} [] {} v _ hconfig _ hlists (source, ⟨.relative, ["a.html"]⟩) (by simp)
  exact absurd hmem (by decide)

end Pagewright
