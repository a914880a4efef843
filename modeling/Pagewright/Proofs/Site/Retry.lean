import Pagewright.Proofs.Site.History
import Pagewright.Site.Session

/-! An attempt to watch leaves behind the script compiler that its configuration names, and nothing
else that a later attempt could show. -/
namespace Pagewright

/-- Two runs with the same result, on sites that stay alike. -/
structure SameRun {α : Type} (env : Script.Environment) (found : Script.Found) (said : String)
    (p q : α × Site) : Prop where
  result : p.1 = q.1
  alike : Alike env found said False p.2 q.2

namespace SameRun

variable {α β : Type} {env : Script.Environment} {found : Script.Found} {said : String}
  {s t : Site}

theorem of_course {compiled : Prop} {x : Building α}
    (h : SameCourse env found said compiled (course x s) (course x t)) :
    SameRun env found said (x.run.run s) (x.run.run t) :=
  ⟨h.outcome, h.alike.imp False.elim⟩

theorem bind {x : StateM Site α} {f : α → StateM Site β}
    (h : SameRun env found said (x.run s) (x.run t))
    (hnext : ∀ a s' t', Alike env found said False s' t' →
      SameRun env found said ((f a).run s') ((f a).run t')) :
    SameRun env found said ((x >>= f).run s) ((x >>= f).run t) := by
  have hrun (s : Site) : (x >>= f).run s = (f (x.run s).1).run (x.run s).2 := rfl
  rw [hrun, hrun, h.result]
  exact hnext _ _ _ h.alike

end SameRun

/-- What cannot fail goes on. -/
theorem course_lift_bind {α β : Type} (x : StateM Site α) (f : α → Building β) (s : Site) :
    course (liftM x >>= f) s = course (f (x.run s).1) (x.run s).2 := rfl

namespace Alike

variable {b : Builder} {found : Script.Found} {said : String} {s t : Site}

theorem applyEdits (h : Alike b.env found said False s t) (edits : List Edit) :
    Alike b.env found said False ((applyEdits edits).run s).2 ((applyEdits edits).run t).2 := by
  change Alike b.env found said False (edits.foldl (fun s e => e.apply s) s)
    (edits.foldl (fun s e => e.apply s) t)
  induction edits generalizing s t with
  | nil => exact h
  | cons e rest ih =>
    have hfiles : (e.apply s).files = (e.apply t).files := by
      unfold Edit.apply
      rw [h.files, h.home]
    refine ih ?_
    exact ⟨hfiles, h.home, h.resolve, h.resolve', h.output, h.scriptSources⟩

theorem start (h : Alike b.env found said False s t) (w : Watch) :
    SameCourse b.env found said False (course (w.start b) s) (course (w.start b) t) := by
  unfold Watch.start
  refine (h.build w.pages).bind fun _ s t h => ?_
  have hfolders : w.folders s = w.folders t := by
    unfold Watch.folders
    rw [h.files, h.home]
  rw [course_get_bind, course_get_bind, hfolders]
  dsimp only
  split
  · exact (h.say _).bind fun _ _ _ h => .ok h _
  · exact (h.say _).bind fun _ _ _ h => .ok h _

theorem observe (h : Alike b.env found said False s t) (w : Watch) (happenings : List Happening) :
    SameRun b.env found said ((w.observe b happenings).run s)
      ((w.observe b happenings).run t) := by
  induction happenings generalizing s t with
  | nil => exact ⟨rfl, h⟩
  | cons happening rest ih =>
    cases happening with
    | interrupt => exact ⟨rfl, h⟩
    | edits edits => exact ih (h.applyEdits edits)
    | change p isFolder =>
      unfold Watch.observe
      refine (SameRun.of_course (h.handle w p isFolder)).bind fun result s t h => ?_
      exact (ih h).bind fun next s t h => ⟨rfl, h⟩

theorem run (h : Alike b.env found said False s t) (w : Watch) (happenings : List Happening) :
    SameCourse b.env found said False (course (w.run b happenings) s)
      (course (w.run b happenings) t) := by
  unfold Watch.run
  refine (h.start w).bind fun folders s t h => ?_
  by_cases hfolders : folders.isEmpty
  · rw [if_pos hfolders]
    exact .ok h _
  · rw [if_neg hfolders]
    obtain ⟨hnext, halike⟩ := h.observe w happenings
    rw [course_lift_bind, course_lift_bind, hnext]
    exact .ok halike _

end Alike

namespace Session

variable {α β : Type}

/-- What a part of a run comes to, and the site it leaves. -/
def progress (x : Session α) (s : Site) : Except SessionError α × Site := x.run.run s

theorem progress_bind (x : Session α) (f : α → Session β) (s : Site) :
    progress (x >>= f) s = match progress x s with
      | (.ok a, s') => progress (f a) s'
      | (.error e, s') => (.error e, s') := by
  simp only [progress, ExceptT.run_bind, StateT.run_bind]
  generalize x.run.run s = p
  rcases p with ⟨_ | _, _⟩ <;> rfl

theorem progress_get_bind (f : Site → Session β) (s : Site) :
    progress (get >>= f) s = progress (f s) s := rfl

theorem progress_ofBuilding (x : Building α) (s : Site) :
    progress (ofBuilding x) s = match course x s with
      | (.ok a, s') => (.ok a, s')
      | (.error e, s') => (.error (.build e), s') := by
  have hrun : progress (ofBuilding x) s = ((course x s).1.mapError .build, (course x s).2) := rfl
  rw [hrun]
  generalize course x s = run
  obtain ⟨e | a, s'⟩ := run
  · rfl
  · rfl

/-- The configuration that an attempt finds. -/
def configAt (b : Builder) (name : String) (s : Site) : Except SessionError Config :=
  (progress (loadConfig b name {}) s).1

theorem course_readNamed (name : String) (s : Site) :
    course (readNamed name) s =
      (if name.isEmpty then .error (.file (.refused .notFound name))
      else if Path.namesFolder name && s.files.isFile s.home (.ofString name) then
        .error (.file (.refused .notFolder name))
      else (s.files.readBytes s.home (.ofString name)).mapError (.file <| .refused · name), s) := by
  unfold readNamed
  rw [course_get_bind]
  dsimp only
  split
  · rfl
  · split
    · rfl
    · rfl

/-- Loading a configuration changes nothing, and the files alone decide what is loaded. -/
theorem progress_loadConfig {s t : Site} (hfiles : s.files = t.files) (hhome : s.home = t.home)
    (b : Builder) (name : String) :
    progress (loadConfig b name {}) s = (configAt b name t, s) := by
  unfold configAt
  rw [loadConfig, progress_bind, progress_bind, progress_ofBuilding, progress_ofBuilding,
    course_readNamed, course_readNamed, hfiles, hhome]
  generalize (if name.isEmpty then _ else _) = read
  cases read with
  | error e => rfl
  | ok content =>
    dsimp only
    rw [progress_get_bind, progress_get_bind, hfiles, hhome]
    cases b.readYaml content with
    | error e => rfl
    | ok v =>
      cases hvalue : Config.ofValue t.files t.home {} v with
      | error e => simp only [hvalue]; rfl
      | ok config => simp only [hvalue]; rfl

theorem configAt_congr {s t : Site} (hfiles : s.files = t.files) (hhome : s.home = t.home)
    (b : Builder) (name : String) : configAt b name s = configAt b name t := by
  have h := progress_loadConfig hfiles hhome b name
  rw [configAt, h]

/-- The site on which a watch starts: the script compiler that the configuration asks for has been
looked up. -/
def readied (b : Builder) (config : Config) (s : Site) : Site :=
  ((configure b config *> startToolchain b).run s).2

def builderOf (b : Builder) (config : Config) : Builder := { b with options := config.options }

def watchOf (config : Config) : Watch := { pages := config.pages, more := config.watched }

theorem progress_prepareWatch (b : Builder) (name : String) (s : Site) :
    progress (prepareWatch b name) s = match configAt b name s with
      | .error e => (.error e, s)
      | .ok config => (.ok (builderOf b config, watchOf config), readied b config s) := by
  rw [prepareWatch, prepare, bind_assoc, progress_bind, progress_loadConfig rfl rfl]
  cases configAt b name s with
  | error e => rfl
  | ok config => rfl

theorem progress_attempt (b : Builder) (name : String) (happenings : List Happening) (s : Site) :
    progress (attempt b name happenings) s = match configAt b name s with
      | .error e => (.error e, s)
      | .ok config =>
        match course ((watchOf config).run (builderOf b config) happenings)
          (readied b config s) with
        | (.ok (trace, _), s') => (.ok trace, s')
        | (.error e, s') => (.error (.build e), s') := by
  rw [attempt, progress_bind, progress_prepareWatch]
  cases configAt b name s with
  | error e => rfl
  | ok config =>
    dsimp only
    rw [progress_bind, progress_ofBuilding]
    generalize course _ _ = run
    obtain ⟨e | ⟨trace, rest⟩, s'⟩ := run
    · rfl
    · rfl

/-- What is found for a configured script compiler, if it has a name that can be looked for. -/
def look (b : Builder) (executable : Value) : Script.Found :=
  (Script.Shared.configured (b.executableName executable)).resolve b.env

/-- What is found for the script compiler of a run that has configured none. -/
def usual (b : Builder) : Script.Found := (Script.Shared.named {}).resolve b.env

/-- The script compiler that the configuration of an attempt names. -/
def namedAt (b : Builder) (name : String) (s : Site) : Option Value :=
  (configAt b name s).toOption.bind Config.executable?

/-- The script compiler of an attempt, which goes on if its configuration is in order: inline and
linked scripts are handed to it. -/
def compilerAt (b : Builder) (name : String) (s : Site) : Option Script.Found :=
  match progress (prepareWatch b name) s with
  | (.ok _, s') => some (s'.toolchain.resolve b.env)
  | (.error _, _) => none

/-- What an attempt comes to, with what it says if it fails. -/
def tried (b : Builder) (name : String) (happenings : List Happening) (s : Site) :
    Option (List Trace) × Site :=
  (orSay (attempt b name happenings)).run s

/-- An attempt does what the program does when it is newly started on the same files. -/
structure AttemptsAfresh (b : Builder) (name : String) (happenings : List Happening)
    (s : Site) : Prop where
  trace : (tried b name happenings s).1 = (tried b name happenings (s.afresh (.named {}))).1
  files : (tried b name happenings s).2.files =
    (tried b name happenings (s.afresh (.named {}))).2.files
  output : (tried b name happenings s).2.output =
    s.output ++ (tried b name happenings (s.afresh (.named {}))).2.output
  compiler : compilerAt b name s = compilerAt b name (s.afresh (.named {}))

/-- The sites on which the attempts of a run begin. -/
def begins (b : Builder) (name : String) (happenings : List Happening) :
    List (List Edit) → Site → List Site
  | [], s => [s]
  | edits :: fixes, s =>
    s :: match tried b name happenings s with
      | (some _, _) => []
      | (none, s') => begins b name happenings fixes ((applyEdits edits).run s').2

section attempts

variable {b : Builder} {name : String} {happenings : List Happening} {s t : Site}

theorem resolve_readied (b : Builder) (config : Config) (s : Site) :
    (readied b config s).toolchain.resolve b.env =
      (config.executable?.map (look b)).getD (s.toolchain.resolve b.env) := by
  unfold readied configure
  cases config.executable? with
  | none => exact Script.Shared.resolve_started ..
  | some executable => exact Script.Shared.resolve_started ..

theorem compilerAt_eq (b : Builder) (name : String) (s : Site) :
    compilerAt b name s =
      (configAt b name s).toOption.map fun config =>
        (config.executable?.map (look b)).getD (s.toolchain.resolve b.env) := by
  unfold compilerAt
  rw [progress_prepareWatch]
  cases configAt b name s with
  | error e => rfl
  | ok config => exact congrArg some (resolve_readied b config s)

theorem tried_eq (b : Builder) (name : String) (happenings : List Happening) (s : Site) :
    tried b name happenings s = match progress (attempt b name happenings) s with
      | (.ok trace, s') => (some trace, s')
      | (.error e, s') => (none, { s' with
        output := s'.output ++ s!"Error: {e.message}" ++ "\n" ++
          "Please check your configuration and try again, attempting to reload in 3 seconds..." ++
          "\n" }) := by
  unfold tried progress orSay
  rw [StateT.run_bind]
  generalize (attempt b name happenings).run.run s = run
  obtain ⟨e | trace, s'⟩ := run
  · rfl
  · rfl

/-- An attempt leaves the script compiler that its configuration names, or the one before. -/
theorem resolve_tried (b : Builder) (name : String) (happenings : List Happening) (s : Site) :
    (tried b name happenings s).2.toolchain.resolve b.env =
      ((namedAt b name s).map (look b)).getD (s.toolchain.resolve b.env) := by
  have htoolchain : (tried b name happenings s).2.toolchain =
      (progress (attempt b name happenings) s).2.toolchain := by
    rw [tried_eq]
    generalize progress (attempt b name happenings) s = run
    obtain ⟨e | trace, s'⟩ := run
    · rfl
    · rfl
  rw [htoolchain, progress_attempt, namedAt]
  cases configAt b name s with
  | error e => rfl
  | ok config =>
    have halike := alike_self (b := builderOf b config) (s := readied b config s) rfl
    have hresolve := (halike.run (watchOf config) happenings).alike.resolve.trans
      (resolve_readied b config s)
    dsimp only
    generalize course _ (readied b config s) = run at hresolve
    obtain ⟨e | ⟨trace, rest⟩, s'⟩ := run
    · exact hresolve
    · exact hresolve

/-- Sites are alike when a watch starts on them if the same script compiler is found. -/
theorem alike_readied {said : String} {config : Config} (hfiles : s.files = t.files)
    (hhome : s.home = t.home) (houtput : s.output = said ++ t.output)
    (hresolve : (readied b config s).toolchain.resolve b.env =
      (readied b config t).toolchain.resolve b.env) :
    Alike b.env ((readied b config s).toolchain.resolve b.env) said False
      (readied b config s) (readied b config t) := by
  have hkept (s : Site) : (readied b config s).files = s.files ∧
      (readied b config s).home = s.home ∧ (readied b config s).output = s.output := by
    unfold readied configure
    cases config.executable? with
    | none => exact ⟨rfl, rfl, rfl⟩
    | some executable => exact ⟨rfl, rfl, rfl⟩
  obtain ⟨hfiles', hhome', houtput'⟩ := hkept s
  obtain ⟨hfiles'', hhome'', houtput''⟩ := hkept t
  constructor
  · rw [hfiles', hfiles'', hfiles]
  · rw [hhome', hhome'', hhome]
  · rfl
  · exact hresolve.symm
  · rw [houtput', houtput'', houtput]
  · exact False.elim

/-- Attempts on the same files with the same script compiler come to the same. -/
theorem tried_of_compilerAt {said : String} (happenings : List Happening)
    (hfiles : s.files = t.files) (hhome : s.home = t.home)
    (houtput : s.output = said ++ t.output)
    (hcompiler : compilerAt b name s = compilerAt b name t) :
    (tried b name happenings s).1 = (tried b name happenings t).1 ∧
      (tried b name happenings s).2.files = (tried b name happenings t).2.files ∧
      (tried b name happenings s).2.output = said ++ (tried b name happenings t).2.output := by
  have hconfig := configAt_congr hfiles hhome b name
  rw [tried_eq, tried_eq, progress_attempt, progress_attempt, hconfig]
  rw [compilerAt, compilerAt, progress_prepareWatch, progress_prepareWatch, hconfig] at hcompiler
  cases hload : configAt b name t with
  | error e =>
    dsimp only
    simp only [houtput, String.append_assoc, hfiles, and_self]
  | ok config =>
    rw [hload] at hcompiler
    -- From here on the configuration is the same, and the rest of the attempt cannot tell the sites
    -- apart.
    have halike := alike_readied hfiles hhome houtput (Option.some.inj hcompiler)
    obtain ⟨houtcome, halike'⟩ :=
      Alike.run (b := builderOf b config) halike (watchOf config) happenings
    dsimp only
    generalize course _ (readied b config s) = p at houtcome halike'
    generalize course _ (readied b config t) = q at houtcome halike'
    obtain ⟨outcome, s'⟩ := p
    obtain ⟨outcome', t'⟩ := q
    obtain rfl : outcome = outcome' := houtcome
    have hwritten : s'.files = t'.files := halike'.files
    have hsaid : s'.output = said ++ t'.output := halike'.output
    cases outcome with
    | error e => simp only [hwritten, hsaid, String.append_assoc, and_self]
    | ok result => exact ⟨rfl, hwritten, hsaid⟩

theorem attemptsAfresh_iff : AttemptsAfresh b name happenings s ↔
    ∀ config, configAt b name s = .ok config → config.executable? = none →
      s.toolchain.resolve b.env = usual b := by
  have hfiles : s.files = (s.afresh (.named {})).files := rfl
  have hhome : s.home = (s.afresh (.named {})).home := rfl
  have hsaid : s.output = s.output ++ (s.afresh (.named {})).output := String.append_empty.symm
  have hcompiler : compilerAt b name s = compilerAt b name (s.afresh (.named {})) ↔
      ∀ config, configAt b name s = .ok config → config.executable? = none →
        s.toolchain.resolve b.env = usual b := by
    rw [compilerAt_eq, compilerAt_eq, ← configAt_congr hfiles hhome b name]
    cases configAt b name s with
    | error e => simp [Except.toOption]
    | ok config =>
      cases hnamed : config.executable? with
      | none => simp [Except.toOption, hnamed, Site.afresh, usual]
      | some executable => simp [Except.toOption, hnamed]
  constructor
  · intro h
    exact hcompiler.mp h.compiler
  · intro h
    have hsame := hcompiler.mpr h
    obtain ⟨htrace, hwritten, houtput⟩ := tried_of_compilerAt happenings hfiles hhome hsaid hsame
    exact ⟨htrace, hwritten, houtput, hsame⟩

/-- What an attempt finds was left by the last one before it that named a script compiler. -/
theorem resolve_of_begins {fixes : List (List Edit)} {earlier later : List Site}
    (h : begins b name happenings fixes s = earlier ++ t :: later) :
    t.toolchain.resolve b.env =
      ((earlier.filterMap (namedAt b name)).getLast?.map (look b)).getD
        (s.toolchain.resolve b.env) := by
  induction fixes generalizing s earlier with
  | nil =>
    cases earlier with
    | nil =>
      obtain ⟨rfl, -⟩ := List.cons.inj h
      rfl
    | cons first earlier => simp [begins] at h
  | cons edits fixes ih =>
    cases earlier with
    | nil =>
      obtain ⟨rfl, -⟩ := List.cons.inj h
      rfl
    | cons first earlier =>
      obtain ⟨rfl, hrest⟩ := List.cons.inj h
      have htried := resolve_tried b name happenings s
      generalize tried b name happenings s = run at hrest htried
      obtain ⟨_ | trace, s'⟩ := run
      · rw [ih hrest, toolchain_applyEdits, htried]
        cases hnamed : namedAt b name s with
        | none => simp [hnamed]
        | some executable =>
          rw [List.filterMap_cons_some hnamed, List.getLast?_cons]
          cases (earlier.filterMap (namedAt b name)).getLast? with
          | none => rfl
          | some last => rfl
      · simp at hrest

theorem run_watch_nil (b : Builder) (name : String) (happenings : List Happening) (s : Site) :
    (watch b name happenings []).run s =
      ((tried b name happenings s).1.getD [.sleep retrySeconds, .outOfFixes],
        (tried b name happenings s).2) := by
  unfold watch tried
  rw [StateT.run_bind]
  generalize (orSay (attempt b name happenings)).run s = run
  obtain ⟨_ | trace, s'⟩ := run
  · rfl
  · rfl

theorem run_watch_cons (b : Builder) (name : String) (happenings : List Happening)
    (edits : List Edit) (fixes : List (List Edit)) (s : Site) :
    (watch b name happenings (edits :: fixes)).run s =
      match tried b name happenings s with
      | (some trace, s') => (trace, s')
      | (none, s') =>
        let next := (watch b name happenings fixes).run ((applyEdits edits).run s').2
        (.sleep retrySeconds :: next.1, next.2) := by
  rw [watch]
  unfold tried
  rw [StateT.run_bind]
  generalize (orSay (attempt b name happenings)).run s = run
  obtain ⟨_ | trace, s'⟩ := run
  · rfl
  · rfl

/-- A watch comes to what its last attempt comes to, with a wait after each one before it. -/
theorem watch_eq (b : Builder) (name : String) (happenings : List Happening)
    (fixes : List (List Edit)) (s : Site) :
    ∃ front last, begins b name happenings fixes s = front ++ [last] ∧
      (watch b name happenings fixes).run s =
        (List.replicate front.length (.sleep retrySeconds) ++
          (tried b name happenings last).1.getD [.sleep retrySeconds, .outOfFixes],
          (tried b name happenings last).2) := by
  induction fixes generalizing s with
  | nil => exact ⟨[], s, rfl, run_watch_nil b name happenings s⟩
  | cons edits fixes ih =>
    rw [run_watch_cons, begins]
    cases htried : tried b name happenings s with
    | mk trace? s' =>
      cases trace? with
      | some trace => exact ⟨[], s, rfl, by simp [htried]⟩
      | none =>
        obtain ⟨front, last, hbegins, hnext⟩ := ih ((applyEdits edits).run s').2
        refine ⟨s :: front, last, ?_, ?_⟩
        · exact congrArg (s :: ·) hbegins
        · dsimp only
          rw [hnext]
          rfl

end attempts

/-- A retry does what a fresh start would do, unless it names no script compiler and another is
found for the last one named before than for the usual one. -/
theorem attempt_afresh_iff (b : Builder) (name : String) (happenings : List Happening)
    (fixes : List (List Edit)) (files : FileTree) (home : Location) {earlier later : List Site}
    {s : Site} (h : begins b name happenings fixes { files, home } = earlier ++ s :: later) :
    AttemptsAfresh b name happenings s ↔
      ∀ config, configAt b name s = .ok config → config.executable? = none →
        ((earlier.filterMap (namedAt b name)).getLast?.map (look b)).getD (usual b) = usual b := by
  rw [attemptsAfresh_iff, resolve_of_begins h]
  rfl

/-- After an attempt that finds no configuration, one that finds a configuration which names no
script compiler is as good as a first. -/
theorem attempt_afresh_iff_mended :
    let b : Builder := { env := { locate := fun _ => none, execute := fun _ _ => ⟨0, "", ""⟩ } }
    let first : Site := { files := {}, home := [] }
    let mended : List Edit :=
      [⟨⟨.relative, ["build.yaml"]⟩, some "write: [{src: a.spl, dst: a.html}]\n".toUTF8⟩]
    ∃ second, begins b "build.yaml" [] [mended] first = [first] ++ second :: [] ∧
      (configAt b "build.yaml" second).toOption.map (·.executable?.isNone) = some true ∧
      AttemptsAfresh b "build.yaml" [] second := by
  intro b first mended
  have hloads : (begins b "build.yaml" [] [mended] first).map
      (fun s => (configAt b "build.yaml" s).toOption.map (·.executable?.isNone)) =
        [none, some true] := by
    decide +kernel +revert
  obtain ⟨second, hbegins⟩ : ∃ second,
      begins b "build.yaml" [] [mended] first = [first] ++ second :: [] := ⟨_, rfl⟩
  rw [hbegins] at hloads
  refine ⟨second, hbegins, (List.cons.inj (List.cons.inj hloads).2).1, ?_⟩
  exact (attempt_afresh_iff b "build.yaml" [] [mended] {} [] hbegins).mpr fun _ _ _ => rfl

/-- A script compiler that a failed attempt named is used for a page whose configuration names
none, although the usual one is not found. -/
theorem not_afresh_after_named :
    ¬ ∀ (b : Builder) (name : String) (happenings : List Happening) (fixes : List (List Edit))
      (files : FileTree) (home : Location) (earlier later : List Site) (s : Site),
      begins b name happenings fixes { files, home } = earlier ++ s :: later →
        AttemptsAfresh b name happenings s := by
  intro h
  let b : Builder :=
    { env :=
      { locate := fun name => if name = "tool" then some "/opt/bin/tool" else none
        execute := fun _ source => ⟨0, "/* compiled */" ++ source, ""⟩ } }
  let first : Site :=
    { files := ⟨[(["build.yaml"],
        .file "esbuild: tool\nwrite: [{src: a.spl, dst: a.html}]\n".toUTF8)]⟩
      home := [] }
  let mended : List Edit :=
    [⟨⟨.relative, ["build.yaml"]⟩, some "write: [{src: a.spl, dst: a.html}]\n".toUTF8⟩,
      ⟨⟨.relative, ["a.spl"]⟩, some "script let a = 1".toUTF8⟩]
  have hpages : (begins b "build.yaml" [] [mended] first).map (fun s =>
      ((tried b "build.yaml" [] s).2.files.entries =
        (tried b "build.yaml" [] (s.afresh (.named {}))).2.files.entries : Bool)) =
      [true, false] := by
    decide +kernel +revert
  obtain ⟨x, rest, hbegins, -, hrest⟩ := List.map_eq_cons_iff.mp hpages
  obtain ⟨s, later, rfl, hs, -⟩ := List.map_eq_cons_iff.mp hrest
  have hafresh : AttemptsAfresh b "build.yaml" [] s :=
    h b "build.yaml" [] [mended] first.files first.home [x] later s hbegins
  rw [hafresh.files] at hs
  simp at hs

end Session

end Pagewright
