import Pagewright.Proofs.Site.Retry

/-! What is observed in a run of the program: each failed attempt is followed by a wait, and at most
one observer is started, which is stopped and joined before the run returns. -/
namespace Pagewright

/-- The changes that come before an interrupt. -/
def changesIn : List Happening → Nat
  | [] => 0
  | .interrupt :: _ => 0
  | .edits _ :: rest => changesIn rest
  | .change _ _ :: rest => changesIn rest + 1

/-- An observer handles every change, whatever errors come of it, and is then stopped and joined. -/
theorem exists_handled (b : Builder) (w : Watch) (happenings : List Happening) (s : Site) :
    ∃ handled : List (Option BuildError), handled.length = changesIn happenings ∧
      ((w.observe b happenings).run s).1.1 = handled.map Trace.handled ++ [.stop, .join] := by
  induction happenings generalizing s with
  | nil => exact ⟨[], rfl, rfl⟩
  | cons happening rest ih =>
    cases happening with
    | interrupt => exact ⟨[], rfl, rfl⟩
    | edits edits => exact ih ((applyEdits edits).run s).2
    | change p isFolder =>
      unfold Watch.observe
      rw [StateT.run_bind]
      generalize ((w.handle b p isFolder).run).run s = run
      obtain ⟨result, s'⟩ := run
      obtain ⟨handled, hlength, htrace⟩ := ih s'
      have hnext (error? : Option BuildError) : ∃ all : List (Option BuildError),
          all.length = changesIn rest + 1 ∧
          Trace.handled error? :: ((w.observe b rest).run s').1.1 =
            all.map Trace.handled ++ [.stop, .join] := by
        refine ⟨error? :: handled, ?_, ?_⟩
        · rw [List.length_cons, hlength]
        · rw [htrace]
          rfl
      cases result with
      | error e => exact hnext (some e)
      | ok built => exact hnext none

namespace Session

/-- What an attempt does before it observes: it loads the configuration and builds every page once.
These are the folders to observe. -/
def opening (b : Builder) (name : String) : Session (List Path) := do
  let (b, w) ← prepareWatch b name
  ofBuilding (w.start b)

/-- The trace of an attempt, by what its opening comes to. None is left by an attempt that fails,
and without a folder to observe no observer is started. -/
inductive Traced (happenings : List Happening) :
    Except SessionError (List Path) → Option (List Trace) → Prop where
  | failed (e) : Traced happenings (.error e) none
  | idle : Traced happenings (.ok []) (some [])
  | observed {folders : List Path} {handled : List (Option BuildError)} (hne : folders ≠ [])
      (hlength : handled.length = changesIn happenings) :
      Traced happenings (.ok folders)
        (some (.start folders :: handled.map .handled ++ [.stop, .join]))

section attempts

variable {b : Builder} {name : String} {happenings : List Happening} {s last : Site}
  {failed : List Site}

theorem course_run (b : Builder) (w : Watch) (happenings : List Happening) (s : Site) :
    course (w.run b happenings) s = match course (w.start b) s with
      | (.error e, s') => (.error e, s')
      | (.ok folders, s') =>
        if folders.isEmpty then (.ok ([], happenings), s')
        else
          let observed := (w.observe b happenings).run s'
          (.ok (.start folders :: observed.1.1, observed.1.2), observed.2) := by
  unfold Watch.run
  rw [course_bind]
  generalize course (w.start b) s = run
  obtain ⟨e | folders, s'⟩ := run
  · rfl
  · dsimp only
    split <;> rfl

theorem progress_opening (b : Builder) (name : String) (s : Site) :
    progress (opening b name) s = match configAt b name s with
      | .error e => (.error e, s)
      | .ok config =>
        match course ((watchOf config).start (builderOf b config)) (readied b config s) with
        | (.ok folders, s') => (.ok folders, s')
        | (.error e, s') => (.error (.build e), s') := by
  unfold opening
  rw [progress_bind, progress_prepareWatch]
  cases configAt b name s with
  | error e => rfl
  | ok config =>
    dsimp only
    rw [progress_ofBuilding]
    generalize course _ (readied b config s) = run
    obtain ⟨e | folders, s'⟩ := run
    · rfl
    · rfl

/-- An attempt fails only in its opening, and observes what this one asks for. -/
theorem traced_tried (b : Builder) (name : String) (happenings : List Happening) (s : Site) :
    Traced happenings (progress (opening b name) s).1 (tried b name happenings s).1 := by
  rw [tried_eq, progress_attempt, progress_opening]
  cases configAt b name s with
  | error e => exact .failed e
  | ok config =>
    dsimp only
    rw [course_run]
    generalize course ((watchOf config).start (builderOf b config)) (readied b config s) = run
    obtain ⟨e | folders, s'⟩ := run
    · exact .failed _
    · dsimp only
      by_cases hfolders : folders = []
      · subst hfolders
        exact .idle
      · have hfolders' : folders.isEmpty = false := by simpa using hfolders
        obtain ⟨handled, hlength, htrace⟩ :=
          exists_handled (builderOf b config) (watchOf config) happenings s'
        simp only [hfolders', Bool.false_eq_true, if_false, htrace]
        exact .observed hfolders hlength

theorem begins_ne_nil (fixes : List (List Edit)) (s : Site) :
    begins b name happenings fixes s ≠ [] := by
  cases fixes <;> exact List.cons_ne_nil _ _

/-- Only a failed attempt is followed by another, and the last one fails only if nothing is left
to be mended. -/
theorem tried_of_begins {fixes : List (List Edit)}
    (h : begins b name happenings fixes s = failed ++ [last]) :
    (∀ t ∈ failed, (tried b name happenings t).1 = none) ∧
      ((tried b name happenings last).1 = none → failed.length = fixes.length) := by
  induction fixes generalizing s failed with
  | nil =>
    cases failed with
    | nil => simp
    | cons first failed => simp [begins] at h
  | cons edits fixes ih =>
    rw [begins] at h
    generalize htried : tried b name happenings s = run at h
    obtain ⟨trace?, s'⟩ := run
    cases failed with
    | nil =>
      obtain ⟨rfl, hrest⟩ := List.cons.inj h
      cases trace? with
      | none => exact absurd hrest (begins_ne_nil _ _)
      | some trace => simp [htried]
    | cons first failed =>
      obtain ⟨rfl, hrest⟩ := List.cons.inj h
      cases trace? with
      | none =>
        obtain ⟨hfailed, hlast⟩ := ih hrest
        refine ⟨List.forall_mem_cons.mpr ⟨by rw [htried], hfailed⟩, fun hnone => ?_⟩
        rw [List.length_cons, List.length_cons, hlast hnone]
      | some trace => simp at hrest

end attempts

/-- A run that watches ends without an error. It waits once after each failed attempt, and the last
attempt leaves at most one observer, which it stops and joins. -/
theorem exists_run_watch (b : Builder) (world : World) (s : Site) {args : List String}
    {name : String} (h : Command.ofArguments args = .build name false) :
    ∃ failed last trace?,
      begins b name world.happenings world.fixes s = failed ++ [last] ∧
      (∀ t ∈ failed, ∃ e, (progress (opening b name) t).1 = .error e) ∧
      Traced world.happenings (progress (opening b name) last).1 trace? ∧
      (trace? = none → failed.length = world.fixes.length) ∧
      progress ((Command.ofArguments args).run b world) s =
        (.ok (List.replicate failed.length (.sleep retrySeconds) ++
            trace?.getD [.sleep retrySeconds, .outOfFixes]),
          (tried b name world.happenings last).2) := by
  obtain ⟨failed, last, hbegins, hrun⟩ := watch_eq b name world.happenings world.fixes s
  obtain ⟨hfailed, hlast⟩ := tried_of_begins hbegins
  refine ⟨failed, last, _, hbegins, ?_, traced_tried b name world.happenings last, hlast, ?_⟩
  · intro t ht
    have htraced := traced_tried b name world.happenings t
    rw [hfailed t ht] at htraced
    generalize (progress (opening b name) t).1 = outcome at htraced
    cases htraced with
    | failed e => exact ⟨e, rfl⟩
  · have hwatch : progress (Command.run b world (.build name false)) s =
        (.ok ((watch b name world.happenings world.fixes).run s).1,
          ((watch b name world.happenings world.fixes).run s).2) := rfl
    rw [h, hwatch, hrun]

/-- An attempt without a configuration, and then one that observes the folder of its only source
and is interrupted. -/
theorem exists_run_watch_mended :
    let b : Builder := { env := { locate := fun _ => none, execute := fun _ _ => ⟨0, "", ""⟩ } }
    let world : World :=
      { happenings := [.change ⟨.relative, ["a.spl"]⟩ false, .interrupt]
        fixes := [[⟨⟨.relative, ["build.yaml"]⟩,
            some "write: [{src: a.spl, dst: a.html}]\n".toUTF8⟩,
          ⟨⟨.relative, ["a.spl"]⟩, some "p x".toUTF8⟩]] }
    let s : Site := { files := {}, home := [] }
    Command.ofArguments ["build.yaml"] = .build "build.yaml" false ∧
      ∃ failed last trace?,
        begins b "build.yaml" world.happenings world.fixes s = failed ++ [last] ∧
        (∀ t ∈ failed, ∃ e, (progress (opening b "build.yaml") t).1 = .error e) ∧
        Traced world.happenings (progress (opening b "build.yaml") last).1 trace? ∧
        (trace? = none → failed.length = world.fixes.length) ∧
        progress ((Command.ofArguments ["build.yaml"]).run b world) s =
          (.ok (List.replicate failed.length (.sleep retrySeconds) ++
              trace?.getD [.sleep retrySeconds, .outOfFixes]),
            (tried b "build.yaml" world.happenings last).2) := by
  intro b world s
  have hread : Command.ofArguments ["build.yaml"] = .build "build.yaml" false := by decide
  exact ⟨hread, exists_run_watch b world s hread⟩

end Session

end Pagewright
