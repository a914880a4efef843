import Pagewright.Proofs.Page.Compilation
import Pagewright.Site.Watch

/-! A build depends on the files alone: neither earlier pages nor earlier builds, also those that
failed, leave anything behind that a later one could show. -/
namespace Pagewright

/-- Compiles sources one after another, with one toolchain for all. -/
def compileInTurn (env : Script.Environment) (options : Options) (render : String → String) :
    Script.Shared → List String → List Compiled
  | _, [] => []
  | tool, source :: rest =>
    let compiled := compilePage env options render tool source
    compiled :: compileInTurn env options render compiled.toolchain rest

theorem map_answer_compileInTurn (env : Script.Environment) (options : Options)
    (render : String → String) {tool tool' : Script.Shared}
    (h : tool.resolve env = tool'.resolve env) (sources : List String) :
    (compileInTurn env options render tool sources).map Compiled.answer =
      sources.map fun source => (compilePage env options render tool' source).answer := by
  induction sources generalizing tool with
  | nil => rfl
  | cons source rest ih =>
    have hnext := (resolve_compilePage env options render tool source).trans h
    rw [compileInTurn, List.map_cons, List.map_cons, answer_of_resolve env options render h,
      ih hnext]

/-- Sites that a build cannot tell apart: the files are the same, and so is the script compiler
that is found, whether or not it was looked up. The first has said something more. Once a page is
compiled, both have its script sources. -/
structure Alike (env : Script.Environment) (found : Script.Found) (said : String)
    (compiled : Prop) (s t : Site) : Prop where
  files : s.files = t.files
  home : s.home = t.home
  resolve : s.toolchain.resolve env = found
  resolve' : t.toolchain.resolve env = found
  output : s.output = said ++ t.output
  scriptSources : compiled → s.scriptSources = t.scriptSources

/-- What a computation on a site comes to, and the site it leaves. -/
def course {α : Type} (x : Building α) (s : Site) : Except BuildError α × Site := x.run.run s

section course

variable {α β : Type} (s : Site)

theorem course_bind (x : Building α) (f : α → Building β) :
    course (x >>= f) s = match course x s with
      | (.ok a, s') => course (f a) s'
      | (.error e, s') => (.error e, s') := by
  simp only [course, ExceptT.run_bind, StateT.run_bind]
  generalize x.run.run s = p
  rcases p with ⟨_ | _, _⟩ <;> rfl

theorem course_get_bind (f : Site → Building β) : course (get >>= f) s = course (f s) s := rfl

theorem course_say (line : String) :
    course (Site.say line) s = (.ok (), { s with output := s.output ++ line ++ "\n" }) := rfl

theorem course_readText (p : Path) :
    course (Site.readText p) s = ((s.files.readText s.home p).mapError .file, s) := rfl

theorem course_change (f : Site → Except FileError FileTree) :
    course (Site.change f) s = match f s with
      | .error e => (.error (.file e), s)
      | .ok files => (.ok (), { s with files }) := by
  rw [Site.change, course_get_bind]
  cases f s with
  | error e => rfl
  | ok files => rfl

theorem course_compileOutline (b : Builder) (outline : Path) :
    course (b.compileOutline outline) s = match s.files.readText s.home outline with
      | .error e => (.error (.file e), s)
      | .ok source =>
        let compiled := compilePage b.env b.options b.render s.toolchain source
        (.ok compiled.html,
          { s with
            notices := s.notices ++ compiled.notices
            toolchain := compiled.toolchain
            scriptSources := compiled.scriptSources }) := by
  rw [Builder.compileOutline, course_bind, course_readText]
  cases s.files.readText s.home outline <;> rfl

end course

/-- Two courses with the same outcome, on sites that stay alike. -/
structure SameCourse {α : Type} (env : Script.Environment) (found : Script.Found) (said : String)
    (compiled : Prop) (p q : Except BuildError α × Site) : Prop where
  outcome : p.1 = q.1
  alike : Alike env found said (compiled ∧ p.1.isOk) p.2 q.2

section SameCourse

variable {α β : Type} {env : Script.Environment} {found : Script.Found} {said : String}
  {compiled compiled' : Prop} {s t : Site}

theorem Alike.imp (h : Alike env found said compiled s t) (hless : compiled' → compiled) :
    Alike env found said compiled' s t :=
  { h with scriptSources := fun h' => h.scriptSources (hless h') }

namespace SameCourse

theorem ok (h : Alike env found said compiled s t) (a : α) :
    SameCourse env found said compiled (.ok a, s) (.ok a, t) := ⟨rfl, h.imp And.left⟩

theorem error (h : Alike env found said False s t) (e : BuildError) :
    SameCourse (α := α) env found said compiled (.error e, s) (.error e, t) :=
  ⟨rfl, h.imp fun h' => by simp [Except.isOk, Except.toBool] at h'⟩

theorem bind {x y : Building α} {f g : α → Building β}
    (h : SameCourse env found said compiled (course x s) (course y t))
    (hnext : ∀ a s' t', Alike env found said compiled s' t' →
      SameCourse env found said compiled' (course (f a) s') (course (g a) t')) :
    SameCourse env found said compiled' (course (x >>= f) s) (course (y >>= g) t) := by
  rw [course_bind, course_bind]
  obtain ⟨houtcome, halike⟩ := h
  generalize course x s = p at houtcome halike
  generalize course y t = q at houtcome halike
  obtain ⟨e | a, s'⟩ := p
  · obtain ⟨e' | b, t'⟩ := q
    · obtain rfl : e = e' := Except.error.inj houtcome
      exact error (halike.imp False.elim) e
    · cases houtcome
  · obtain ⟨e' | b, t'⟩ := q
    · cases houtcome
    · obtain rfl : a = b := Except.ok.inj houtcome
      exact hnext a s' t' (halike.imp fun h => ⟨h, rfl⟩)

end SameCourse

end SameCourse

namespace Alike

variable {env : Script.Environment} {found : Script.Found} {said : String} {compiled : Prop}
  {s t : Site}

theorem say (h : Alike env found said compiled s t) (line : String) :
    SameCourse env found said compiled (course (Site.say line) s) (course (Site.say line) t) := by
  have houtput : s.output ++ line ++ "\n" = said ++ (t.output ++ line ++ "\n") := by
    rw [h.output, String.append_assoc, String.append_assoc, String.append_assoc]
  rw [course_say, course_say]
  refine .ok ?_ ()
  exact ⟨h.files, h.home, h.resolve, h.resolve', houtput, h.scriptSources⟩

theorem readText (h : Alike env found said compiled s t) (p : Path) :
    SameCourse env found said compiled (course (Site.readText p) s)
      (course (Site.readText p) t) := by
  rw [course_readText, course_readText, h.files, h.home]
  cases t.files.readText t.home p with
  | error e => exact .error (h.imp False.elim) (.file e)
  | ok text => exact .ok h text

theorem change (h : Alike env found said compiled s t) {f : Site → Except FileError FileTree}
    (hf : f s = f t) :
    SameCourse env found said compiled (course (Site.change f) s) (course (Site.change f) t) := by
  rw [course_change, course_change, hf]
  cases f t with
  | error e => exact .error (h.imp False.elim) (.file e)
  | ok files =>
    refine .ok ?_ ()
    exact ⟨rfl, h.home, h.resolve, h.resolve', h.output, h.scriptSources⟩

theorem writeText (h : Alike env found said compiled s t) (p : Path) (text : String) :
    SameCourse env found said compiled (course (Site.writeText p text) s)
      (course (Site.writeText p text) t) :=
  h.change (by rw [h.files, h.home])

theorem makeFolder (h : Alike env found said compiled s t) (p : Path) :
    SameCourse env found said compiled (course (Site.makeFolder p) s)
      (course (Site.makeFolder p) t) :=
  h.change (by rw [h.files, h.home])

/-- Which compiler was found decides what a script comes to, and the log is no matter. -/
theorem compileScript {b : Builder} (h : Alike b.env found said compiled s t)
    (r : Script.Request) : SameCourse b.env found said compiled
      (course (b.compileScript r) s) (course (b.compileScript r) t) := by
  have hcourse (s : Site) : course (b.compileScript r) s = (.ok (s.toolchain.compile b.env r),
      { s with
        notices := s.notices ++ (s.toolchain.notices b.env).map .toolchain
        toolchain := s.toolchain.started b.env }) := rfl
  have hcompile := Script.Shared.compile_of_resolve (h.resolve.trans h.resolve'.symm) r
  have hstarted := Script.Shared.resolve_started s.toolchain b.env
  have hstarted' := Script.Shared.resolve_started t.toolchain b.env
  rw [hcourse, hcourse, hcompile]
  refine .ok ?_ _
  exact ⟨h.files, h.home, hstarted.trans h.resolve, hstarted'.trans h.resolve', h.output,
    h.scriptSources⟩

theorem buildScript {b : Builder} (h : Alike b.env found said compiled s t)
    (target : ScriptTarget) :
    SameCourse b.env found said compiled (course (b.buildScript target) s)
      (course (b.buildScript target) t) := by
  rw [Builder.buildScript, course_get_bind, course_get_bind, h.files, h.home]
  split
  · refine (h.readText _).bind fun source s t h => (h.compileScript _).bind fun result s t h => ?_
    cases result with
    | error e =>
      cases e with
      | rejected e => exact h.say _
      | noName e => exact .error (h.imp False.elim) (.script e)
    | ok code =>
      refine (h.makeFolder _).bind fun _ s t h => (h.writeText _ _).bind fun _ s t h => ?_
      exact h.say _
  · exact h.say _

/-- A list of tasks keeps sites alike if each task does. -/
theorem forM {α : Type} {task : α → Building Unit}
    (htask : ∀ a s t, Alike env found said compiled s t →
      SameCourse env found said compiled (course (task a) s) (course (task a) t))
    (tasks : List α) (h : Alike env found said compiled s t) :
    SameCourse env found said compiled (course (tasks.forM task) s)
      (course (tasks.forM task) t) := by
  induction tasks generalizing s t with
  | nil => exact .ok h ()
  | cons a rest ih => exact (htask a s t h).bind fun _ s t h => ih h

/-- Compiling an outline leaves both sites with the script sources of its page. -/
theorem compileOutline {b : Builder} (h : Alike b.env found said compiled s t) (outline : Path) :
    SameCourse b.env found said True (course (b.compileOutline outline) s)
      (course (b.compileOutline outline) t) := by
  rw [course_compileOutline, course_compileOutline, h.files, h.home]
  cases t.files.readText t.home outline with
  | error e => exact .error (h.imp False.elim) (.file e)
  | ok source =>
    have hanswer := answer_of_resolve b.env b.options b.render (h.resolve.trans h.resolve'.symm)
      source
    obtain ⟨hhtml, hsources⟩ := Prod.mk.inj hanswer
    have htool := resolve_compilePage b.env b.options b.render s.toolchain source
    have htool' := resolve_compilePage b.env b.options b.render t.toolchain source
    dsimp only
    rw [hhtml]
    refine .ok ?_ _
    exact ⟨rfl, rfl, htool.trans h.resolve, htool'.trans h.resolve', h.output, fun _ => hsources⟩

theorem buildPage {b : Builder} (h : Alike b.env found said compiled s t) (outline page : Path) :
    SameCourse b.env found said False (course (b.buildPage outline page) s)
      (course (b.buildPage outline page) t) := by
  rw [Builder.buildPage]
  refine (h.compileOutline outline).bind fun html s t h => ?_
  have h' := h.imp False.elim
  split
  · exact h'.say _
  · refine (h.writeText page html).bind fun _ s t h => (h.say _).bind fun _ s t h => ?_
    have h' := h.imp False.elim
    split
    · rw [course_get_bind, course_get_bind, h.scriptSources trivial, Builder.buildScripts]
      exact forM (fun target _ _ h => h.buildScript target) _ h'
    · exact .ok h' ()

theorem build {b : Builder} (h : Alike b.env found said False s t) (pages : Pages) :
    SameCourse b.env found said False (course (b.build pages) s) (course (b.build pages) t) :=
  forM (fun pair _ _ h => h.buildPage pair.1 pair.2) pages h

theorem handle {b : Builder} (h : Alike b.env found said False s t) (w : Watch) (p : Path)
    (isFolder : Bool) : SameCourse b.env found said False (course (w.handle b p isFolder) s)
      (course (w.handle b p isFolder) t) := by
  rw [Watch.handle, course_get_bind, course_get_bind, h.home]
  dsimp only
  split
  · exact (h.say _).bind fun _ _ _ h => h.build w.pages
  · exact .ok h ()

end Alike

/-- What happens to a site between two builds, and the builds themselves. -/
inductive Act where
  | put (edits : List Edit)
  | delete (paths : List Path)
  | build
  | change (path : Path) (isFolder : Bool)

/-- A build that fails leaves what it has done. -/
def Act.run (b : Builder) (w : Watch) (s : Site) : Act → Site
  | .put edits => ((applyEdits edits).run s).2
  | .delete paths =>
    { s with files := paths.foldl (fun files p => files.erase (p.resolve s.home)) s.files }
  | .build => (course (b.build w.pages) s).2
  | .change p isFolder => (course (w.handle b p isFolder) s).2

/-- A site with the same files on which nothing was compiled. -/
def Site.afresh (s : Site) (toolchain : Script.Shared) : Site where
  files := s.files
  home := s.home
  toolchain

section history

variable {b : Builder} {w : Watch} {found : Script.Found} {s : Site}

theorem alike_self (h : s.toolchain.resolve b.env = found) : Alike b.env found "" False s s :=
  ⟨rfl, rfl, h, h, by simp, False.elim⟩

theorem toolchain_applyEdits (edits : List Edit) (s : Site) :
    ((applyEdits edits).run s).2.toolchain = s.toolchain := by
  change (edits.foldl (fun s e => e.apply s) s).toolchain = s.toolchain
  induction edits generalizing s with
  | nil => rfl
  | cons e rest ih => exact ih (e.apply s)

/-- Whatever happens, the same script compiler is found. -/
theorem resolve_run (h : s.toolchain.resolve b.env = found) (act : Act) :
    (act.run b w s).toolchain.resolve b.env = found := by
  cases act with
  | put edits => exact (congrArg (·.resolve b.env) (toolchain_applyEdits edits s)).trans h
  | delete paths => exact h
  | build => exact ((alike_self h).build w.pages).alike.resolve
  | change p isFolder => exact ((alike_self h).handle w p isFolder).alike.resolve

theorem resolve_foldl_run (h : s.toolchain.resolve b.env = found) (acts : List Act) :
    (acts.foldl (Act.run b w) s).toolchain.resolve b.env = found := by
  induction acts generalizing s with
  | nil => exact h
  | cons act rest ih => exact ih (resolve_run h act)

/-- A build on a site comes to what it comes to with fresh compilers. -/
theorem course_build_afresh {tool : Script.Shared}
    (h : s.toolchain.resolve b.env = tool.resolve b.env) (pages : Pages) :
    SameCourse b.env (s.toolchain.resolve b.env) s.output False
      (course (b.build pages) s) (course (b.build pages) (s.afresh tool)) := by
  have halike : Alike b.env (s.toolchain.resolve b.env) s.output False s (s.afresh tool) :=
    ⟨rfl, rfl, rfl, h.symm, (String.append_empty).symm, False.elim⟩
  exact halike.build pages

end history

/-- Compiling and building do not depend on what was compiled or built before. -/
theorem independent_of_history (b : Builder) (executable : Except Script.NoName String) :
    let tool := Script.Shared.configured executable
    (∀ sources, (compileInTurn b.env b.options b.render tool sources).map Compiled.answer =
      sources.map fun source => (compilePage b.env b.options b.render tool source).answer) ∧
    (∀ used source,
      let compiled := compilePage b.env b.options b.render used source
      let failed := ∃ cause,
        (outcome (readDocument (b.options.rules b.env used) source) {}).1 = .error cause
      (compiled.html = "" ↔ failed) ∧ (compiled.answer = ("", []) ↔ failed)) ∧
    ∀ (w : Watch) (files : FileTree) (home : Location) (acts : List Act),
      let s := acts.foldl (Act.run b w) { files, home, toolchain := tool }
      let next := course (b.build w.pages) s
      let fresh := course (b.build w.pages) (s.afresh tool)
      next.1 = fresh.1 ∧ next.2.files = fresh.2.files ∧
        next.2.output = s.output ++ fresh.2.output := by
  intro tool
  refine ⟨map_answer_compileInTurn b.env b.options b.render rfl, fun used source => ?_,
    fun w files home acts => ?_⟩
  · exact ⟨html_eq_empty_iff b.env b.options b.render used source,
      answer_eq_empty_iff b.env b.options b.render used source⟩
  · intro s next fresh
    have hresolve : s.toolchain.resolve b.env = tool.resolve b.env := resolve_foldl_run rfl acts
    have hsame := course_build_afresh hresolve w.pages
    exact ⟨hsame.outcome, hsame.alike.files, hsame.alike.output⟩

end Pagewright
