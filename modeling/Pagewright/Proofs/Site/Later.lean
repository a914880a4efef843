import Pagewright.Proofs.Site.History

/-! Whatever a build comes to, the place where relative paths begin stays, and what was said stays in
front of what is said. -/
namespace Pagewright

/-- A site later in a run: relative paths begin where they did, and more may have been said. -/
structure Site.Later (s t : Site) : Prop where
  home : t.home = s.home
  output : ∃ said, t.output = s.output ++ said

/-- A computation that leads to a later site, whatever it comes to. -/
def GoesOn {α : Type} (x : Building α) : Prop := ∀ s : Site, s.Later (course x s).2

namespace Site.Later

variable {s t u : Site}

theorem of_eq (hhome : t.home = s.home) (houtput : t.output = s.output) : s.Later t :=
  ⟨hhome, "", by rw [houtput, String.append_empty]⟩

theorem refl (s : Site) : s.Later s := of_eq rfl rfl

theorem trans (h : s.Later t) (h' : t.Later u) : s.Later u := by
  obtain ⟨said, hsaid⟩ := h.output
  obtain ⟨said', hsaid'⟩ := h'.output
  refine ⟨h'.home.trans h.home, said ++ said', ?_⟩
  rw [hsaid', hsaid, String.append_assoc]

end Site.Later

namespace GoesOn

variable {α β : Type} {b : Builder}

theorem bind {x : Building α} {f : α → Building β} (h : GoesOn x) (hnext : ∀ a, GoesOn (f a)) :
    GoesOn (x >>= f) := by
  intro s
  have hs := h s
  rw [course_bind]
  generalize course x s = run at hs
  obtain ⟨e | a, s'⟩ := run
  · exact hs
  · exact hs.trans (hnext a s')

theorem get_bind {f : Site → Building β} (h : ∀ s, GoesOn (f s)) : GoesOn (get >>= f) :=
  fun s => h s s

theorem pure (a : α) : GoesOn (Pure.pure a) := Site.Later.refl

theorem fail (e : BuildError) : GoesOn (throw e : Building α) := Site.Later.refl

theorem say (line : String) : GoesOn (Site.say line) :=
  fun _ => ⟨rfl, line ++ "\n", String.append_assoc ..⟩

theorem readText (p : Path) : GoesOn (Site.readText p) := Site.Later.refl

theorem change (f : Site → Except FileError FileTree) : GoesOn (Site.change f) := by
  intro s
  rw [course_change]
  cases f s with
  | error e => exact .refl s
  | ok files => exact .of_eq rfl rfl

theorem compileScript (r : Script.Request) : GoesOn (b.compileScript r) :=
  fun _ => .of_eq rfl rfl

theorem buildScript (target : ScriptTarget) : GoesOn (b.buildScript target) := by
  refine get_bind fun s => ?_
  split
  · refine (readText _).bind fun source => (compileScript _).bind fun result => ?_
    cases result with
    | error e =>
      cases e with
      | rejected e => exact say _
      | noName e => exact fail _
    | ok code => exact (change _).bind fun _ => (change _).bind fun _ => say _
  · exact say _

theorem forM {task : α → Building Unit} (htask : ∀ a, GoesOn (task a)) (tasks : List α) :
    GoesOn (tasks.forM task) := by
  induction tasks with
  | nil => exact pure ()
  | cons a rest ih => exact (htask a).bind fun _ => ih

theorem compileOutline (outline : Path) : GoesOn (b.compileOutline outline) := by
  intro s
  rw [course_compileOutline]
  split
  · exact .refl s
  · exact .of_eq rfl rfl

theorem buildPage (outline page : Path) : GoesOn (b.buildPage outline page) := by
  refine (compileOutline outline).bind fun html => ?_
  split
  · exact say _
  · refine (change _).bind fun _ => (say _).bind fun _ => ?_
    split
    · exact get_bind fun s => forM buildScript _
    · exact pure ()

theorem build (b : Builder) (pages : Pages) : GoesOn (b.build pages) := by
  refine forM ?_ pages
  rintro ⟨outline, page⟩
  exact buildPage outline page

end GoesOn

end Pagewright
