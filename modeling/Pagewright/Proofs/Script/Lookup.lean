import Pagewright.Script.Bench

/-! A toolchain looks for its executable once, when it is first used, and everything that it ever
compiles goes by what it found then. -/
namespace Pagewright.Script

def Environment.lookup (env : Environment) (executable : String) : Lookup :=
  match env.locate executable with
  | some path => .found path
  | none => .missing

namespace Lookup

def notice (found : Lookup) (executable : String) : Notice :=
  match found with
  | .found path => .loaded path
  | .missing => .unavailable executable

def compile (found : Lookup) (env : Environment) (r : Request) : Except Rejection String :=
  match found with
  | .found path => r.run env path
  | .missing => .ok r.source

end Lookup

/-- A toolchain is started or compiles, in the environment of that moment. -/
structure Use where
  env : Environment
  request? : Option Request

namespace Use

/-- What is reported of a toolchain that has looked for its executable before. -/
def laterReport (u : Use) (found : Lookup) : Report where
  result? := u.request?.map (found.compile u.env)

/-- What is reported of a toolchain that looks for its executable now. -/
def firstReport (u : Use) (executable : String) : Report where
  sought := [executable]
  notices := [(u.env.lookup executable).notice executable]
  result? := u.request?.map ((u.env.lookup executable).compile u.env)

end Use

/-- What a toolchain has found in the end, and what is reported of its uses: all but the first go by
what the first one found. -/
def account (executable : String) : Option Lookup → List Use → Option Lookup × List Report
  | some found, uses => (some found, uses.map (·.laterReport found))
  | none, [] => (none, [])
  | none, first :: later =>
    let found := first.env.lookup executable
    (some found, first.firstReport executable :: later.map (·.laterReport found))

namespace Toolchain

variable {t : Toolchain} {found : Lookup}

theorem ready_iff : t.ready ↔ ∃ found, t.lookup? = some found := Option.isSome_iff_exists

theorem resolve_eq (t : Toolchain) (env : Environment) :
    t.resolve env = t.lookup?.getD (env.lookup t.executable) := rfl

theorem compile_eq (t : Toolchain) (env : Environment) (r : Request) :
    t.compile env r = (t.resolve env).compile env r := by
  unfold compile Lookup.compile
  cases t.resolve env <;> rfl

/-- Where executables are matters to a toolchain only for those that it looks for. -/
theorem resolve_relocate {env : Environment} {locate : String → Option String}
    (h : ∀ executable ∈ t.sought, locate executable = env.locate executable) :
    t.resolve { env with locate } = t.resolve env := by
  rw [resolve_eq, resolve_eq]
  cases hlookup : t.lookup? with
  | some found => rfl
  | none =>
    have hsought : t.sought = [t.executable] := by simp [sought, ready, hlookup]
    rw [hsought, List.forall_mem_singleton] at h
    simp [Environment.lookup, h]

theorem report_relocate {env : Environment} {locate : String → Option String}
    (h : ∀ executable ∈ t.sought, locate executable = env.locate executable)
    (request? : Option Request) : t.report { env with locate } request? = t.report env request? := by
  have hresolve := resolve_relocate h
  have hcompile : t.compile { env with locate } = t.compile env := by
    funext r
    rw [compile_eq, compile_eq, hresolve]
    rfl
  simp only [report, notices, hresolve, hcompile]

theorem started_of_ready (h : t.lookup? = some found) (env : Environment) :
    t.started env = t := by
  unfold started
  rw [resolve_eq, h]
  cases t
  simp_all

theorem report_of_ready (h : t.lookup? = some found) (u : Use) :
    t.report u.env u.request? = u.laterReport found := by
  have hcompile : t.compile u.env = found.compile u.env := by
    funext r
    rw [compile_eq, resolve_eq, h, Option.getD_some]
  simp [report, Use.laterReport, hcompile, sought, notices, ready, h]

theorem report_of_new (h : t.lookup? = none) (u : Use) :
    t.report u.env u.request? = u.firstReport t.executable := by
  have hresolve : t.resolve u.env = u.env.lookup t.executable := by
    rw [resolve_eq, h, Option.getD_none]
  have hcompile : t.compile u.env = (u.env.lookup t.executable).compile u.env := by
    funext r
    rw [compile_eq, hresolve]
  have hnotices : t.notices u.env = [(u.env.lookup t.executable).notice t.executable] := by
    unfold notices Lookup.notice
    rw [hresolve]
    simp only [ready, h, Option.isSome_none, Bool.false_eq_true, if_false]
    cases u.env.lookup t.executable <;> rfl
  simp [report, Use.firstReport, hcompile, hnotices, sought, ready, h]

/-- An account begins with the report of the first use. -/
theorem account_cons (t : Toolchain) (u : Use) (uses : List Use) :
    account t.executable t.lookup? (u :: uses) =
      let rest := account t.executable (t.started u.env).lookup? uses
      (rest.1, t.report u.env u.request? :: rest.2) := by
  cases h : t.lookup? with
  | some found =>
    rw [started_of_ready h, h, report_of_ready h]
    rfl
  | none =>
    have hstarted : (t.started u.env).lookup? = some (u.env.lookup t.executable) := by
      simp [started, resolve_eq, h]
    rw [hstarted, report_of_new h]
    rfl

end Toolchain

namespace Job

/-- The toolchain that a job uses. -/
def handle? (b : Bench) : Job → Option Nat
  | .start handle | .compile handle _ => if handle < b.tools.length then some handle else none
  | .startShared | .compileShared _ => some b.shared
  | .configure _ | .change _ => none

def request? : Job → Option Request
  | .compile _ request | .compileShared request => some request
  | _ => none

end Job

/-- What a job may come to: it uses a toolchain, brings a new one, or leaves all as they are. -/
inductive Performed (b : Bench) (job : Job) : Report × Bench → Prop where
  | used {handle : Nat} {t : Toolchain} (hhandle : job.handle? b = some handle)
      (htool : b.tools[handle]? = some t) (hother : ∀ executable, job ≠ .configure executable) :
      Performed b job (t.report b.env job.request?, b.put handle (t.started b.env))
  | configured {executable : String} (hjob : job = .configure executable) :
      Performed b job ({}, b.configure executable)
  | passed {b' : Bench} (hhandle : job.handle? b = none) (htools : b'.tools = b.tools)
      (hshared : b'.shared = b.shared) (hother : ∀ executable, job ≠ .configure executable) :
      Performed b job ({}, b')

/-- What no job changes: toolchains that are ready, those that it does not use, and which one is
shared. Only a configuration brings another shared one, which is not ready. -/
structure Keeps (b : Bench) (job : Job) (b' : Bench) : Prop where
  ready : ∀ (handle : Nat) (t : Toolchain), b.tools[handle]? = some t → t.ready →
    b'.tools[handle]? = some t
  others : ∀ handle < b.tools.length, job.handle? b ≠ some handle →
    b'.tools[handle]? = b.tools[handle]?
  shared : (∀ executable, job ≠ .configure executable) → b'.shared = b.shared
  configured : ∀ executable, job = .configure executable →
    b'.tools = b.tools ++ [{ executable := executable }] ∧ b'.shared = b.tools.length

namespace Bench

def after (b : Bench) (jobs : List Job) : Bench := jobs.foldl (fun b job => (b.perform job).2) b

/-- The uses of a toolchain, each with what is reported of it. -/
def usesOf (handle : Nat) : Bench → List Job → List (Use × Report)
  | _, [] => []
  | b, job :: rest =>
    let (report, b') := b.perform job
    if job.handle? b = some handle then (⟨b.env, job.request?⟩, report) :: usesOf handle b' rest
    else usesOf handle b' rest

/-- What a toolchain has found so far; one that is not there yet has found nothing. -/
def found? (b : Bench) (handle : Nat) : Option Lookup := b.tools[handle]?.bind (·.lookup?)

variable {b : Bench} {handle : Nat} {t : Toolchain}

theorem performed_use {job : Job} (hhandle : job.handle? b =
      if handle < b.tools.length then some handle else none)
    (hother : ∀ executable, job ≠ .configure executable) :
    Performed b job (b.use handle job.request?) := by
  unfold use
  cases htool : b.tools[handle]? with
  | none =>
    have hge : ¬ handle < b.tools.length := fun hlt => by
      rw [List.getElem?_eq_getElem hlt] at htool
      cases htool
    exact .passed (hhandle.trans (if_neg hge)) rfl rfl hother
  | some t =>
    obtain ⟨hlt, -⟩ := List.getElem?_eq_some_iff.mp htool
    exact .used (hhandle.trans (if_pos hlt)) htool hother

theorem performed (b : Bench) (job : Job) : Performed b job (b.perform job) := by
  cases job with
  | start handle => exact performed_use rfl nofun
  | compile handle request => exact performed_use rfl nofun
  | startShared => exact performed_use (if_pos b.shared_lt).symm nofun
  | compileShared request => exact performed_use (if_pos b.shared_lt).symm nofun
  | configure executable => exact .configured rfl
  | change env => exact .passed rfl rfl rfl nofun

theorem tools_put (b : Bench) (handle i : Nat) (t : Toolchain) (hlt : handle < b.tools.length) :
    (b.put handle t).tools[i]? = if i = handle then some t else b.tools[i]? := by
  unfold put
  rw [List.getElem?_set]
  by_cases hi : i = handle
  · subst hi
    simp [hlt]
  · simp [hi, Ne.symm hi]

theorem keeps_perform (b : Bench) (job : Job) : Keeps b job (b.perform job).2 := by
  have h := performed b job
  generalize b.perform job = performed at h
  cases h with
  | @used handle t hhandle htool hother =>
    obtain ⟨hlt, -⟩ := List.getElem?_eq_some_iff.mp htool
    constructor
    · intro i t' hi hready
      rw [tools_put _ _ _ _ hlt]
      split
      next heq =>
        subst heq
        obtain rfl : t = t' := Option.some.inj (htool.symm.trans hi)
        obtain ⟨found, hfound⟩ := Toolchain.ready_iff.mp hready
        rw [Toolchain.started_of_ready hfound]
      next => exact hi
    · intro i hi hunused
      have hne : i ≠ handle := by
        rintro rfl
        exact hunused hhandle
      rw [tools_put _ _ _ _ hlt, if_neg hne]
    · exact fun _ => rfl
    · exact fun executable hjob => absurd hjob (hother executable)
  | @configured executable hjob =>
    subst hjob
    constructor
    · intro i t hi _
      exact List.getElem?_append_left (List.getElem?_eq_some_iff.mp hi).1 ▸ hi
    · exact fun i hi _ => List.getElem?_append_left hi
    · exact fun h => absurd rfl (h executable)
    · rintro _ ⟨⟩
      exact ⟨rfl, rfl⟩
  | @passed b' hhandle htools hshared hother =>
    constructor
    · exact fun i t hi _ => htools ▸ hi
    · exact fun i _ _ => congrArg (·[i]?) htools
    · exact fun _ => hshared
    · exact fun executable hjob => absurd hjob (hother executable)

theorem exists_use {job : Job} (h : job.handle? b = some handle) :
    ∃ t, b.tools[handle]? = some t ∧ (b.perform job).1 = t.report b.env job.request? ∧
      (b.perform job).2.tools[handle]? = some (t.started b.env) := by
  have hperformed := performed b job
  generalize b.perform job = result at hperformed
  cases hperformed with
  | @used handle' t hhandle htool _ =>
    obtain rfl : handle' = handle := Option.some.inj (hhandle.symm.trans h)
    obtain ⟨hlt, -⟩ := List.getElem?_eq_some_iff.mp htool
    exact ⟨t, htool, rfl, by rw [tools_put _ _ _ _ hlt, if_pos rfl]⟩
  | configured hjob =>
    subst hjob
    cases h
  | passed hhandle =>
    rw [hhandle] at h
    cases h

/-- A toolchain keeps its executable. -/
theorem exists_perform (h : b.tools[handle]? = some t) (job : Job) :
    ∃ t', (b.perform job).2.tools[handle]? = some t' ∧ t'.executable = t.executable := by
  obtain ⟨hlt, -⟩ := List.getElem?_eq_some_iff.mp h
  by_cases hhandle : job.handle? b = some handle
  · obtain ⟨t', htool, -, hnext⟩ := exists_use hhandle
    obtain rfl : t' = t := Option.some.inj (htool.symm.trans h)
    exact ⟨_, hnext, rfl⟩
  · exact ⟨t, ((keeps_perform b job).others handle hlt hhandle).trans h, rfl⟩

theorem executable_after {t' : Toolchain} (h : b.tools[handle]? = some t) (jobs : List Job)
    (h' : (b.after jobs).tools[handle]? = some t') : t'.executable = t.executable := by
  induction jobs generalizing b t with
  | nil =>
    obtain rfl : t = t' := Option.some.inj (h.symm.trans h')
    rfl
  | cons job rest ih =>
    obtain ⟨next, hnext, hsame⟩ := exists_perform h job
    exact (ih hnext h').trans hsame

/-- A job that does not use a toolchain finds nothing for it; a new one has found nothing either. -/
theorem found?_perform_of_ne {job : Job} (h : job.handle? b ≠ some handle) :
    (b.perform job).2.found? handle = b.found? handle := by
  have hperformed := performed b job
  generalize b.perform job = result at hperformed
  unfold found?
  cases hperformed with
  | @used handle' t hhandle htool _ =>
    obtain ⟨hlt, -⟩ := List.getElem?_eq_some_iff.mp htool
    have hne : handle ≠ handle' := by
      rintro rfl
      exact h hhandle
    rw [tools_put _ _ _ _ hlt, if_neg hne]
  | @configured executable hjob =>
    have htools : (b.configure executable).tools = b.tools ++ [{ executable := executable }] := rfl
    rw [htools]
    rcases Nat.lt_trichotomy handle b.tools.length with hlt | rfl | hgt
    · rw [List.getElem?_append_left hlt]
    · simp
    · have hge : b.tools.length + 1 ≤ handle := hgt
      rw [List.getElem?_eq_none (by simpa using hge), List.getElem?_eq_none (by omega)]
  | passed _ htools _ _ => rw [htools]

theorem account_after (jobs : List Job) (h : (b.after jobs).tools[handle]? = some t) :
    (t.lookup?, (usesOf handle b jobs).map Prod.snd) =
      account t.executable (b.found? handle) ((usesOf handle b jobs).map Prod.fst) := by
  induction jobs generalizing b with
  | nil =>
    have hfound : b.found? handle = t.lookup? := by
      unfold found?
      exact congrArg (Option.bind · Toolchain.lookup?) h
    rw [hfound]
    cases htool : t.lookup? with
    | none => rfl
    | some found => rfl
  | cons job rest ih =>
    have hrest : ((b.perform job).2.after rest).tools[handle]? = some t := h
    have hih := ih hrest
    unfold usesOf
    dsimp only
    by_cases hhandle : job.handle? b = some handle
    · obtain ⟨t', htool, hreport, hnext⟩ := exists_use hhandle
      have hexecutable : t.executable = t'.executable := executable_after htool (job :: rest) h
      have hbefore : b.found? handle = t'.lookup? := by rw [found?, htool, Option.bind_some]
      have hbehind : (b.perform job).2.found? handle = (t'.started b.env).lookup? := by
        rw [found?, hnext, Option.bind_some]
      rw [hbehind, hexecutable] at hih
      rw [if_pos hhandle, List.map_cons, List.map_cons, hbefore, hexecutable,
        Toolchain.account_cons t' ⟨b.env, job.request?⟩]
      dsimp only
      rw [← hih, hreport]
    · rw [if_neg hhandle, hih, found?_perform_of_ne hhandle]

/-- A toolchain looks for its executable when it is first used and tells of it once. All that it
compiles goes by what it found then, and no job on another one, no configuration and no executable
that comes or goes changes this. -/
theorem looked_up_once (b : Bench) (jobs : List Job) :
    (∀ handle t, (b.after jobs).tools[handle]? = some t →
      (t.lookup?, (usesOf handle b jobs).map Prod.snd) =
        account t.executable (b.found? handle) ((usesOf handle b jobs).map Prod.fst)) ∧
    (∀ front job back, jobs = front ++ job :: back →
      Keeps (b.after front) job (b.after (front ++ [job]))) ∧
    ∀ (t : Toolchain) (env : Environment) (locate : String → Option String),
      (∀ executable ∈ t.sought, locate executable = env.locate executable) →
      ∀ request?, t.report { env with locate } request? = t.report env request? := by
  refine ⟨fun handle t h => account_after jobs h, ?_, fun t env locate h => t.report_relocate h⟩
  rintro front job back rfl
  have hafter : b.after (front ++ [job]) = ((b.after front).perform job).2 := by
    unfold after
    rw [List.foldl_append]
    rfl
  rw [hafter]
  exact keeps_perform (b.after front) job

/-- A configured toolchain is looked for when it first compiles, which fails, and stays where it was
found when nothing can be found any more. -/
theorem looked_up_once_configured :
    let nowhere : Environment := { locate := fun _ => none, execute := fun _ _ => ⟨0, "", ""⟩ }
    let path : Environment := { locate := some, execute := fun _ _ => ⟨1, "", ""⟩ }
    let r : Request := { source := "let a" }
    let b : Bench := { env := nowhere, tools := [{}, {}], shared := 1, shared_lt := by decide }
    let jobs : List Job := [.compileShared r, .change path, .configure "tool", .compileShared r,
      .start 0, .change nowhere, .compileShared r, .compile 1 r]
    let t : Toolchain := { executable := "tool", lookup? := some (.found "tool") }
    (b.after jobs).tools[2]? = some t ∧ (usesOf 2 b jobs).length = 2 ∧
      (t.lookup?, (usesOf 2 b jobs).map Prod.snd) =
        account t.executable (b.found? 2) ((usesOf 2 b jobs).map Prod.fst) ∧
      Keeps (b.after (jobs.take 2)) (.configure "tool") (b.after (jobs.take 3)) ∧
      t.report { nowhere with locate := some } (some r) = t.report nowhere (some r) := by
  intro nowhere path r b jobs t
  have ht : (b.after jobs).tools[2]? = some t := rfl
  obtain ⟨haccount, hkeeps, hreport⟩ := looked_up_once b jobs
  refine ⟨ht, rfl, haccount 2 t ht, hkeeps (jobs.take 2) _ (jobs.drop 3) rfl, ?_⟩
  exact hreport t nowhere some (by decide) (some r)

end Bench

end Pagewright.Script
