import Pagewright.Proofs.Site.FileTree
import Mathlib.Logic.Relation

/-! The place that a path names by its text alone. Two paths name one place exactly if each can be
respelled as the other, and where a path leads in a tree is the place that it names. -/
namespace Pagewright

namespace Path

variable {home : Location}

/-- One path in another spelling: from the top instead of from where relative paths begin, with one
leading slash instead of two, without a step down and up again, or without a step up from the top. -/
inductive Respelled (home : Location) : Path → Path → Prop
  | absolute (parts) : Respelled home ⟨.relative, parts⟩ ⟨.slash, home ++ parts⟩
  | oneSlash (parts) : Respelled home ⟨.doubleSlash, parts⟩ ⟨.slash, parts⟩
  | detour (root front back) {name : String} (hname : name ≠ "..") :
      Respelled home ⟨root, front ++ name :: ".." :: back⟩ ⟨root, front ++ back⟩
  | top (parts) : Respelled home ⟨.slash, ".." :: parts⟩ ⟨.slash, parts⟩

theorem step_name {loc : Location} {name : String} (h : name ≠ "..") :
    step loc name = loc ++ [name] := if_neg h

theorem step_up (loc : Location) : step loc ".." = loc.dropLast := if_pos rfl

/-- Names only lead down. -/
theorem foldl_step_names {names : List String} (h : ".." ∉ names) (loc : Location) :
    names.foldl step loc = loc ++ names := by
  induction names generalizing loc with
  | nil => exact (List.append_nil loc).symm
  | cons name rest ih =>
    obtain ⟨hname, hrest⟩ := not_or.mp (mt List.mem_cons.mpr h)
    rw [List.foldl_cons, step_name (Ne.symm hname), ih hrest, List.append_assoc,
      List.singleton_append]

theorem resolve_respelled (hhome : ".." ∉ home) {p q : Path} (h : Respelled home p q) :
    p.resolve home = q.resolve home := by
  cases h with
  | absolute parts =>
    have hdown : home.foldl step [] = home := by
      rw [foldl_step_names hhome, List.nil_append]
    change parts.foldl step home = (home ++ parts).foldl step []
    rw [List.foldl_append, hdown]
  | oneSlash parts => rfl
  | detour root front back hname =>
    unfold resolve
    rw [List.foldl_append, List.foldl_append, List.foldl_cons, List.foldl_cons, step_name hname,
      step_up, List.dropLast_concat]
    rfl
  | top parts => rfl

/-- From the top, every path can be respelled as the place that it names. -/
theorem eqvGen_respelled_foldl {loc : Location} (hloc : ".." ∉ loc) (parts : List String) :
    Relation.EqvGen (Respelled home) ⟨.slash, loc ++ parts⟩ ⟨.slash, parts.foldl step loc⟩ := by
  -- What has been walked holds no step up, so the next one takes back a name or stands at the top.
  induction parts generalizing loc with
  | nil =>
    rw [List.append_nil]
    exact .refl _
  | cons part rest ih =>
    rw [List.foldl_cons]
    by_cases hpart : part = ".."
    · subst hpart
      rw [step_up]
      rcases List.eq_nil_or_concat loc with rfl | ⟨front, name, rfl⟩
      · exact .trans _ _ _ (.rel _ _ (.top rest)) (ih hloc)
      · rw [List.concat_eq_append] at hloc ⊢
        simp only [List.mem_append, List.mem_singleton, not_or] at hloc
        obtain ⟨hfront, hname⟩ := hloc
        rw [List.append_assoc, List.singleton_append, List.dropLast_concat]
        exact .trans _ _ _ (.rel _ _ (.detour .slash front rest (Ne.symm hname))) (ih hfront)
    · have hnext : ".." ∉ loc ++ [part] := by simp [hloc, Ne.symm hpart]
      rw [step_name hpart, ← List.singleton_append, ← List.append_assoc]
      exact ih hnext

theorem eqvGen_respelled_resolve (hhome : ".." ∉ home) (p : Path) :
    Relation.EqvGen (Respelled home) p ⟨.slash, p.resolve home⟩ := by
  obtain ⟨root, parts⟩ := p
  cases root with
  | relative =>
    -- Here alone the way starts from home, which is walked already.
    exact .trans _ _ _ (.rel _ _ (.absolute parts)) (eqvGen_respelled_foldl hhome parts)
  | slash => exact eqvGen_respelled_foldl List.not_mem_nil parts
  | doubleSlash =>
    exact .trans _ _ _ (.rel _ _ (.oneSlash parts)) (eqvGen_respelled_foldl List.not_mem_nil parts)

/-- Two paths name one place exactly if one is the other in another spelling. -/
theorem resolve_eq_iff_eqvGen_respelled (hhome : ".." ∉ home) {p q : Path} :
    p.resolve home = q.resolve home ↔ Relation.EqvGen (Respelled home) p q := by
  constructor
  · intro h
    have hq := (eqvGen_respelled_resolve hhome q).symm
    rw [← h] at hq
    exact (eqvGen_respelled_resolve hhome p).trans _ _ _ hq
  · intro h
    induction h with
    | rel p q h => exact resolve_respelled hhome h
    | refl p => rfl
    | symm p q _ ih => exact ih.symm
    | trans p q r _ _ ihpq ihqr => exact ihpq.trans ihqr

theorem parts_ofString_slash (front back : String) :
    (ofString (front ++ "/" ++ back)).parts = (ofString front).parts ++ (ofString back).parts := by
  have htext : (front ++ "/" ++ back).toList = front.toList ++ '/' :: back.toList := by simp
  simp only [ofString, htext, Text.fields_append, List.filter_append, List.map_append]

theorem start_ofString (home : Location) (s : String) :
    (ofString s).start home = if s.toList.head? = some '/' then [] else home := by
  unfold start ofString
  cases s.toList with
  | nil => rfl
  | cons c cs =>
    by_cases hc : c = '/'
    · subst hc
      simp only [List.takeWhile_cons, List.head?_cons]
      split <;> simp_all
    · simp [hc]

/-- Neither a slash that is repeated nor a single full stop changes the place. -/
theorem resolve_ofString_filler {filler : String} (h : filler = "" ∨ filler = ".")
    (home : Location) (front back : String) :
    (ofString (front ++ "/" ++ (filler ++ "/" ++ back))).resolve home =
      (ofString (front ++ "/" ++ back)).resolve home := by
  have hfiller : (ofString filler).parts = [] := by rcases h with rfl | rfl <;> rfl
  have hstart (rest : String) : (ofString (front ++ "/" ++ rest)).start home =
      if (front.toList ++ ['/']).head? = some '/' then [] else home := by
    rw [start_ofString, String.toList_append, String.toList_append]
    cases front.toList <;> rfl
  unfold resolve
  rw [hstart, hstart, parts_ofString_slash, parts_ofString_slash, hfiller, List.nil_append,
    parts_ofString_slash]

/-- The name that a path ends in. Without one it ends in a step up or has no parts at all. -/
def name? (p : Path) : Option String := p.parts.getLast?.filter (· ≠ "..")

/-- A path that ends in a name lies directly under its parent. -/
theorem resolve_of_name? {p : Path} {name : String} (h : p.name? = some name) (home : Location) :
    p.resolve home = p.parent.resolve home ++ [name] := by
  obtain ⟨hlast, hname⟩ := Option.filter_eq_some_iff.mp h
  obtain ⟨front, hparts⟩ := List.getLast?_eq_some_iff.mp hlast
  have hstep : p.resolve home = step (p.parent.resolve home) name := by
    unfold resolve parent
    rw [hparts, List.dropLast_concat, List.foldl_append]
    rfl
  rw [hstep, step_name (by simpa using hname)]

end Path

namespace FileTree

variable {t : FileTree} {home loc loc' : Location} {p : Path}

theorem walk_append (t : FileTree) (loc : Location) (front back : List String) :
    t.walk loc (front ++ back) = t.walk loc front >>= fun loc' => t.walk loc' back := by
  induction front generalizing loc with
  | nil => rfl
  | cons part rest ih =>
    rw [List.cons_append, walk, walk]
    cases t.node? loc with
    | none => rfl
    | some node =>
      cases node with
      | folder => exact ih (Path.step loc part)
      | file content => rfl

theorem walk_cons_eq_ok {part : String} {rest : List String} :
    t.walk loc (part :: rest) = .ok loc' ↔
      t.node? loc = some .folder ∧ t.walk (Path.step loc part) rest = .ok loc' := by
  rw [walk]
  split
  · simp_all
  · simp_all
  · simp_all

theorem eq_foldl_of_walk {parts : List String} (h : t.walk loc parts = .ok loc') :
    loc' = parts.foldl Path.step loc := by
  induction parts generalizing loc with
  | nil => exact (Except.ok.inj h).symm
  | cons part rest ih => exact ih (walk_cons_eq_ok.mp h).2

/-- A path that leads anywhere leads to the place that it names. -/
theorem eq_resolve_of_place? (h : t.place? home p = some loc) : loc = p.resolve home :=
  eq_foldl_of_walk (place?_eq_some.mp h)

theorem isFolder_iff : t.isFolder home p ↔
    t.place? home p = some (p.resolve home) ∧ t.node? (p.resolve home) = some .folder := by
  unfold isFolder find?
  cases hplace : t.place? home p with
  | none =>
    obtain ⟨cause, hcause⟩ := place?_eq_none.mp hplace
    simp [hcause]
  | some loc =>
    obtain rfl := eq_resolve_of_place? hplace
    simp [place?_eq_some.mp hplace]

/-- A path lies directly in a folder: its place is one name below where the folder is. -/
def LiesIn (t : FileTree) (home : Location) (p folder : Path) : Prop :=
  ∃ loc name, t.place? home folder = some loc ∧ p.resolve home = loc ++ [name]

/-- A folder that is there with all folders above it. -/
def Reaches (t : FileTree) (loc : Location) : Prop := ∀ n, t.node? (loc.take n) = some .folder

theorem Reaches.node? (h : t.Reaches loc) : t.node? loc = some .folder := by
  have hloc := h loc.length
  rwa [List.take_length] at hloc

theorem Reaches.dropLast (h : t.Reaches loc) : t.Reaches loc.dropLast := by
  intro n
  rw [List.dropLast_eq_take, List.take_take]
  exact h _

theorem Reaches.concat (h : t.Reaches loc) {name : String}
    (hnode : t.node? (loc ++ [name]) = some .folder) : t.Reaches (loc ++ [name]) := by
  intro n
  rcases Nat.lt_or_ge loc.length n with hn | hn
  · rwa [List.take_of_length_le (by simpa [Nat.succ_le_iff] using hn)]
  · rw [List.take_append_of_le_length hn]
    exact h n

theorem Reaches.step (h : t.Reaches loc) {part : String}
    (hnode : t.node? (Path.step loc part) = some .folder) : t.Reaches (Path.step loc part) := by
  by_cases hpart : part = ".."
  · subst hpart
    exact h.dropLast
  · rw [Path.step_name hpart] at hnode ⊢
    exact h.concat hnode

/-- A way between folders leads through folders only. -/
theorem Reaches.walk {parts : List String} (h : t.Reaches loc) (hwalk : t.walk loc parts = .ok loc')
    (hnode : t.node? loc' = some .folder) : t.Reaches loc' := by
  induction parts generalizing loc with
  | nil =>
    obtain rfl := Except.ok.inj hwalk
    exact h
  | cons part rest ih =>
    have hrest := (walk_cons_eq_ok.mp hwalk).2
    refine ih (h.step ?_) hrest
    -- The next place is a folder since the way goes on from it or ends there.
    cases rest with
    | nil =>
      obtain rfl := Except.ok.inj hrest
      exact hnode
    | cons next rest => exact (walk_cons_eq_ok.mp hrest).1

theorem reaches_start (h : t.Reaches home) (p : Path) : t.Reaches (p.start home) := by
  unfold Path.start
  split
  · exact h
  · intro n
    rw [List.take_nil]
    rfl

/-- A path that ends in no name is that of a folder, if its parent is there. -/
theorem isFolder_of_name?_eq_none (hhome : t.Reaches home) (hname : p.name? = none)
    (hparent : t.isFolder home p.parent) : t.isFolder home p := by
  rcases List.eq_nil_or_concat p.parts with hparts | ⟨front, last, hparts⟩
  · have hsame : p.parent = p := by
      unfold Path.parent
      rw [hparts, List.dropLast_nil, ← hparts]
    rwa [← hsame]
  · rw [List.concat_eq_append] at hparts
    obtain rfl : last = ".." := by
      simpa [Path.name?, hparts, Option.filter_eq_none_iff] using hname
    obtain ⟨hplace, hnode⟩ := isFolder_iff.mp hparent
    have hfront : p.parent.parts = front := by
      unfold Path.parent
      rw [hparts, List.dropLast_concat]
    have hwalk : t.walk (p.start home) front = .ok (p.parent.resolve home) := by
      have hlocate := place?_eq_some.mp hplace
      unfold locate at hlocate
      rwa [hfront] at hlocate
    have hup : t.place? home p = some (p.parent.resolve home).dropLast := by
      refine place?_eq_some.mpr ?_
      unfold locate
      rw [hparts, walk_append, hwalk]
      exact walk_cons_eq_ok.mpr ⟨hnode, rfl⟩
    have hreaches := (reaches_start hhome p).walk hwalk hnode
    have hplaced := eq_resolve_of_place? hup
    refine isFolder_iff.mpr ⟨hup.trans (congrArg some hplaced), ?_⟩
    rw [← hplaced]
    exact hreaches.dropLast.node?

end FileTree

end Pagewright
