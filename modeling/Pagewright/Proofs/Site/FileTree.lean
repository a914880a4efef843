import Pagewright.Site.FileTree

/-! Writing a file leaves every folder where it was, and so what every path leads to. -/
namespace Pagewright.FileTree

variable {t t' : FileTree} {home loc : Location} {p : Path}

theorem lookup_setEntry (loc l : Location) (node : FileNode)
    (entries : List (Location × FileNode)) :
    (setEntry loc node entries).lookup l = if l = loc then some node else entries.lookup l := by
  induction entries with
  | nil =>
    rw [setEntry, List.lookup_cons]
    by_cases h : l = loc
    · simp [h]
    · rw [beq_false_of_ne h, if_neg h]
  | cons entry rest ih =>
    obtain ⟨l', node'⟩ := entry
    unfold setEntry
    by_cases hloc : l' = loc
    · subst hloc
      rw [if_pos rfl, List.lookup_cons, List.lookup_cons]
      by_cases h : l = l'
      · simp [h]
      · rw [beq_false_of_ne h, if_neg h]
    · rw [if_neg hloc, List.lookup_cons, List.lookup_cons, ih]
      by_cases h : l = loc
      · have hne : l ≠ l' := fun h' => hloc (h'.symm.trans h)
        rw [beq_false_of_ne hne, if_pos h]
      · rw [if_neg h, if_neg h]

theorem node?_insert (hloc : loc ≠ []) (node : FileNode) (l : Location) :
    (t.insert loc node).node? l = if l = loc then some node else t.node? l := by
  unfold node? insert
  by_cases hl : l = []
  · have hne : l ≠ loc := fun h => hloc (h ▸ hl)
    simp [hl, Ne.symm hloc]
  · have hempty : l.isEmpty = false := by simp [hl]
    simp only [hempty]
    exact lookup_setEntry loc l node t.entries

/-- The place that a path leads to. -/
def place? (t : FileTree) (home : Location) (p : Path) : Option Location :=
  (t.locate home p).toOption

/-- The place where a file can be written, which no folder takes. -/
def room? (t : FileTree) (home : Location) (p : Path) : Option Location :=
  (t.place? home p).filter fun loc => t.node? loc ≠ some .folder

theorem room?_eq_some : t.room? home p = some loc ↔
    t.place? home p = some loc ∧ t.node? loc ≠ some .folder := by
  simp [room?, Option.filter_eq_some_iff]

theorem ne_nil_of_room? (h : t.room? home p = some loc) : loc ≠ [] := by
  rintro rfl
  exact (room?_eq_some.mp h).2 rfl

theorem place?_eq_some : t.place? home p = some loc ↔ t.locate home p = .ok loc := by
  unfold place?
  cases t.locate home p with
  | error cause => simp [Except.toOption]
  | ok loc' => simp [Except.toOption]

theorem place?_eq_none : t.place? home p = none ↔ ∃ cause, t.locate home p = .error cause := by
  unfold place?
  cases t.locate home p with
  | error cause => simp [Except.toOption]
  | ok loc' => simp [Except.toOption]

/-- What the file holds that a path leads to. -/
def bytes? (t : FileTree) (home : Location) (p : Path) : Option ByteArray :=
  (t.readBytes home p).toOption

theorem bytes?_eq (t : FileTree) (home : Location) (p : Path) :
    t.bytes? home p = (t.place? home p).bind fun loc =>
      match t.node? loc with
      | some (.file content) => some content
      | _ => none := by
  unfold bytes? readBytes place?
  cases t.locate home p with
  | error cause => rfl
  | ok loc =>
    simp only [bind, Except.bind, Except.toOption, Option.bind_some]
    cases t.node? loc with
    | none => rfl
    | some node => cases node <;> rfl

theorem readText_of_bytes? {content : ByteArray} (h : t.bytes? home p = some content) :
    t.readText home p = (Text.decode content).mapError .notText := by
  unfold bytes? at h
  unfold readText
  cases hread : t.readBytes home p with
  | error cause => simp [hread, Except.toOption] at h
  | ok content' =>
    obtain rfl : content' = content := by simpa [hread, Except.toOption] using h
    rfl

/-- If there is no file to be read, the error names the path. -/
theorem exists_readText_of_bytes? (h : t.bytes? home p = none) :
    ∃ cause, t.readText home p = .error (.refused cause p.text) := by
  unfold bytes? at h
  unfold readText
  cases hread : t.readBytes home p with
  | error cause => exact ⟨cause, rfl⟩
  | ok content => simp [hread, Except.toOption] at h

theorem writeText_of_room? (h : t.room? home p = some loc) (text : String) :
    t.writeText home p text = .ok (t.insert loc (.file text.toUTF8)) := by
  obtain ⟨hplace, hfree⟩ := room?_eq_some.mp h
  have hlocate := place?_eq_some.mp hplace
  unfold writeText
  rw [hlocate]
  exact if_neg hfree

theorem exists_writeText_of_room? (h : t.room? home p = none) (text : String) :
    ∃ cause, t.writeText home p text = .error (.refused cause p.text) := by
  unfold writeText
  cases hplace : t.place? home p with
  | none =>
    obtain ⟨cause, hcause⟩ := place?_eq_none.mp hplace
    rw [hcause]
    exact ⟨cause, rfl⟩
  | some loc =>
    have hfolder : t.node? loc = some .folder := Decidable.not_not.mp fun hfree => by
      rw [room?_eq_some.mpr ⟨hplace, hfree⟩] at h
      cases h
    rw [place?_eq_some.mp hplace]
    exact ⟨.isFolder, if_pos hfolder⟩

/-- Folders of one tree are folders of the other. -/
def SameFolders (t t' : FileTree) : Prop :=
  ∀ loc, t.node? loc = some .folder ↔ t'.node? loc = some .folder

theorem toOption_walk_cons (t : FileTree) (loc : Location) (part : String) (rest : List String) :
    (t.walk loc (part :: rest)).toOption =
      if t.node? loc = some .folder then (t.walk (Path.step loc part) rest).toOption else none := by
  rw [walk]
  cases hnode : t.node? loc with
  | none => rfl
  | some node =>
    cases node with
    | folder => rfl
    | file content => rfl

theorem SameFolders.walk (h : SameFolders t t') (parts : List String) (loc : Location) :
    (t.walk loc parts).toOption = (t'.walk loc parts).toOption := by
  induction parts generalizing loc with
  | nil => rfl
  | cons part rest ih => simp only [toOption_walk_cons, h loc, ih]

theorem SameFolders.place? (h : SameFolders t t') (home : Location) (p : Path) :
    t.place? home p = t'.place? home p :=
  h.walk _ _

theorem SameFolders.room? (h : SameFolders t t') (home : Location) (p : Path) :
    t.room? home p = t'.room? home p := by
  simp only [FileTree.room?, h.place? home p, h _, ne_eq]

/-- A path is read alike in trees that agree on the folders and at the place it leads to. -/
theorem SameFolders.bytes? (h : SameFolders t t')
    (hnode : ∀ loc, t.place? home p = some loc → t.node? loc = t'.node? loc) :
    t.bytes? home p = t'.bytes? home p := by
  rw [bytes?_eq, bytes?_eq, ← h.place? home p]
  cases hplace : t.place? home p with
  | none => rfl
  | some loc => simp only [Option.bind_some, hnode loc hplace]

theorem sameFolders_insert_file (hloc : t.room? home p = some loc) (content : ByteArray) :
    SameFolders t (t.insert loc (.file content)) := by
  intro l
  rw [node?_insert (ne_nil_of_room? hloc)]
  by_cases hl : l = loc
  · have hfree := (room?_eq_some.mp hloc).2
    simp [hl, hfree]
  · rw [if_neg hl]

end Pagewright.FileTree
