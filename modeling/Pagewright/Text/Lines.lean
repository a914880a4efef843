/-! Cutting a text at a separator and joining the parts again. -/
namespace Pagewright.Text

/-- The parts between the separators: always one more than there are separators. -/
def fields (sep : Char) : List Char → List (List Char)
  | [] => [[]]
  | c :: cs =>
    if c = sep then [] :: fields sep cs
    else match fields sep cs with
      | [] => [[c]]
      | part :: parts => (c :: part) :: parts

def joinWith (sep : Char) : List (List Char) → List Char
  | [] => []
  | [part] => part
  | part :: parts => part ++ sep :: joinWith sep parts

theorem joinWith_cons (sep : Char) (part : List Char) {parts : List (List Char)}
    (hne : parts ≠ []) : joinWith sep (part :: parts) = part ++ sep :: joinWith sep parts := by
  cases parts with
  | nil => exact absurd rfl hne
  | cons next parts => rfl

theorem joinWith_append (sep : Char) {front back : List (List Char)} (hfront : front ≠ [])
    (hback : back ≠ []) :
    joinWith sep (front ++ back) = joinWith sep front ++ sep :: joinWith sep back := by
  induction front with
  | nil => exact absurd rfl hfront
  | cons part parts ih =>
    rw [List.cons_append, joinWith_cons sep part (by simp [hback])]
    cases parts with
    | nil => rfl
    | cons next parts =>
      have hne := List.cons_ne_nil next parts
      rw [ih hne, joinWith_cons sep part hne, List.append_assoc, List.cons_append]

theorem fields_ne_nil (sep : Char) (cs : List Char) : fields sep cs ≠ [] := by
  cases cs with
  | nil => simp [fields]
  | cons c cs => simp only [fields]; split <;> (try split) <;> simp

theorem joinWith_fields (sep : Char) (cs : List Char) : joinWith sep (fields sep cs) = cs := by
  induction cs with
  | nil => rfl
  | cons c cs ih =>
    simp only [fields]
    cases h : fields sep cs with
    | nil => exact absurd h (fields_ne_nil sep cs)
    | cons part parts =>
      rw [h] at ih
      split
      · subst_vars; cases parts <;> simp_all [joinWith]
      · cases parts <;> simp_all [joinWith]

theorem fields_of_not_mem {sep : Char} {part : List Char} (h : sep ∉ part) :
    fields sep part = [part] := by
  induction part with
  | nil => rfl
  | cons c part ih =>
    simp only [List.mem_cons, not_or] at h
    simp [fields, Ne.symm h.1, ih h.2]

theorem not_mem_of_mem_fields {sep : Char} {cs part : List Char} (h : part ∈ fields sep cs) :
    sep ∉ part := by
  induction cs generalizing part with
  | nil => simp_all [fields]
  | cons c cs ih =>
    rw [fields] at h
    split at h
    · rcases List.mem_cons.mp h with rfl | h
      · simp
      · exact ih h
    next hc =>
      split at h
      · obtain rfl := List.mem_singleton.mp h
        simpa using Ne.symm hc
      next first parts heq =>
        rcases List.mem_cons.mp h with rfl | h
        · have := ih (heq ▸ List.mem_cons_self)
          simp [this, Ne.symm hc]
        · exact ih (heq ▸ List.mem_cons_of_mem _ h)

theorem fields_append (sep : Char) (front back : List Char) :
    fields sep (front ++ sep :: back) = fields sep front ++ fields sep back := by
  induction front with
  | nil => simp [fields]
  | cons c front ih =>
    rw [List.cons_append, fields, fields, ih]
    split
    · rfl
    · cases h : fields sep front with
      | nil => exact absurd h (fields_ne_nil sep front)
      | cons part parts => rfl

theorem fields_append_cons {sep : Char} {part : List Char} (h : sep ∉ part) (cs : List Char) :
    fields sep (part ++ sep :: cs) = part :: fields sep cs := by
  rw [fields_append, fields_of_not_mem h, List.singleton_append]

theorem fields_joinWith {sep : Char} {parts : List (List Char)} (hne : parts ≠ [])
    (h : ∀ part ∈ parts, sep ∉ part) : fields sep (joinWith sep parts) = parts := by
  induction parts with
  | nil => exact absurd rfl hne
  | cons part parts ih =>
    cases parts with
    | nil => exact fields_of_not_mem (h part (by simp))
    | cons next parts =>
      rw [joinWith, fields_append_cons (h part (by simp))]
      · rw [ih (by simp) fun p hp => h p (by simp [hp])]
      · simp

def lines (cs : List Char) : List (List Char) := fields '\n' cs

def unlines (parts : List (List Char)) : List Char := joinWith '\n' parts

def startsWith (pattern cs : List Char) : Bool := pattern.isPrefixOf cs

def endsWith (pattern cs : List Char) : Bool := pattern.isSuffixOf cs

/-- The text before and after the first place where the pattern stands. -/
def cutAt (pattern : List Char) : List Char → Option (List Char × List Char)
  | [] => if pattern.isEmpty then some ([], []) else none
  | c :: cs =>
    if startsWith pattern (c :: cs) then some ([], (c :: cs).drop pattern.length)
    else (cutAt pattern cs).map fun (before, after) => (c :: before, after)

def contains (pattern cs : List Char) : Bool := (cutAt pattern cs).isSome

end Pagewright.Text
