import Pagewright.Html.Element

/-! Looking up keys of an attribute list, and writing them. -/
namespace Pagewright.Attributes

variable {attrs : Attributes} {key : String} {value : Option String}

theorem has_eq (attrs : Attributes) (key : String) :
    attrs.has key = (attrs.get? key).isSome := rfl

@[simp] theorem get?_cons (k : String) (v : Option String) (rest : Attributes) :
    get? ((k, v) :: rest) key = if k = key then some v else get? rest key := by
  rw [get?, List.lookup_cons]
  by_cases h : k = key
  · simp [h]
  · simp [h, get?, beq_eq_false_iff_ne.mpr (Ne.symm h)]

theorem get?_insert_self : (attrs.insert key value).get? key = some value := by
  induction attrs with
  | nil => simp [insert]
  | cons pair rest ih =>
    rw [insert]
    split
    next heq => rw [get?_cons, if_pos heq]
    next hne => rw [get?_cons, if_neg hne, ih]

theorem get?_insert_of_ne {other : String} (h : key ≠ other) :
    (attrs.insert key value).get? other = attrs.get? other := by
  induction attrs with
  | nil => rw [insert, get?_cons, if_neg h]
  | cons pair rest ih =>
    rw [insert]
    split
    next heq =>
      have hother : pair.1 ≠ other := heq ▸ h
      rw [get?_cons, get?_cons, if_neg hother, if_neg hother]
    next => rw [get?_cons, get?_cons, ih]

theorem insert_of_get? (h : attrs.get? key = some value) : attrs.insert key value = attrs := by
  induction attrs with
  | nil => simp [get?] at h
  | cons pair rest ih =>
    rw [get?_cons] at h
    rw [insert]
    split
    next heq =>
      rw [if_pos heq] at h
      rw [← Option.some.inj h]
    next hne =>
      rw [if_neg hne] at h
      rw [ih h]

theorem insert_of_notMem (value : Option String) (h : key ∉ attrs.map (·.1)) :
    attrs.insert key value = attrs ++ [(key, value)] := by
  induction attrs with
  | nil => rfl
  | cons pair rest ih =>
    obtain ⟨hne, hmore⟩ : key ≠ pair.1 ∧ key ∉ rest.map (·.1) := by simpa using h
    rw [insert, if_neg hne.symm, ih hmore]
    rfl

theorem foldl_insert (front : Attributes) (h : ((front ++ attrs).map (·.1)).Nodup) :
    attrs.foldl (fun attrs (key, value) => attrs.insert key value) front = front ++ attrs := by
  induction attrs generalizing front with
  | nil => simp
  | cons pair rest ih =>
    obtain ⟨key, value⟩ := pair
    have hkey : key ∉ front.map (·.1) := by
      rw [List.map_append, List.nodup_append] at h
      exact fun hmem => h.2.2 _ hmem _ (by simp) rfl
    rw [List.append_cons] at h
    rw [List.foldl_cons, List.append_cons, ← ih _ h, ← insert_of_notMem value hkey]

theorem ofPairs_of_nodup (h : (attrs.map (·.1)).Nodup) : ofPairs attrs = attrs :=
  foldl_insert [] h

end Pagewright.Attributes
