import Pagewright.Page.Resolution

/-! What resolving comes to: its answer or failure, and the workshop it leaves. -/
namespace Pagewright

def outcome {α : Type} (x : Resolving α) (w : Workshop) : Except Failure α × Workshop := x.run.run w

/-- A run from one workshop ends with an answer in another. -/
def Returns {α : Type} (x : Resolving α) (w : Workshop) (a : α) (w' : Workshop) : Prop :=
  outcome x w = (.ok a, w')

section outcome

variable {α β : Type} (w : Workshop)

@[simp] theorem outcome_pure (a : α) : outcome (pure a) w = (.ok a, w) := rfl

@[simp] theorem outcome_throw (e : Failure) :
    outcome (throw e : Resolving α) w = (.error e, w) := rfl

@[simp] theorem outcome_get : outcome get w = (.ok w, w) := rfl

@[simp] theorem outcome_modify (f : Workshop → Workshop) :
    outcome (modify f) w = (.ok (), f w) := rfl

theorem outcome_bind (x : Resolving α) (f : α → Resolving β) :
    outcome (x >>= f) w = match outcome x w with
      | (.ok a, w') => outcome (f a) w'
      | (.error e, w') => (.error e, w') := by
  simp only [outcome, ExceptT.run_bind, StateT.run_bind]
  generalize x.run.run w = p
  rcases p with ⟨_ | _, _⟩ <;> rfl

end outcome

namespace Returns

variable {α β : Type} {w w' w'' : Workshop}

theorem unique {x : Resolving α} {a b : α} (h : Returns x w a w') (h' : Returns x w b w'') :
    a = b ∧ w' = w'' := by
  simpa using h.symm.trans h'

@[simp] theorem pure_iff (a b : α) : Returns (pure a) w b w' ↔ b = a ∧ w' = w := by
  simp [Returns, eq_comm]

@[simp] theorem throw_iff (e : Failure) (a : α) : Returns (throw e) w a w' ↔ False := by
  simp [Returns]

@[simp] theorem get_iff (a : Workshop) : Returns get w a w' ↔ a = w ∧ w' = w := by
  simp [Returns, eq_comm]

@[simp] theorem modify_iff (f : Workshop → Workshop) (u : Unit) :
    Returns (modify f) w u w' ↔ w' = f w := by
  simp [Returns, eq_comm]

@[simp] theorem bind_iff (x : Resolving α) (f : α → Resolving β) (b : β) :
    Returns (x >>= f) w b w'' ↔ ∃ a w', Returns x w a w' ∧ Returns (f a) w' b w'' := by
  rw [Returns, outcome_bind]
  rcases h : outcome x w with ⟨_ | _, _⟩ <;> simp [Returns, h, and_assoc]

end Returns

end Pagewright
