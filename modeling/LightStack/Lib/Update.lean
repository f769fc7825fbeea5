import Mathlib.Logic.Function.Basic

/-!
# Functions changed at one point
-/

namespace LightStack.Lib

open Function

variable {α β : Type*} [DecidableEq α] {f : α → β} {a b : α} {x y : β}

/-- A value that is not the new one is an old one. -/
theorem of_update_eq (h : update f a x b = y) (hx : x ≠ y) : b ≠ a ∧ f b = y := by
  have hne : b ≠ a := by
    rintro rfl
    exact hx (by simpa using h)
  rw [update_of_ne hne] at h
  exact ⟨hne, h⟩

theorem forall_update {P : α → β → Prop} (hx : P a x) (h : ∀ b, b ≠ a → P b (f b)) (b : α) :
    P b (update f a x b) :=
  (forall_update_iff f (fun b y => P b y)).mpr ⟨hx, h⟩ b

end LightStack.Lib
