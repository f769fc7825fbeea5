import Mathlib.Logic.Function.Basic

/-!
# Mutually inverse partial maps

Two tables of optional entries that undo each other, when pairs are linked and unlinked in both.
-/

namespace LightStack.Lib

open Function

def PartialInverse {α β : Type*} (f : α → Option β) (g : β → Option α) : Prop :=
  ∀ a b, f a = some b ↔ g b = some a

namespace PartialInverse

variable {α β : Type*} {f : α → Option β} {g : β → Option α}

theorem empty : PartialInverse (fun _ : α => (none : Option β)) fun _ => none := by
  intro a b
  simp

theorem left_injective (h : PartialInverse f g) {a a' : α} {b : β}
    (ha : f a = some b) (ha' : f a' = some b) : a = a' := by
  have hb := (h a b).mp ha
  rw [(h a' b).mp ha'] at hb
  exact (Option.some.inj hb).symm

theorem ne_of_right_none (h : PartialInverse f g) {a : α} {b : β}
    (hb : g b = none) : f a ≠ some b := by
  intro ha
  rw [(h a b).mp ha] at hb
  cases hb

variable [DecidableEq α] [DecidableEq β]

theorem link (h : PartialInverse f g) {a : α} {b : β} (ha : f a = none) (hb : g b = none) :
    PartialInverse (update f a (some b)) (update g b (some a)) := by
  intro a' b'
  by_cases haa : a' = a
  · subst haa
    by_cases hbb : b' = b
    · subst hbb
      simp
    · have hg : g b' ≠ some a' := by
        intro hg
        rw [(h a' b').mpr hg] at ha
        cases ha
      simp [hbb, hg, Ne.symm hbb]
  · by_cases hbb : b' = b
    · subst hbb
      simp [haa, h.ne_of_right_none hb, Ne.symm haa]
    · simp [haa, hbb, h a' b']

theorem unlink (h : PartialInverse f g) {a : α} {b : β} (hab : f a = some b) :
    PartialInverse (update f a none) (update g b none) := by
  have hba := (h a b).mp hab
  intro a' b'
  by_cases haa : a' = a
  · subst haa
    by_cases hbb : b' = b
    · subst hbb
      simp
    · have hg : g b' ≠ some a' := by
        intro hg
        have hb' := (h a' b').mpr hg
        rw [hab] at hb'
        exact hbb (Option.some.inj hb').symm
      simp [hbb, hg]
  · by_cases hbb : b' = b
    · subst hbb
      have hf : f a' ≠ some b' := fun hf => haa (h.left_injective hf hab)
      simp [haa, hf]
    · simp [haa, hbb, h a' b']

end PartialInverse

end LightStack.Lib
