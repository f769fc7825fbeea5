import Mathlib.Data.List.Basic

/-!
# Windows of a list

`window l off len` are the `len` entries from `off` on.
-/

namespace LightStack.Lib

open List

variable {α : Type*}

def window (l : List α) (off len : Nat) : List α := (l.drop off).take len

def overwrite (l : List α) (off : Nat) : List α → List α
  | [] => l
  | x :: xs => overwrite (l.set off x) (off + 1) xs

theorem window_append (l l' : List α) (off len : Nat) :
    window (l ++ l') off len =
      window l off len ++ window l' (off - l.length) (len - (l.length - off)) := by
  simp only [window, drop_append, take_append, length_drop]

theorem window_window {l : List α} {off len i n : Nat} (hn : i + n ≤ len) :
    window (window l off len) i n = window l (off + i) n := by
  simp only [window, drop_take, drop_drop, take_take]
  congr 1
  omega

@[simp]
theorem length_overwrite (l : List α) (off : Nat) (xs : List α) :
    (overwrite l off xs).length = l.length := by
  induction xs generalizing l off with
  | nil => rfl
  | cons x xs ih => rw [overwrite, ih, length_set]

theorem window_set_of_disjoint {l : List α} {i off len : Nat} {x : α}
    (h : i < off ∨ off + len ≤ i) : window (l.set i x) off len = window l off len := by
  unfold window
  rcases h with h | h
  · rw [drop_set_of_lt h]
  · rw [drop_set, if_neg (by omega), take_set_of_le (by omega)]

theorem window_overwrite_of_disjoint {l xs : List α} {i off len : Nat}
    (h : i + xs.length ≤ off ∨ off + len ≤ i) :
    window (overwrite l i xs) off len = window l off len := by
  induction xs generalizing l i with
  | nil => rfl
  | cons x xs ih =>
    rw [length_cons] at h
    rw [overwrite, ih (by omega)]
    exact window_set_of_disjoint (by omega)

end LightStack.Lib
