import Mathlib.Data.List.Basic

/-!
# Bounded FIFO rings

A FIFO queue that never holds more than `cap` entries.
-/

namespace LightStack.Lib

open List

structure Ring (α : Type*) (cap : Nat) where
  items : List α
  bounded : items.length ≤ cap

namespace Ring

variable {α : Type*} {cap : Nat}

@[ext]
theorem ext_items {r r' : Ring α cap} (h : r.items = r'.items) : r = r' := by
  cases r
  cases r'
  cases h
  rfl

def empty : Ring α cap := ⟨[], Nat.zero_le cap⟩

def count (r : Ring α cap) : Nat := r.items.length

def freeCount (r : Ring α cap) : Nat := cap - r.count

def enqueue (r : Ring α cap) (x : α) : Option (Ring α cap) :=
  if h : r.items.length < cap then
    some ⟨r.items ++ [x], by simpa using Nat.succ_le_of_lt h⟩
  else none

def enqueueBulk (r : Ring α cap) (xs : List α) : Option (Ring α cap) :=
  if h : r.items.length + xs.length ≤ cap then
    some ⟨r.items ++ xs, by simpa using h⟩
  else none

def dequeue (r : Ring α cap) : Option (α × Ring α cap) :=
  match r with
  | ⟨[], _⟩ => none
  | ⟨x :: rest, h⟩ => some (x, ⟨rest, Nat.le_of_succ_le h⟩)

def dequeueBulk (r : Ring α cap) (n : Nat) : Option (List α × Ring α cap) :=
  if n ≤ r.items.length then
    some (r.items.take n, ⟨r.items.drop n, Nat.le_trans (by simp) r.bounded⟩)
  else none

def enqueueBurst (r : Ring α cap) (xs : List α) : Ring α cap :=
  ⟨r.items ++ xs.take r.freeCount, by
    have hbounded := r.bounded
    rw [length_append, length_take]
    unfold freeCount count
    omega⟩

def dequeueBurst (r : Ring α cap) (n : Nat) : List α × Ring α cap :=
  (r.items.take n, ⟨r.items.drop n, Nat.le_trans (drop_sublist n _).length_le r.bounded⟩)

@[simp]
theorem items_empty : (empty : Ring α cap).items = [] := rfl

theorem enqueue_eq_some_iff {r r' : Ring α cap} {x : α} : r.enqueue x = some r' ↔
      r.items.length < cap ∧ r'.items = r.items ++ [x] := by
  unfold enqueue
  split
  · rename_i h
    simp only [Option.some.injEq, h, true_and]
    constructor
    · rintro rfl
      rfl
    · intro hitems
      ext1
      exact hitems.symm
  · rename_i h
    simp [h]

theorem enqueue_eq_none_iff {r : Ring α cap} {x : α} :
    r.enqueue x = none ↔ r.items.length = cap := by
  have hbounded := r.bounded
  unfold enqueue
  split
  · simp
    omega
  · simp
    omega

theorem items_getD_enqueue (r : Ring α cap) (x : α) (hroom : r.items.length < cap) :
    ((r.enqueue x).getD r).items = r.items ++ [x] := by
  simp [enqueue, hroom]

theorem dequeue_eq_some_iff {r r' : Ring α cap} {x : α} :
    r.dequeue = some (x, r') ↔ r.items = x :: r'.items := by
  rcases r with ⟨items, hbounded⟩
  rcases r' with ⟨items', hbounded'⟩
  cases items with
  | nil | cons => simp [dequeue]

theorem dequeue_eq_none_iff {r : Ring α cap} : r.dequeue = none ↔ r.items = [] := by
  rcases r with ⟨items, hbounded⟩
  cases items with
  | nil | cons => simp [dequeue]

theorem items_of_enqueueBulk {r r' : Ring α cap} {xs : List α}
    (h : r.enqueueBulk xs = some r') : r'.items = r.items ++ xs := by
  unfold enqueueBulk at h
  split at h
  · cases h
    rfl
  · cases h

theorem items_of_dequeueBulk {r r' : Ring α cap} {n : Nat} {xs : List α}
    (h : r.dequeueBulk n = some (xs, r')) : r.items = xs ++ r'.items := by
  unfold dequeueBulk at h
  split at h
  · obtain ⟨rfl, rfl⟩ := h
    simp
  · cases h

theorem dequeueBurst_of_le {r : Ring α cap} {n : Nat} (h : r.count ≤ n) :
    (r.dequeueBurst n).1 = r.items ∧ (r.dequeueBurst n).2.items = [] :=
  ⟨take_of_length_le h, drop_eq_nil_of_le h⟩

theorem items_enqueueBurst_of_le {r : Ring α cap} {xs : List α}
    (h : r.items.length + xs.length ≤ cap) : (r.enqueueBurst xs).items = r.items ++ xs := by
  have hfits : xs.length ≤ r.freeCount := by
    unfold freeCount count
    omega
  exact congrArg (r.items ++ ·) (take_of_length_le hfits)

end Ring

end LightStack.Lib
