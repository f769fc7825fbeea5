import Mathlib.Data.List.Basic
import Mathlib.Logic.Function.Basic

/-!
# Rings with free-running indices

Indices are never reduced: the slot of an index is its residue modulo `size`.
-/

namespace LightStack.Lib

open Function List

structure IndexRing (α : Type*) (size : Nat) where
  slot : Nat → Option α
  head : Nat
  tail : Nat
  cons : Nat

namespace IndexRing

variable {α : Type*} {size : Nat}

def word (x : Int) : Nat := (x % 4294967296).toNat

def entries (r : IndexRing α size) : Nat := word (r.tail - r.cons)

def count (r : IndexRing α size) : Nat := r.entries % size

def freeEntries (r : IndexRing α size) : Nat := word (size - 1 + r.cons - r.head)

def get (r : IndexRing α size) (i : Nat) : Option α := r.slot (i % size)

def claim (r : IndexRing α size) (i : Nat) : IndexRing α size :=
  { r with head := i + 1 }

def publish (r : IndexRing α size) (i : Nat) (x : α) : IndexRing α size :=
  { r with slot := update r.slot (i % size) (some x), tail := i + 1 }

def dequeueBulk (r : IndexRing α size) (n : Nat) : Option (List (Option α) × IndexRing α size) :=
  if n ≤ r.entries then
    some ((List.range' r.cons n).map r.get, { r with cons := r.cons + n })
  else none

def items (r : IndexRing α size) : List (Option α) :=
  (List.range' r.cons (r.tail - r.cons)).map r.get

structure Window (r : IndexRing α size) : Prop where
  cons_le_tail : r.cons ≤ r.tail
  tail_lt : r.tail < r.cons + size
  size_le : size ≤ 4294967296

theorem length_items (r : IndexRing α size) : r.items.length = r.tail - r.cons := by simp [items]

theorem items_dequeued (r : IndexRing α size) (n : Nat) :
    ({ r with cons := r.cons + n } : IndexRing α size).items = r.items.drop n := by
  rw [items, items, ← map_drop, drop_range', Nat.mul_one]
  dsimp only
  rw [Nat.sub_add_eq]
  rfl

namespace Window

variable {r : IndexRing α size}

section

variable (h : r.Window)

include h

theorem entries_eq : r.entries = r.items.length := by
  have := h.cons_le_tail
  have := h.tail_lt
  have := h.size_le
  rw [length_items, entries, word]
  omega

theorem count_eq : r.count = r.items.length := by
  have := h.cons_le_tail
  have := h.tail_lt
  rw [count, h.entries_eq, length_items]
  exact Nat.mod_eq_of_lt (by omega)

theorem tail_succ_lt (hsettled : r.head = r.tail) (hroom : r.freeEntries ≠ 0) :
    r.tail + 1 < r.cons + size := by
  have := h.cons_le_tail
  have := h.tail_lt
  have := h.size_le
  rw [freeEntries, word, hsettled] at hroom
  omega

theorem claim (i : Nat) : (r.claim i).Window :=
  ⟨h.cons_le_tail, h.tail_lt, h.size_le⟩

theorem publish (hroom : r.tail + 1 < r.cons + size) (x : α) : (r.publish r.tail x).Window :=
  ⟨Nat.le_succ_of_le h.cons_le_tail, hroom, h.size_le⟩

theorem items_publish (x : α) : (r.publish r.tail x).items = r.items ++ [some x] := by
  have hle := h.cons_le_tail
  have hlength : r.tail + 1 - r.cons = (r.tail - r.cons) + 1 := by omega
  have hlast : r.cons + (r.tail - r.cons) = r.tail := by omega
  have hold : ∀ i ∈ List.range' r.cons (r.tail - r.cons), (r.publish r.tail x).get i = r.get i := by
    intro i hi
    obtain ⟨hfrom, hto⟩ := mem_range'_1.mp hi
    have hne : i % size ≠ r.tail % size := by
      intro heq
      -- two indices of one slot differ by a multiple of the size
      have hdvd := Nat.dvd_of_mod_eq_zero (Nat.sub_mod_eq_zero_of_mod_eq heq.symm)
      have := h.tail_lt
      exact absurd (Nat.le_of_dvd (by omega) hdvd) (by omega)
    exact update_of_ne hne _ _
  have hnew : (r.publish r.tail x).get r.tail = some x := update_self _ _ _
  change (List.range' r.cons (r.tail + 1 - r.cons)).map (r.publish r.tail x).get = _
  rw [hlength, List.range'_concat, map_append, map_congr_left hold]
  simp only [Nat.one_mul, hlast, map_cons, map_nil, hnew, items]

theorem dequeueBulk_eq {n : Nat} (hn : n ≤ r.items.length) :
    r.dequeueBulk n = some (r.items.take n, { r with cons := r.cons + n }) := by
  have hle : n ≤ r.tail - r.cons := r.length_items ▸ hn
  rw [dequeueBulk, if_pos (h.entries_eq ▸ hn), items, ← map_take,
    take_range'_of_length_ge hle]

theorem dequeued {n : Nat} (hn : n ≤ r.items.length) :
    ({ r with cons := r.cons + n } : IndexRing α size).Window := by
  have hle : n ≤ r.tail - r.cons := r.length_items ▸ hn
  have := h.cons_le_tail
  have := h.tail_lt
  exact ⟨by simp only; omega, by simp only; omega, h.size_le⟩

end

end Window

end IndexRing

end LightStack.Lib
