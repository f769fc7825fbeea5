import Mathlib.Data.List.Basic

/-!
# Sequences received in pieces

Pieces of a sequence that lie one behind the other between two positions.  They are the whole
stretch between these if and only if their sizes add up to its length.
-/

namespace LightStack.Lib

open List

structure Piece (α : Type*) where
  offset : Nat
  items : List α

variable {α : Type*} {hi lo mid : Nat} {p : Piece α} {ps qs : List (Piece α)}

def Piece.stop (p : Piece α) : Nat := p.offset + p.items.length

/-- What the piece has at a position is allowed there. -/
def Piece.Holds (allowed : Nat → α → Prop) (p : Piece α) : Prop :=
  ∀ k x, p.items[k]? = some x → allowed (p.offset + k) x

/-- In order, without overlap and none of them empty. -/
def Laid (hi : Nat) : Nat → List (Piece α) → Prop
  | lo, [] => lo ≤ hi
  | lo, p :: ps => lo ≤ p.offset ∧ p.items ≠ [] ∧ Laid hi p.stop ps

def Covers (ps : List (Piece α)) (i : Nat) : Prop := ∃ p ∈ ps, p.offset ≤ i ∧ i < p.stop

def size (ps : List (Piece α)) : Nat := (ps.flatMap Piece.items).length

@[simp]
theorem covers_nil {i : Nat} : ¬Covers ([] : List (Piece α)) i := by simp [Covers]

@[simp]
theorem covers_cons {i : Nat} :
    Covers (p :: ps) i ↔ (p.offset ≤ i ∧ i < p.stop) ∨ Covers ps i := by
  simp [Covers]

@[simp]
theorem covers_append {i : Nat} : Covers (ps ++ qs) i ↔ Covers ps i ∨ Covers qs i := by
  simp [Covers, or_and_right, exists_or]

@[simp]
theorem size_cons : size (p :: ps) = p.items.length + size ps := by simp [size]

@[simp]
theorem size_append : size (ps ++ qs) = size ps + size qs := by simp [size]

theorem Laid.bounds (h : Laid hi lo ps) :
    lo + size ps ≤ hi ∧ ∀ i, Covers ps i → lo ≤ i ∧ i < hi := by
  induction ps generalizing lo with
  | nil => exact ⟨h, fun i hi => absurd hi covers_nil⟩
  | cons p ps ih =>
    obtain ⟨hlo, -, hrest⟩ := h
    obtain ⟨hsize, hin⟩ := ih hrest
    rw [Piece.stop] at *
    refine ⟨by rw [size_cons]; omega, fun i hi => ?_⟩
    rcases covers_cons.mp hi with hi | hi
    · rw [Piece.stop] at hi
      omega
    · have := hin i hi
      omega

theorem Laid.le_offset (h : Laid hi lo ps) : ∀ p ∈ ps, lo ≤ p.offset := by
  intro p hp
  induction ps generalizing lo with
  | nil => cases hp
  | cons q ps ih =>
    rcases mem_cons.mp hp with rfl | hp
    · exact h.1
    · exact Nat.le_trans h.1 (Nat.le_trans (Nat.le_add_right _ _) (ih h.2.2 hp))

theorem laid_append : Laid hi lo (ps ++ qs) ↔ ∃ mid, Laid mid lo ps ∧ Laid hi mid qs := by
  induction ps generalizing lo with
  | nil =>
    refine ⟨fun h => ⟨lo, Nat.le_refl lo, h⟩, fun ⟨mid, hle, h⟩ => ?_⟩
    cases qs with
    | nil => exact Nat.le_trans hle h
    | cons q qs => exact ⟨Nat.le_trans hle h.1, h.2⟩
  | cons p ps ih => simp only [cons_append, Laid, ih, exists_and_left, and_assoc]

theorem Laid.mono (h : Laid mid lo ps) (hle : mid ≤ hi) : Laid hi lo ps := by
  rw [← append_nil ps, laid_append]
  exact ⟨mid, h, hle⟩

theorem Laid.full_iff (h : Laid hi lo ps) :
    lo + size ps = hi ↔ ∀ i, lo ≤ i → i < hi → Covers ps i := by
  induction ps generalizing lo with
  | nil =>
    refine ⟨fun hsize i => ?_, fun hall => ?_⟩
    · simp only [size, flatMap_nil, length_nil] at hsize
      omega
    · have hlo : ¬lo < hi := fun hlt => covers_nil (hall lo (Nat.le_refl lo) hlt)
      exact Nat.le_antisymm h (Nat.not_lt.mp hlo)
  | cons p ps ih =>
    obtain ⟨hlo, hne, hrest⟩ := h
    have hpos := length_pos_iff.mpr hne
    have hbounds := hrest.bounds
    have hstop : p.stop = p.offset + p.items.length := rfl
    rw [size_cons]
    constructor
    · intro hsize i hi hlt
      rw [covers_cons]
      by_cases hin : i < p.stop
      · exact .inl ⟨by omega, hin⟩
      · exact .inr ((ih hrest).mp (by omega) i (by omega) hlt)
    · intro hall
      have hstart : p.offset = lo := by
        rcases covers_cons.mp (hall lo (Nat.le_refl lo) (by omega)) with hfirst | hlater
        · omega
        · have := hbounds.2 lo hlater
          omega
      have hsize := (ih hrest).mpr fun i hi hlt => by
        rcases covers_cons.mp (hall i (by omega) hlt) with hfirst | hlater
        · omega
        · exact hlater
      omega

theorem Laid.holds_flatMap {allowed : Nat → α → Prop} (h : Laid hi lo ps)
    (hholds : ∀ p ∈ ps, p.Holds allowed) (hfull : lo + size ps = hi) {k : Nat} {x : α}
    (hx : (ps.flatMap Piece.items)[k]? = some x) : allowed (lo + k) x := by
  induction ps generalizing lo k with
  | nil => simp at hx
  | cons p ps ih =>
    obtain ⟨hp, hps⟩ := forall_mem_cons.mp hholds
    obtain ⟨hlo, -, hrest⟩ := h
    have hbounds := hrest.bounds.1
    have hstop : p.stop = p.offset + p.items.length := rfl
    rw [size_cons] at hfull
    obtain rfl : p.offset = lo := by omega
    rw [flatMap_cons, getElem?_append] at hx
    split at hx
    · exact hp k x hx
    · have := ih hrest hps (by omega) hx
      rwa [show p.stop + (k - p.items.length) = p.offset + k by omega] at this

end LightStack.Lib
