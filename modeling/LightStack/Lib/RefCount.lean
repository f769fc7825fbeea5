import Mathlib

/-!
# Reference counters of pooled objects

Dropping a reference returns the object to its pool exactly when the counter becomes zero.
-/

namespace LightStack.Lib

open Function List

structure RefCounts (Obj : Type*) (modulus : Nat) where
  count : Obj → Nat
  inPool : Obj → Bool
  doubleFree : Bool

namespace RefCounts

variable {Obj : Type*} [DecidableEq Obj] {modulus : Nat}

def drop (c : RefCounts Obj modulus) (x : Obj) : RefCounts Obj modulus :=
  if (c.count x + (modulus - 1)) % modulus = 0 then
    { count := update c.count x 0
      inPool := update c.inPool x true
      doubleFree := c.doubleFree || c.inPool x }
  else
    { c with
      count := update c.count x ((c.count x + (modulus - 1)) % modulus) }

def retain (c : RefCounts Obj modulus) (x : Obj) : RefCounts Obj modulus :=
  { c with count := update c.count x ((c.count x + 1) % modulus) }

def alloc (c : RefCounts Obj modulus) (x : Obj) : RefCounts Obj modulus :=
  { c with
    count := update c.count x 1
    inPool := update c.inPool x false }

def dropAll (c : RefCounts Obj modulus) (xs : List Obj) : RefCounts Obj modulus := xs.foldl drop c

def retainAll (c : RefCounts Obj modulus) (xs : List Obj) : RefCounts Obj modulus :=
  xs.foldl retain c

def allocAll (c : RefCounts Obj modulus) (xs : List Obj) : RefCounts Obj modulus := xs.foldl alloc c

structure Sound (c : RefCounts Obj modulus) : Prop where
  bounded : ∀ x, c.count x < modulus
  pool : ∀ x, c.inPool x = true ↔ c.count x = 0
  once : c.doubleFree = false

theorem count_cons_eq (x : Obj) (xs : List Obj) (y : Obj) :
    (x :: xs).count y = [x].count y + xs.count y := by
  rw [← count_append]
  rfl

theorem count_singleton_ne {x y : Obj} (hy : y ≠ x) : [x].count y = 0 :=
  count_eq_zero.mpr fun hmem => hy (mem_singleton.mp hmem)

variable {c : RefCounts Obj modulus}

omit [DecidableEq Obj] in
theorem Sound.drop_mod_eq (hc : c.Sound) {x : Obj} (hx : 0 < c.count x) :
    (c.count x + (modulus - 1)) % modulus = c.count x - 1 := by
  have hbound := hc.bounded x
  have hsum : c.count x + (modulus - 1) = c.count x - 1 + modulus := by omega
  rw [hsum, Nat.add_mod_right, Nat.mod_eq_of_lt (by omega)]

theorem Sound.drop_count (hc : c.Sound) {x : Obj} (hx : 0 < c.count x) (y : Obj) :
    (c.drop x).count y = c.count y - [x].count y := by
  have hmod := hc.drop_mod_eq hx
  unfold RefCounts.drop
  by_cases hy : y = x
  · subst hy
    split
    · rename_i hzero
      simp only [update_self, count_singleton_self]
      omega
    · simp [hmod]
  · have hcount := count_singleton_ne hy
    split <;> simp [hy, hcount]

theorem Sound.drop (hc : c.Sound) {x : Obj} (hx : 0 < c.count x) : (c.drop x).Sound := by
  have hmod := hc.drop_mod_eq hx
  have hcount := hc.drop_count hx
  have hout : c.inPool x = false := by
    rw [← Bool.not_eq_true, hc.pool]
    omega
  refine ⟨?_, ?_, ?_⟩
  · intro y
    rw [hcount y]
    have hbound := hc.bounded y
    omega
  · intro y
    rw [hcount y]
    unfold RefCounts.drop
    by_cases hy : y = x
    · subst hy
      split
      · rename_i hzero
        simp only [update_self, count_singleton_self, true_iff]
        omega
      · rename_i hpos
        rw [hmod] at hpos
        simp [hout, hpos]
    · have hzero := count_singleton_ne hy
      rw [hzero, Nat.sub_zero, ← hc.pool y]
      split <;> simp [hy]
  · unfold RefCounts.drop
    split
    · simp [hc.once, hout]
    · exact hc.once

theorem Sound.dropAll (hc : c.Sound) {xs : List Obj} (hxs : ∀ y, xs.count y ≤ c.count y) :
    (c.dropAll xs).Sound ∧
      ∀ y, (c.dropAll xs).count y = c.count y - xs.count y := by
  induction xs generalizing c with
  | nil => exact ⟨hc, fun y => by simp [RefCounts.dropAll]⟩
  | cons x xs ih =>
    have hx : 0 < c.count x := by
      have h := hxs x
      rw [count_cons_self] at h
      omega
    have hstep := hc.drop_count hx
    have hsplit := count_cons_eq x xs
    have hrest : ∀ y, xs.count y ≤ (c.drop x).count y := by
      intro y
      have h := hxs y
      rw [hsplit y] at h
      rw [hstep y]
      omega
    obtain ⟨hsound, hcount⟩ := ih (hc.drop hx) hrest
    refine ⟨hsound, fun y => (hcount y).trans ?_⟩
    rw [hstep y, hsplit y]
    omega

theorem Sound.retain (hc : c.Sound) {x : Obj}
    (hpos : 0 < c.count x) (hroom : c.count x + 1 < modulus) :
    (c.retain x).Sound ∧
      ∀ y, (c.retain x).count y = c.count y + [x].count y := by
  have hcount : ∀ y, (c.retain x).count y = c.count y + [x].count y := by
    intro y
    unfold RefCounts.retain
    by_cases hy : y = x
    · subst hy
      simp [Nat.mod_eq_of_lt hroom]
    · have hzero := count_singleton_ne hy
      simp [hy, hzero]
  refine ⟨⟨?_, ?_, hc.once⟩, hcount⟩
  · intro y
    rw [hcount y]
    by_cases hy : y = x
    · subst hy
      simpa using hroom
    · have hzero := count_singleton_ne hy
      simpa [hzero] using hc.bounded y
  · intro y
    rw [hcount y]
    have hpool := hc.pool y
    by_cases hy : y = x
    · subst hy
      simp only [count_singleton_self]
      unfold RefCounts.retain
      simp only [hpool]
      omega
    · have hzero := count_singleton_ne hy
      rw [hzero, Nat.add_zero]
      exact hpool

theorem Sound.retainAll (hc : c.Sound) {xs : List Obj} (hpos : ∀ x ∈ xs, 0 < c.count x)
    (hroom : ∀ y, c.count y + xs.count y < modulus) :
    (c.retainAll xs).Sound ∧
      ∀ y, (c.retainAll xs).count y = c.count y + xs.count y := by
  induction xs generalizing c with
  | nil => exact ⟨hc, fun y => by simp [RefCounts.retainAll]⟩
  | cons x xs ih =>
    have hsplit := count_cons_eq x xs
    have hx : c.count x + 1 < modulus := by
      have h := hroom x
      rw [count_cons_self] at h
      omega
    obtain ⟨hsound, hstep⟩ := hc.retain (hpos x (by simp)) hx
    have hpos' : ∀ y ∈ xs, 0 < (c.retain x).count y := by
      intro y hy
      rw [hstep y]
      have h := hpos y (by simp [hy])
      omega
    have hroom' : ∀ y, (c.retain x).count y + xs.count y < modulus := by
      intro y
      have h := hroom y
      rw [hsplit y] at h
      rw [hstep y]
      omega
    obtain ⟨hsound', hcount⟩ := ih hsound hpos' hroom'
    refine ⟨hsound', fun y => (hcount y).trans ?_⟩
    rw [hstep y, hsplit y]
    omega

theorem Sound.alloc (hc : c.Sound) (hmod : 1 < modulus) {x : Obj} (hfree : c.inPool x = true) :
    (c.alloc x).Sound ∧
      ∀ y, (c.alloc x).count y = c.count y + [x].count y := by
  have hzero : c.count x = 0 := (hc.pool x).mp hfree
  have hcount : ∀ y, (c.alloc x).count y = c.count y + [x].count y := by
    intro y
    unfold RefCounts.alloc
    by_cases hy : y = x
    · subst hy
      simp [hzero]
    · have hnone := count_singleton_ne hy
      simp [hy, hnone]
  refine ⟨⟨?_, ?_, hc.once⟩, hcount⟩
  · intro y
    unfold RefCounts.alloc
    by_cases hy : y = x
    · simpa [hy] using hmod
    · simpa [hy] using hc.bounded y
  · intro y
    unfold RefCounts.alloc
    by_cases hy : y = x
    · simp [hy]
    · simpa [hy] using hc.pool y

theorem Sound.allocAll (hc : c.Sound) (hmod : 1 < modulus) {xs : List Obj}
    (hfree : ∀ x ∈ xs, c.inPool x = true) (hnodup : xs.Nodup) :
    (c.allocAll xs).Sound ∧
      ∀ y, (c.allocAll xs).count y = c.count y + xs.count y := by
  induction xs generalizing c with
  | nil => exact ⟨hc, fun y => by simp [RefCounts.allocAll]⟩
  | cons x xs ih =>
    have hsplit := count_cons_eq x xs
    obtain ⟨hx, hnodup'⟩ := nodup_cons.mp hnodup
    obtain ⟨hsound, hstep⟩ := hc.alloc hmod (hfree x (by simp))
    have hfree' : ∀ y ∈ xs, (c.alloc x).inPool y = true := by
      intro y hy
      have hne : y ≠ x := by
        rintro rfl
        exact hx hy
      simpa [RefCounts.alloc, hne] using hfree y (by simp [hy])
    obtain ⟨hsound', hcount⟩ := ih hsound hfree' hnodup'
    refine ⟨hsound', fun y => (hcount y).trans ?_⟩
    rw [hstep y, hsplit y]
    omega

end RefCounts

theorem sum_map_eraseIdx_add {α : Type*} (f : α → Nat) {l : List α} {k : Nat} {x : α}
    (hx : l[k]? = some x) : ((l.eraseIdx k).map f).sum + f x = (l.map f).sum := by
  induction l generalizing k with
  | nil => simp at hx
  | cons a l ih =>
    cases k with
    | zero =>
      simp only [List.getElem?_cons_zero, Option.some.injEq] at hx
      subst hx
      simp only [eraseIdx_cons_zero, map_cons, sum_cons]
      omega
    | succ k =>
      simp only [List.getElem?_cons_succ] at hx
      have h := ih hx
      simp only [eraseIdx_cons_succ, map_cons, sum_cons]
      omega

theorem sum_map_set_add {α : Type*} (f : α → Nat) {l : List α} {k : Nat} {x : α} (y : α)
    (hx : l[k]? = some x) : ((l.set k y).map f).sum + f x = (l.map f).sum + f y := by
  have hk : k < l.length := (List.getElem?_eq_some_iff.mp hx).1
  have hold := sum_map_eraseIdx_add f hx
  have hnew := sum_map_eraseIdx_add f (List.getElem?_set_self (a := y) hk)
  rw [eraseIdx_set_eq] at hnew
  omega

end LightStack.Lib
