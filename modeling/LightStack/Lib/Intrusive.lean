import Mathlib
import LightStack.Lib.Update

/-!
# Intrusive lists

An object carries one flag for each list, which tells whether it is on the list.
-/

namespace LightStack.Lib

open Function List

variable {ι α : Type*} [DecidableEq ι] [DecidableEq α]

structure Flagged (list : ι → List α) (present : ι → α → Bool) : Prop where
  nodup : ∀ r, (list r).Nodup
  present_iff : ∀ r a, present r a = true ↔ a ∈ list r

namespace Flagged

variable {list : ι → List α} {present : ι → α → Bool} {r : ι} {a : α}

omit [DecidableEq ι] [DecidableEq α] in
theorem not_mem (h : Flagged list present) (habsent : present r a = false) : a ∉ list r := by
  rw [← h.present_iff, habsent]
  exact Bool.false_ne_true

theorem insert (h : Flagged list present) (habsent : present r a = false) :
    Flagged (update list r (list r ++ [a])) (update present r (update (present r) a true)) where
  nodup := forall_update (P := fun _ => Nodup) (nodup_append.mpr ⟨h.nodup r,
    nodup_singleton a, fun b hb c hc hbc => h.not_mem habsent (mem_singleton.mp hc ▸ hbc ▸ hb)⟩)
    fun r' _ => h.nodup r'
  present_iff := fun r' b => by
    by_cases hr : r' = r
    · subst hr
      by_cases hb : b = a
      · simp [hb]
      · simp [hb, h.present_iff]
    · simp [hr, h.present_iff]

theorem erase (h : Flagged list present) : Flagged (update list r ((list r).erase a))
      (update present r (update (present r) a false)) where
  nodup := forall_update (P := fun _ => Nodup) ((h.nodup r).erase a) fun r' _ => h.nodup r'
  present_iff := fun r' b => by
    by_cases hr : r' = r
    · subst hr
      by_cases hb : b = a
      · simp [hb, (h.nodup r').not_mem_erase]
      · simp [hb, h.present_iff, mem_erase_of_ne hb]
    · simp [hr, h.present_iff]

end Flagged

variable [Fintype ι]

def memberships (list : ι → List α) (a : α) : Nat := ∑ r, (list r).count a

theorem memberships_update (list : ι → List α) (r : ι) (l : List α) (a : α) :
    memberships (update list r l) a + (list r).count a = memberships list a + l.count a := by
  have hrest : ∑ i ∈ Finset.univ.erase r, (update list r l i).count a =
      ∑ i ∈ Finset.univ.erase r, (list i).count a :=
    Finset.sum_congr rfl fun i hi => by rw [update_of_ne (Finset.ne_of_mem_erase hi)]
  unfold memberships
  rw [← Finset.add_sum_erase _ _ (Finset.mem_univ r), hrest, update_self,
    ← Finset.add_sum_erase Finset.univ (fun i => (list i).count a) (Finset.mem_univ r)]
  omega

theorem memberships_insert (list : ι → List α) (r : ι) (a b : α) :
    memberships (update list r (list r ++ [a])) b =
      memberships list b + if b = a then 1 else 0 := by
  have hupdate := memberships_update list r (list r ++ [a]) b
  have hcount : (list r ++ [a]).count b = (list r).count b + if b = a then 1 else 0 := by
    by_cases hb : b = a
    · subst hb
      simp
    · simp [hb, Ne.symm hb]
  omega

theorem memberships_erase {list : ι → List α} {r : ι} {a : α} (ha : a ∈ list r) (b : α) :
    memberships (update list r ((list r).erase a)) b + (if b = a then 1 else 0) =
      memberships list b := by
  have hupdate := memberships_update list r ((list r).erase a) b
  by_cases hb : b = a
  · subst hb
    have hpos := count_pos_iff.mpr ha
    rw [count_erase_self] at hupdate
    rw [if_pos rfl]
    omega
  · rw [count_erase_of_ne hb] at hupdate
    rw [if_neg hb]
    omega

omit [DecidableEq ι] in
theorem memberships_eq_zero {list : ι → List α} {a : α} (h : ∀ r, a ∉ list r) :
    memberships list a = 0 :=
  Finset.sum_eq_zero fun r _ => count_eq_zero.mpr (h r)

omit [DecidableEq ι] in
theorem memberships_pos {list : ι → List α} {r : ι} {a : α} (h : a ∈ list r) :
    0 < memberships list a :=
  (count_pos_iff.mpr h).trans_le
    (Finset.single_le_sum (f := fun r => (list r).count a) (fun _ _ => Nat.zero_le _)
      (Finset.mem_univ r))

end LightStack.Lib
